import Aesd.Chunking

/-! Reading to the end of the data while others write. The reader's position counts from the
oldest live command, so a commit leaves what it has read so far a first part of the live
data unless that commit evicts a command after the first byte was delivered. -/
namespace Aesd

variable {c : Call} {calls : List Call}
  {seek : Int → Int → Int → Int → Int}

/-- A driver together with all commands ever committed to it. -/
structure Chronicle where
  driver : Driver
  committed : List (List Byte)

def Chronicle.initial : Chronicle := ⟨.initial, []⟩

def Chronicle.perform (seek : Int → Int → Int → Int → Int) (c : Call) (s : Chronicle) :
    Option (Chronicle × Reply) :=
  (Aesd.perform seek c s.driver).map fun next =>
    (⟨next.1, s.committed ++ s.driver.kernel.committed next.1.kernel⟩, next.2)

def ReadsOrWrites (file : Nat) (c : Call) : Prop :=
  (∃ env filp buf count, 0 < count ∧ c = .read file env filp buf count) ∨
  (∃ other env filp buf, other ≠ file ∧ c = .write other env filp buf)

structure Recorded (s : Chronicle) (l : Ledger) : Prop where
  represents : Represents s.driver l
  committed : s.committed = l.journal.history

theorem initial_recorded : Recorded .initial .initial := ⟨initial_represents, rfl⟩

theorem chronicle_refines (seek : Int → Int → Int → Int → Int) (c : Call) {s : Chronicle}
    {l : Ledger} (recorded : Recorded s l) :
    ∃ s' l' reply, Chronicle.perform seek c s = some (s', reply) ∧
      l.perform seek c = some (l', reply) ∧ Recorded s' l' := by
  obtain ⟨d', l', reply, step, abstract, after⟩ := perform_refines seek c recorded.represents
  refine ⟨⟨d', s.committed ++ s.driver.kernel.committed d'.kernel⟩, l', reply, ?_, abstract, after, ?_⟩
  · rw [Chronicle.perform, step, Option.map_some]
  · have models := recorded.represents.models
    have journal : l'.journal = (l.journal.operate seek c (l.fpos c.file)).journal := by
      rw [Ledger.perform, Option.some.injEq, Prod.mk.injEq] at abstract
      exact (congrArg Ledger.journal abstract.1).symm
    rcases models.history_step seek c (l.fpos c.file) with ⟨_, line, longer⟩ | ⟨_, same⟩
    · rw [← journal] at longer
      change s.committed ++ _ = _
      rw [models.committed_line after.models longer, recorded.committed, longer]
    · rw [← journal] at same
      change s.committed ++ _ = _
      rw [models.committed_nothing after.models same, recorded.committed, same, List.append_nil]

theorem chronicle_total (seek : Int → Int → Int → Int → Int) (calls : List Call) {s : Chronicle}
    {l : Ledger} (recorded : Recorded s l) :
    ∃ s' l' replies, Transition.execute (Chronicle.perform seek) calls s = some (s', replies) ∧
      Transition.execute (fun c l => Ledger.perform seek c l) calls l = some (l', replies) ∧
      Recorded s' l' := by
  apply Transition.execute_lockstep Recorded ?_ calls recorded
  exact fun c s l before => chronicle_refines seek c before

theorem chronicle_run {s s' : Chronicle} {l : Ledger}
    (run : Transition.execute (Chronicle.perform seek) calls s = some (s', replies))
    (recorded : Recorded s l) : ∃ l', Recorded s' l' := by
  obtain ⟨s₁, l', replies', run', _, last⟩ := chronicle_total seek calls recorded
  rw [run, Option.some.injEq, Prod.mk.injEq] at run'
  obtain ⟨rfl, rfl⟩ := run'
  exact ⟨l', last⟩

/-- The file has read a first part of the live data, up to its position. -/
structure Following (l : Ledger) (file : Nat) (delivered : List Byte) : Prop where
  position : l.fpos file = delivered.length
  start : delivered <+: l.journal.content

/-- A read takes the file on through the live data; with a positive count it returns 0 only
when everything was delivered before. -/
theorem Following.read {l l' : Ledger} (following : Following l file delivered)
    (small : l.journal.content.length < 2 ^ 63)
    (abstract : l.perform seek (.read file env filp buf count) = some (l', reply)) :
    l'.journal = l.journal ∧ Following l' file (delivered ++ reply.delivered) ∧
      (0 < count → reply.ret = 0 → delivered ++ reply.delivered = l'.journal.content) := by
  obtain ⟨position, start⟩ := following
  have le := start.length_le
  have cases := l.journal.read_cases env filp buf count delivered.length (by omega)
  rw [← position] at cases
  rw [Ledger.perform, Option.some.injEq, Prod.mk.injEq] at abstract
  obtain ⟨rfl, rfl⟩ := abstract
  simp only [Call.file, Journal.operate]
  rcases cases with ⟨ret, negative, result⟩ | ⟨beyond, result⟩ | ⟨bytes, some, _, next, result⟩ <;>
    rw [result]
  · refine ⟨rfl, ⟨?_, by simpa using start⟩, fun _ zero => absurd negative ?_⟩
    · simp [position]
    · simp only at zero
      omega
  · refine ⟨rfl, ⟨?_, by simpa using start⟩, fun _ _ => ?_⟩
    · simp [position]
    · simpa using start.eq_of_length_le beyond
  · refine ⟨rfl, ⟨?_, ?_⟩, fun positive none => ?_⟩
    · simp [position]
    · obtain ⟨rest, split⟩ := start
      rw [← split, List.drop_left] at next
      exact split ▸ (List.prefix_append_right_inj _).mpr next
    · have length := List.length_pos_of_ne_nil (some positive)
      simp only at none
      omega

/-- A commit that evicts nothing only lengthens the live data. -/
theorem Journal.content_grows (j j' : Journal) (longer : j'.history = j.history ++ [line])
    (room : j.history.length < 10) : j.content <+: j'.content := by
  simp only [Journal.content, Journal.live, longer, List.length_append, List.length_singleton]
  rw [Nat.sub_eq_zero_of_le (by omega), Nat.sub_eq_zero_of_le (by omega), List.drop_zero,
    List.drop_zero, List.flatten_append]
  exact List.prefix_append _ _

/-- One step of the interleaving: the file still has read a first part of the live data. -/
theorem Following.step {s : Chronicle} {l l' : Ledger} (recorded : Recorded s l)
    (following : Following l file delivered) (kind : ReadsOrWrites file c)
    (keeps : 0 < l.fpos file → ¬Evicts c s.driver.kernel)
    (abstract : l.perform seek c = some (l', reply)) :
    Following l' file (delivered ++ reply.delivered) := by
  have models := recorded.represents.models
  rcases kind with ⟨env, filp, buf, count, _, rfl⟩ | ⟨other, env, filp, buf, different, rfl⟩
  · exact (following.read models.content_lt abstract).2.1
  · rw [Ledger.perform, Option.some.injEq, Prod.mk.injEq] at abstract
    obtain ⟨rfl, rfl⟩ := abstract
    have nothing : (l.journal.write env filp buf (l.fpos other)).delivered = [] := by
      rcases l.journal.write_cases env filp buf (l.fpos other) with ⟨_, _, _, result⟩ |
        ⟨_, _, ⟨_, result⟩ | ⟨_, result⟩⟩ <;> rw [result]
    simp only [Call.file, Journal.operate, nothing, List.append_nil]
    constructor
    · exact (setFpos_other different.symm).trans following.position
    · rcases models.history_step seek (.write other env filp buf) (l.fpos other) with
        ⟨commits, line, longer⟩ | ⟨_, same⟩
      · by_cases started : delivered = []
        · rw [started]
          exact List.nil_prefix
        · have positive : 0 < l.fpos file := by
            have := List.length_pos_of_ne_nil started
            rw [following.position]
            omega
          have room : l.journal.history.length < 10 := by
            by_contra filled
            exact keeps positive ⟨commits, models.full_iff.mpr (by omega)⟩
          exact following.start.trans (Journal.content_grows _ _ longer room)
      · have unchanged : (l.journal.write env filp buf (l.fpos other)).journal.content =
            l.journal.content := by
          simp only [Journal.operate] at same
          simp only [Journal.content, Journal.live, same]
        rw [unchanged]
        exact following.start

/-- The interleaving: from position 0 on, with nothing evicted after the first byte. -/
theorem following_run {s s' : Chronicle} {l : Ledger} (recorded : Recorded s l)
    (following : Following l file before)
    (kinds : ∀ c ∈ calls, ReadsOrWrites file c)
    (keeps : Transition.Guarded (Chronicle.perform seek)
      (fun c s => 0 < s.driver.fpos file → ¬Evicts c s.driver.kernel) calls s)
    (run : Transition.execute (Chronicle.perform seek) calls s = some (s', replies)) :
    ∃ l', Recorded s' l' ∧ Following l' file (before ++ (replies.map Reply.delivered).flatten) := by
  induction calls generalizing s l before replies with
  | nil =>
    simp only [Transition.execute_nil, Option.some.injEq, Prod.mk.injEq] at run
    obtain ⟨rfl, rfl⟩ := run
    exact ⟨l, recorded, by simpa using following⟩
  | cons c calls ih =>
    obtain ⟨next, reply, later, step, tail, rfl⟩ := Transition.execute_cons_iff.mp run
    obtain ⟨s₁, l₁, reply', result, abstract, after⟩ := chronicle_refines seek c recorded
    rw [step, Option.some.injEq, Prod.mk.injEq] at result
    obtain ⟨rfl, rfl⟩ := result
    have guard : 0 < l.fpos file → ¬Evicts c s.driver.kernel := by
      rw [← recorded.represents.fpos]
      exact keeps.1
    have one := following.step recorded (kinds c (by simp)) guard abstract
    obtain ⟨l', last, all⟩ := ih after one (fun other member => kinds other (by simp [member]))
      (keeps.2 _ _ step) tail
    refine ⟨l', last, ?_⟩
    simpa using all

/-- A read-out that ends with a read of 0 bytes delivered exactly the commands that are live at that
read, if no write evicted a command once its position was past 0. -/
theorem readout_contiguous {s final : Chronicle}
    (reached : Transition.execute (Chronicle.perform seek) prior .initial = some (s, earlier))
    (start : s.driver.fpos file = 0) (kinds : ∀ c ∈ calls, ReadsOrWrites file c)
    (keeps : Transition.Guarded (Chronicle.perform seek)
      (fun c s => 0 < s.driver.fpos file → ¬Evicts c s.driver.kernel) calls s)
    (positive : 0 < count)
    (run : Transition.execute (Chronicle.perform seek)
      (calls ++ [.read file env filp buf count]) s = some (final, replies ++ [last]))
    (ended : last.ret = 0) :
    ∃ m, m = final.committed.length - 10 ∧ (final.committed ≠ [] → m < final.committed.length) ∧
      ((replies ++ [last]).map Reply.delivered).flatten = (final.committed.drop m).flatten := by
  obtain ⟨l, recorded⟩ := chronicle_run reached initial_recorded
  have following : Following l file [] :=
    ⟨by rw [← recorded.represents.fpos, start]; rfl, List.nil_prefix⟩
  obtain ⟨middle, first, step⟩ := Transition.execute_snoc_iff.mp run
  obtain ⟨l', recorded', following'⟩ := following_run recorded following kinds keeps first
  obtain ⟨s₁, l₁, reply, result, abstract, after⟩ := chronicle_refines seek _ recorded'
  rw [step, Option.some.injEq, Prod.mk.injEq] at result
  obtain ⟨rfl, rfl⟩ := result
  obtain ⟨_, _, complete⟩ := following'.read recorded'.represents.models.content_lt abstract
  refine ⟨_, rfl, fun some => ?_, ?_⟩
  · have := List.length_pos_of_ne_nil some
    omega
  · rw [after.committed, List.map_append, List.flatten_append]
    simpa [Journal.content, Journal.live] using complete positive ended

def digitLines : List (List Byte) := (List.range 10).map fun i => [UInt8.ofNat (48 + i), newline]

def readTwo : Call := .read 0 .success true true 2

/-- One line is read, an eleventh line "x" evicts it, and the reader goes on to the end. -/
def disturbed : List Call := readTwo :: writeLine 1 [120, 10] :: List.replicate 9 readTwo

def disturbedReplies : List Reply :=
  ⟨2, [48, 10]⟩ :: ⟨2, []⟩ :: (List.range 8).map (fun i => ⟨2, [UInt8.ofNat (50 + i), 10]⟩) ++
    [⟨2, [120, 10]⟩]

theorem disturbed_outcome :
    (Transition.execute (fun c l => Ledger.perform (fun _ _ _ _ => 0) c l)
      (digitLines.map (writeLine 1) ++ (disturbed ++ [readTwo])) Ledger.initial).map
        (fun final => (final.1.journal.history, final.2.drop 10)) =
      some (digitLines ++ [[120, 10]], disturbedReplies ++ [⟨0, []⟩]) := by
  decide +kernel

/-- The reader misses the line "1". -/
theorem readout_skips :
    ∃ s final earlier,
      Transition.execute (Chronicle.perform fun _ _ _ _ => 0) (digitLines.map (writeLine 1)) .initial =
        some (s, earlier) ∧
      s.driver.fpos 0 = 0 ∧ (∀ c ∈ disturbed, ReadsOrWrites 0 c) ∧
      Transition.execute (Chronicle.perform fun _ _ _ _ => 0) (disturbed ++ [readTwo]) s =
        some (final, disturbedReplies ++ [⟨0, []⟩]) ∧
      ¬∃ m, ((disturbedReplies ++ [(⟨0, []⟩ : Reply)]).map Reply.delivered).flatten =
        (final.committed.drop m).flatten := by
  obtain ⟨s, l, earlier, first, abstract, recorded⟩ :=
    chronicle_total (fun _ _ _ _ => 0) (digitLines.map (writeLine 1)) initial_recorded
  obtain ⟨final, l', replies, second, abstract', recorded'⟩ :=
    chronicle_total (fun _ _ _ _ => 0) (disturbed ++ [readTwo]) recorded
  have length : earlier.length = 10 := Transition.execute_length abstract
  have outcome := disturbed_outcome
  rw [Transition.execute_append abstract abstract', Option.map_some, Option.some.injEq,
    Prod.mk.injEq, List.drop_left' length] at outcome
  obtain ⟨history, rfl⟩ := outcome
  have position : l.fpos 0 = 0 := by
    have start := congrArg (Option.map fun final => final.1.fpos 0) abstract
    exact (Option.some.inj start).symm
  refine ⟨s, final, earlier, first, recorded.represents.fpos ▸ position, ?_, second, ?_⟩
  · intro c member
    rcases List.mem_cons.mp member with rfl | member
    · exact .inl ⟨_, _, _, 2, by decide, rfl⟩
    rcases List.mem_cons.mp member with rfl | member
    · exact .inr ⟨1, _, _, _, by decide, rfl⟩
    · rw [List.eq_of_mem_replicate member]
      exact .inl ⟨_, _, _, 2, by decide, rfl⟩
  · rintro ⟨m, same⟩
    rw [recorded'.committed, history] at same
    by_cases within : m < 11
    · have differs : ∀ m < 11, ((disturbedReplies ++ [(⟨0, []⟩ : Reply)]).map Reply.delivered).flatten ≠
          ((digitLines ++ [[120, 10]]).drop m).flatten := by decide +kernel
      exact differs m within same
    · have length : (digitLines ++ [[120, 10]]).length = 11 := rfl
      rw [List.drop_of_length_le (by omega)] at same
      revert same
      decide +kernel

/-- The line "a" is read, "b" is written, and the reader goes on to the end. -/
def followed : List Call := [readTwo, writeLine 1 [98, 10]] ++ [readTwo]

theorem readout_contiguous_line :
    ∃ s final earlier replies last,
      Transition.execute (Chronicle.perform fun _ _ _ _ => 0) [writeLine 1 [97, 10]] .initial =
        some (s, earlier) ∧
      Transition.execute (Chronicle.perform fun _ _ _ _ => 0) (followed ++ [readTwo]) s =
        some (final, replies ++ [last]) ∧
      ∃ m, m = final.committed.length - 10 ∧
        (final.committed ≠ [] → m < final.committed.length) ∧
        ((replies ++ [last]).map Reply.delivered).flatten =
          (final.committed.drop m).flatten := by
  obtain ⟨s, l, earlier, first, abstract, recorded⟩ :=
    chronicle_total (fun _ _ _ _ => 0) [writeLine 1 [97, 10]] initial_recorded
  obtain ⟨final, l', replies, second, abstract', _⟩ :=
    chronicle_total (fun _ _ _ _ => 0) (followed ++ [readTwo]) recorded
  have length : earlier.length = 1 := Transition.execute_length abstract
  have outcome : (Transition.execute (fun c l => Ledger.perform (fun _ _ _ _ => 0) c l)
      ([writeLine 1 [97, 10]] ++ (followed ++ [readTwo])) Ledger.initial).map
        (fun final => final.2.drop 1) =
      some ([⟨2, [97, 10]⟩, ⟨2, []⟩, ⟨2, [98, 10]⟩] ++ [⟨0, []⟩]) := by decide +kernel
  rw [Transition.execute_append abstract abstract', Option.map_some, Option.some.injEq,
    List.drop_left' length] at outcome
  subst outcome
  have position : l.fpos 0 = 0 := by
    have start := congrArg (Option.map fun final => final.1.fpos 0) abstract
    exact (Option.some.inj start).symm
  have single : l.journal.history = [[97, 10]] := by
    have lines := congrArg (Option.map fun final => final.1.journal.history) abstract
    exact (Option.some.inj lines).symm
  have kinds : ∀ c ∈ followed, ReadsOrWrites 0 c := by
    intro c member
    simp only [followed, List.mem_append, List.mem_cons, List.not_mem_nil, or_false] at member
    rcases member with (rfl | rfl) | rfl
    · exact .inl ⟨_, _, _, 2, by decide, rfl⟩
    · exact .inr ⟨1, _, _, _, by decide, rfl⟩
    · exact .inl ⟨_, _, _, 2, by decide, rfl⟩
  -- with one command in it the ring is not full when "b" is written
  have keeps : Transition.Guarded (Chronicle.perform fun _ _ _ _ => 0)
      (fun c s => 0 < s.driver.fpos 0 → ¬Evicts c s.driver.kernel) followed s := by
    have reads : ∀ k, ¬Evicts readTwo k := by
      rintro k ⟨⟨_, _, _, same, _⟩, _⟩
      cases same
    refine ⟨fun _ => reads _, fun next reply step => ⟨fun _ evicts => ?_, fun _ _ _ =>
      ⟨fun _ => reads _, fun _ _ _ => trivial⟩⟩⟩
    obtain ⟨s₁, l₁, reply', result, abstract₁, after⟩ :=
      chronicle_refines (fun _ _ _ _ => 0) readTwo recorded
    rw [step, Option.some.injEq, Prod.mk.injEq] at result
    obtain ⟨rfl, rfl⟩ := result
    have following : Following l 0 [] := ⟨position, List.nil_prefix⟩
    obtain ⟨same, _⟩ := following.read recorded.represents.models.content_lt abstract₁
    have full := after.represents.models.full_iff.mp evicts.2
    rw [same, single] at full
    exact absurd full (by decide)
  exact ⟨s, final, earlier, _, _, first, second, readout_contiguous first
    (recorded.represents.fpos ▸ position) kinds keeps (by decide) second rfl⟩

end Aesd
