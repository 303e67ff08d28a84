import Aesd.Chunking

/-! Reading the device out. Successive reads of one file deliver consecutive bytes of the
live data, whatever their sizes, and nothing of the line being assembled. -/
namespace Aesd

variable {k : Kernel} {j : Journal} {d d' : Driver} (seek : Int → Int → Int → Int → Int)

def readCalls (file : Nat) (counts : List Nat) : List Call :=
  counts.map (.read file .success true true ·)

theorem Journal.read_success (j : Journal) (count p : Nat) (width : p < 2 ^ 64) :
    ∃ bytes, bytes.length ≤ count ∧ bytes <+: j.content.drop p ∧
      (0 < count → (bytes = [] ↔ j.content.length ≤ p)) ∧
      j.read .success true true count p = ⟨bytes.length, p + bytes.length, bytes, j⟩ := by
  rcases j.read_cases .success true true count p width with
    ⟨ret, negative, result⟩ | ⟨beyond, result⟩ | ⟨bytes, some, few, next, result⟩
  · have failed := congrArg Outcome.ret result
    simp only [read, ReadEnv.success, Bool.and_self, if_true] at failed
    split at failed
    · simp only at failed
      omega
    · simp only at failed
      omega
  · exact ⟨[], Nat.zero_le _, List.nil_prefix, fun _ => ⟨fun _ => beyond, fun _ => rfl⟩,
      by simpa using result⟩
  · refine ⟨bytes, few, next, fun positive => ⟨fun empty => absurd empty (some positive), ?_⟩, result⟩
    intro beyond
    have nothing : j.content.drop p = [] := List.drop_eq_nil_of_le beyond
    rw [nothing] at next
    exact List.prefix_nil.mp next

theorem Models.read_success (models : Models d.kernel j) (file count p : Nat)
    (position : d.fpos file = p) (width : p < 2 ^ 64) :
    ∃ bytes d', perform seek (.read file .success true true count) d =
        some (d', ⟨bytes.length, bytes⟩) ∧
      Models d'.kernel j ∧ d'.fpos file = p + bytes.length ∧
      bytes.length ≤ count ∧ bytes <+: j.content.drop p ∧
      (0 < count → (bytes = [] ↔ j.content.length ≤ p)) := by
  obtain ⟨bytes, few, next, ended, outcome⟩ := j.read_success count p width
  obtain ⟨r, result, refines⟩ := aesdRead_refines models .success true true count p
  rw [outcome] at refines
  obtain ⟨ret, fpos, delivered, after⟩ := refines
  refine ⟨bytes, ⟨r.kernel, setFpos d.fpos file r.fpos⟩, ?_, after, ?_, few, next, ended⟩
  · simp only [perform, Call.operate, Call.file, position, result, Option.map_some, ret, delivered]
  · exact setFpos_same.trans fpos

/-- What a sequence of reads delivers from position `p` on. -/
structure Drained (j : Journal) (file p : Nat) (d' : Driver) (replies : List Reply) : Prop where
  models : Models d'.kernel j
  returned : (replies.map Reply.ret).sum = ((replies.map Reply.delivered).flatten.length : Nat)
  consecutive : (replies.map Reply.delivered).flatten <+: j.content.drop p
  position : d'.fpos file = p + (replies.map Reply.delivered).flatten.length

theorem Drained.nil (models : Models d.kernel j) (position : d.fpos file = (p : Nat)) :
    Drained j file p d [] where
  models := models
  returned := rfl
  consecutive := List.nil_prefix
  position := by simpa using position

theorem Drained.cons (bytes : List Byte) (next : bytes <+: j.content.drop p)
    (later : Drained j file (p + bytes.length) d' replies) :
    Drained j file p d' (⟨bytes.length, bytes⟩ :: replies) where
  models := later.models
  returned := by
    simp only [List.map_cons, List.sum_cons, later.returned, List.flatten_cons, List.length_append]
    omega
  consecutive := by
    obtain ⟨rest, split⟩ := next
    have remaining : j.content.drop (p + bytes.length) = rest := by
      rw [← List.drop_drop, ← split, List.drop_left]
    have tail := later.consecutive
    rw [remaining] at tail
    rw [← split]
    exact (List.prefix_append_right_inj bytes).mpr tail
  position := by
    simp only [later.position, List.map_cons, List.flatten_cons, List.length_append]
    omega

/-- A run of reads: the induction is on the calls, each going on where the last one stopped. -/
theorem Models.drained (models : Models d.kernel j) (file p : Nat) (counts : List Nat)
    (position : d.fpos file = p) (width : p < 2 ^ 63) :
    ∃ d' replies, Transition.execute (perform seek) (readCalls file counts) d = some (d', replies) ∧
      Drained j file p d' replies := by
  induction counts generalizing d p with
  | nil => exact ⟨d, [], rfl, .nil models position⟩
  | cons count counts ih =>
    obtain ⟨bytes, d₁, first, models₁, position₁, _, next, _⟩ :=
      models.read_success seek file count p position (by omega)
    have inside : p + bytes.length < 2 ^ 63 := by
      have small := models.content_lt
      have length := next.length_le
      rw [List.length_drop] at length
      omega
    obtain ⟨d', replies, run, drained⟩ := ih models₁ (p + bytes.length) (by simpa using position₁) inside
    exact ⟨d', _, Transition.execute_cons_iff.mpr ⟨d₁, _, replies, first, run, rfl⟩,
      drained.cons bytes next⟩

theorem Drained.width (drained : Drained j file p d' replies) (models : Models k j)
    (width : p < 2 ^ 63) : p + (replies.map Reply.delivered).flatten.length < 2 ^ 63 := by
  have small := models.content_lt
  have length := drained.consecutive.length_le
  rw [List.length_drop] at length
  omega

theorem Journal.read_live {j j' : Journal} (same : j.live = j'.live) (env : ReadEnv)
    (filp buf : Bool) (count : Nat) (fpos : Int) :
    (j.read env filp buf count fpos).ret = (j'.read env filp buf count fpos).ret ∧
    (j.read env filp buf count fpos).fpos = (j'.read env filp buf count fpos).fpos ∧
    (j.read env filp buf count fpos).delivered = (j'.read env filp buf count fpos).delivered ∧
    (j.read env filp buf count fpos).journal = j ∧
    (j'.read env filp buf count fpos).journal = j' := by
  simp only [read, same]
  repeat' split
  all_goals exact ⟨rfl, rfl, rfl, rfl, rfl⟩

/-- Devices with the same live commands answer a sequence of reads alike. -/
theorem reads_agree {e : Driver} {j' : Journal} (models : Models d.kernel j)
    (models' : Models e.kernel j') (same : j.live = j'.live) (file : Nat) (counts : List Nat)
    (positions : d.fpos = e.fpos) :
    ∃ d' e' replies,
      Transition.execute (perform seek) (readCalls file counts) d = some (d', replies) ∧
      Transition.execute (perform seek) (readCalls file counts) e = some (e', replies) := by
  induction counts generalizing d e with
  | nil => exact ⟨d, e, [], rfl, rfl⟩
  | cons count counts ih =>
    obtain ⟨r, result, refines⟩ := aesdRead_refines models .success true true count (d.fpos file)
    obtain ⟨r', result', refines'⟩ := aesdRead_refines models' .success true true count (d.fpos file)
    obtain ⟨ret, fpos, delivered, journal, journal'⟩ :=
      Journal.read_live same .success true true count (d.fpos file)
    have next := refines.models
    have next' := refines'.models
    rw [journal] at next
    rw [journal'] at next'
    have moved : setFpos d.fpos file r.fpos = setFpos e.fpos file r'.fpos := by
      rw [refines.fpos, refines'.fpos, fpos, positions]
    have reply : (⟨r.ret, r.delivered⟩ : Reply) = ⟨r'.ret, r'.delivered⟩ := by
      rw [refines.ret, refines'.ret, refines.delivered, refines'.delivered, ret, delivered]
    obtain ⟨d', e', replies, run, run'⟩ :=
      ih (d := ⟨r.kernel, setFpos d.fpos file r.fpos⟩) (e := ⟨r'.kernel, setFpos e.fpos file r'.fpos⟩)
        next next' moved
    refine ⟨d', e', ⟨r.ret, r.delivered⟩ :: replies, ?_, ?_⟩
    · apply Transition.execute_cons_iff.mpr
      refine ⟨_, _, replies, ?_, run, rfl⟩
      simp only [perform, Call.operate, Call.file, result, Option.map_some]
    · apply Transition.execute_cons_iff.mpr
      refine ⟨_, _, replies, ?_, run', rfl⟩
      simp only [perform, Call.operate, Call.file, ← positions, result', Option.map_some, reply]

theorem Models.read_fails (models : Models d.kernel j) (file count p : Nat)
    (position : d.fpos file = p) (inside : p < j.content.length) :
    ∃ d', perform seek (.read file ⟨true, false⟩ true true count) d = some (d', ⟨-efault, []⟩) ∧
      d'.fpos = d.fpos := by
  have small := models.content_lt
  have outcome : j.read ⟨true, false⟩ true true count p = ⟨-efault, p, [], j⟩ := by
    have somewhere := (Locate.locate_none_length j.live p).not.mpr (Nat.not_le.mpr inside)
    obtain ⟨found, place⟩ := Option.ne_none_iff_exists'.mp somewhere
    simp [Journal.read, sizeOfLoff_of_nonneg p (by omega), place]
  obtain ⟨r, result, refines⟩ := aesdRead_refines models ⟨true, false⟩ true true count p
  rw [outcome] at refines
  obtain ⟨ret, fpos, delivered, _⟩ := refines
  refine ⟨⟨r.kernel, setFpos d.fpos file r.fpos⟩, ?_, ?_⟩
  · simp only [perform, Call.operate, Call.file, position, result, Option.map_some, ret, delivered]
  · funext other
    change setFpos d.fpos file r.fpos other = d.fpos other
    by_cases same : other = file
    · rw [same, setFpos_same, fpos, position]
    · exact setFpos_other same

/-- From any position on, reads of any sizes deliver the next bytes of the live commands; a
further read returns 0 exactly at their end, a failing one changes nothing, and what is
pending in the device has no part in it. -/
theorem reads_drain (reachable : Reachable d) (fpos : Nat → Int) (file p : Nat)
    (start : fpos file = p) (width : p < 2 ^ 63) (counts : List Nat) :
    ∃ d' replies,
      Transition.execute (perform seek) (readCalls file counts) ⟨d.kernel, fpos⟩ =
        some (d', replies) ∧
      (∃ total : Nat, (replies.map Reply.ret).sum = total ∧
        (replies.map Reply.delivered).flatten = (d.kernel.commands.flatten.drop p).take total ∧
        (replies.map Reply.delivered).flatten.length = total ∧ d'.fpos file = p + total) ∧
      (∀ count, 0 < count → ∃ next reply,
        perform seek (.read file .success true true count) d' = some (next, reply) ∧
        (reply.ret = 0 ↔ d.kernel.commands.flatten.length ≤ d'.fpos file) ∧
        (reply.ret ≠ 0 → 1 ≤ reply.ret ∧ reply.ret ≤ count)) ∧
      (∀ count, 0 < count → d'.fpos file < d.kernel.commands.flatten.length → ∃ next reply,
        perform seek (.read file ⟨true, false⟩ true true count) d' = some (next, reply) ∧
        reply.ret < 0 ∧ next.fpos = d'.fpos) ∧
      ∀ e, Reachable e → e.kernel.commands = d.kernel.commands →
        ∃ e', Transition.execute (perform seek) (readCalls file counts) ⟨e.kernel, fpos⟩ =
          some (e', replies) := by
  obtain ⟨l, represents⟩ := reachable.represents
  have models : Models (Driver.mk d.kernel fpos).kernel l.journal := represents.models
  have content : d.kernel.commands.flatten = l.journal.content := by
    rw [models.commands, Journal.content]
  obtain ⟨d', replies, run, drained⟩ := models.drained seek file p counts start width
  have inside := drained.width models width
  have position := drained.position
  rw [← Int.natCast_add] at position
  rw [content]
  refine ⟨d', replies, run, ⟨_, drained.returned, ?_, rfl, drained.position⟩, ?_, ?_, ?_⟩
  · exact List.prefix_iff_eq_take.mp drained.consecutive
  · intro count positive
    obtain ⟨bytes, next, result, _, _, few, _, ended⟩ :=
      drained.models.read_success seek file count _ position (by omega)
    refine ⟨next, _, result, ?_, ?_⟩
    · rw [position, Int.ofNat_le, ← ended positive, ← List.length_eq_zero_iff]
      exact Int.natCast_eq_zero
    · intro nonzero
      simp only at nonzero ⊢
      omega
  · intro count _ before
    rw [position, Int.ofNat_lt] at before
    obtain ⟨next, result, unmoved⟩ :=
      drained.models.read_fails seek file count _ position before
    exact ⟨next, _, result, by decide, unmoved⟩
  · intro e reachable' same
    obtain ⟨l', represents'⟩ := reachable'.represents
    have models' : Models (Driver.mk e.kernel fpos).kernel l'.journal := represents'.models
    have live : l.journal.live = l'.journal.live := by
      rw [← models.commands, ← models'.commands]
      exact same.symm
    obtain ⟨d₁, e', replies', run', other⟩ :=
      reads_agree seek models models' live file counts rfl
    rw [run, Option.some.injEq, Prod.mk.injEq] at run'
    obtain ⟨_, rfl⟩ := run'
    exact ⟨e', other⟩

theorem reads_drain_eleven :
    ∃ d d' replies, Reachable d ∧ d.kernel.commands.flatten.length = 22 ∧
      Transition.execute (perform fun _ _ _ _ => 0) (readCalls 0 [5, 5, 5])
        ⟨d.kernel, fun _ => 17⟩ = some (d', replies) ∧
      ∃ total : Nat, (replies.map Reply.ret).sum = total ∧
        (replies.map Reply.delivered).flatten = (d.kernel.commands.flatten.drop 17).take total := by
  obtain ⟨d, written, run, models⟩ := lines_run (fun _ _ _ _ => 0) 0 elevenLines elevenLines_whole
    (d := Driver.initial) aesdInitModule_models
  have reachable : Reachable d := ⟨_, _, written, run⟩
  have length : d.kernel.commands.flatten.length = 22 := by
    rw [models.commands]
    decide
  obtain ⟨d', replies, reads, ⟨total, sum, bytes, _⟩, _⟩ :=
    reads_drain (fun _ _ _ _ => 0) reachable (fun _ => 17) 0 17 rfl (by decide) [5, 5, 5]
  exact ⟨d, d', replies, reachable, length, reads, total, sum, bytes⟩

end Aesd
