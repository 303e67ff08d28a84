import Aesd.DeviceRefinement

/-! Feeding a byte stream to the device in pieces. The journal takes the bytes as
`Delimited.assemble` does, so what the device holds depends on the bytes alone. -/
namespace Aesd

variable {env : WriteEnv} {chunk stream remaining : List Byte} {k k' : Kernel} {j j' : Journal}

def Kernel.request (k : Kernel) (chunk : List Byte) : Nat :=
  if k.dev.writeBufferSize = 0 then chunk.length else appendIndex chunk + k.dev.writeBufferSize

structure Succeeds (env : WriteEnv) (k : Kernel) (chunk : List Byte) : Prop where
  data : env.data.ok = true
  dataSize : chunk.length ≤ kmallocMax
  copied : env.copied = true
  locked : env.locked = true
  buffer : env.buffer.ok = true
  bufferSize : k.request chunk ≤ kmallocMax

/-- The bytes that the device took between two states: what the line being assembled
gained, whether it is still pending or now the newest command. -/
def Kernel.consumed (k k' : Kernel) : List Byte :=
  let line :=
    if k'.dev.buffer.inOffs = k.dev.buffer.inOffs then k'.pending.getD []
    else k'.commands.getLast?.getD []
  line.drop k.dev.writeBufferSize

/-- The command that a step committed, if any: the ring's `in_offs` moved on. -/
def Kernel.committed (k k' : Kernel) : List (List Byte) :=
  if k'.dev.buffer.inOffs = k.dev.buffer.inOffs then [] else k'.commands.getLast?.toList

def lastTen (commands : List (List Byte)) : List (List Byte) := commands.drop (commands.length - 10)

theorem Models.request (models : Models k j) (chunk : List Byte) :
    k.request chunk = j.request chunk := by
  simp only [Kernel.request, Journal.request, models.writeBufferSize]

theorem Succeeds.write (ok : Succeeds env k chunk) (models : Models k j) (fpos : Int) :
    j.write env true (some chunk) fpos =
      ⟨appendIndex chunk, fpos + appendIndex chunk, [], j.accept env.buffer.fill chunk⟩ := by
  have size := ok.bufferSize
  rw [models.request] at size
  simp only [Journal.write, ok.data, ok.dataSize, ok.copied, ok.locked, ok.buffer, size, and_self,
    not_true_eq_false, if_false]

theorem Journal.live_concat (history : List (List Byte)) (line : List Byte) (pending : Pending) :
    (Journal.live ⟨history ++ [line], pending⟩).getLast? = some line := by
  simp only [Journal.live, List.length_append, List.length_singleton]
  rw [List.drop_append_of_le_length (by omega), List.getLast?_concat]

/-- Between a state and one that models the next journal, exactly the accepted part of the
chunk was consumed. -/
theorem Models.consumed (before : Models k j)
    (after : Models k' (j.accept fill chunk)) :
    k.consumed k' = Delimited.cut newline chunk := by
  have size := before.writeBufferSize
  have position := before.committed.ring.inOffs
  have position' := after.committed.ring.inOffs
  have held : (j.pending.base fill ++ Delimited.cut newline chunk).drop k.dev.writeBufferSize =
      Delimited.cut newline chunk := by
    rw [size, ← Pending.base_length fill]
    exact List.drop_left
  by_cases ends : newline ∈ chunk
  · have moved : k'.dev.buffer.inOffs ≠ k.dev.buffer.inOffs := by
      simp only [Journal.accept, if_pos ends, List.length_append, List.length_singleton] at position'
      omega
    rw [Kernel.consumed, if_neg moved, after.commands]
    simp only [Journal.accept, if_pos ends, Journal.live_concat, Option.getD_some]
    exact held
  · have stayed : k'.dev.buffer.inOffs = k.dev.buffer.inOffs := by
      simp only [Journal.accept, if_neg ends] at position'
      omega
    rw [Kernel.consumed, if_pos stayed, after.pending]
    simp only [Journal.accept, if_neg ends]
    exact held

theorem Models.committed_nothing (before : Models k j) (after : Models k' j')
    (same : j'.history = j.history) : k.committed k' = [] := by
  rw [Kernel.committed, if_pos]
  rw [after.committed.ring.inOffs, before.committed.ring.inOffs, same]

theorem Models.committed_line (before : Models k j) (after : Models k' j')
    (longer : j'.history = j.history ++ [line]) : k.committed k' = [line] := by
  have moved : k'.dev.buffer.inOffs ≠ k.dev.buffer.inOffs := by
    rw [after.committed.ring.inOffs, before.committed.ring.inOffs, longer, List.length_append,
      List.length_singleton]
    omega
  obtain ⟨history, pending⟩ := j'
  subst longer
  rw [Kernel.committed, if_neg moved, after.commands, Journal.live_concat]
  rfl

theorem Models.committed_accept (before : Models k j) (after : Models k' (j.accept fill chunk)) :
    (j.accept fill chunk).history = j.history ++ k.committed k' := by
  by_cases ends : newline ∈ chunk
  · have longer : (j.accept fill chunk).history =
        j.history ++ [j.pending.base fill ++ Delimited.cut newline chunk] := by
      simp only [Journal.accept, if_pos ends]
    rw [longer, before.committed_line after longer]
  · have same : (j.accept fill chunk).history = j.history := by
      simp only [Journal.accept, if_neg ends]
    rw [same, before.committed_nothing after same, List.append_nil]

/-- A write for which everything succeeds takes the chunk up to its first newline. -/
theorem aesdWrite_accepts (models : Models k j) (ok : Succeeds env k chunk) (fpos : Int) :
    ∃ k', aesdWrite env true (some chunk) fpos k =
        some ⟨appendIndex chunk, fpos + appendIndex chunk, [], k'⟩ ∧
      Models k' (j.accept env.buffer.fill chunk) ∧ k.consumed k' = Delimited.cut newline chunk := by
  obtain ⟨⟨ret, position, delivered, k'⟩, result, refines⟩ :=
    aesdWrite_refines models env true (some chunk) fpos
  rw [ok.write models fpos] at refines
  obtain ⟨rfl, rfl, rfl, after⟩ := refines
  exact ⟨k', result, after, models.consumed after⟩

theorem appendIndex_pos (nonempty : chunk ≠ []) : 0 < appendIndex chunk := by
  rw [appendIndex_eq]
  exact Delimited.cut_length_pos chunk nonempty

/-- A journal that holds its pending bytes, as an assembly of lines. -/
def Journal.ofAssembly (s : Delimited.Assembly Byte) : Journal := ⟨s.done, .held s.rest⟩

theorem Journal.accept_feed (s : Delimited.Assembly Byte) (fill : Nat → Byte) (chunk : List Byte) :
    (Journal.ofAssembly s).accept fill chunk =
      Journal.ofAssembly (s.feed newline (Delimited.cut newline chunk)) := by
  by_cases ends : newline ∈ chunk
  · obtain ⟨body, clear, equal⟩ := Delimited.cut_of_mem chunk ends
    rw [equal, Delimited.feed_closed s body clear, ← equal]
    simp only [Journal.accept, if_pos ends, Journal.ofAssembly, Pending.base]
  · rw [Delimited.feed_open s _ (by simpa using ends)]
    simp only [Journal.accept, if_neg ends, Journal.ofAssembly, Pending.base]

def Commits (c : Call) (k : Kernel) : Prop :=
  ∃ file env chunk, c = .write file env true (some chunk) ∧ Succeeds env k chunk ∧ newline ∈ chunk

theorem not_commits {c : Call} (other : ∀ file env chunk, c ≠ .write file env true (some chunk)) :
    ¬Commits c k := by
  rintro ⟨file, env, chunk, same, _⟩
  exact other file env chunk same

def Evicts (c : Call) (k : Kernel) : Prop := Commits c k ∧ k.dev.buffer.full = true

theorem Models.full_iff (models : Models k j) :
    k.dev.buffer.full = true ↔ 10 ≤ j.history.length := by
  rw [models.committed.ring.full, decide_eq_true_iff]

/-- Only a committing write changes the history, by one command. -/
theorem Models.history_step (models : Models k j) (seek : Int → Int → Int → Int → Int) (c : Call)
    (fpos : Int) :
    (Commits c k ∧ ∃ line, (j.operate seek c fpos).journal.history = j.history ++ [line]) ∨
    (¬Commits c k ∧ (j.operate seek c fpos).journal.history = j.history) := by
  cases c with
  | write file env filp buf =>
    rw [Journal.operate]
    rcases j.write_cases env filp buf fpos with ⟨_, _, unreached, result⟩ |
      ⟨chunk, reaches, ⟨refused, result⟩ | ⟨granted, result⟩⟩
    · refine .inr ⟨?_, by rw [result]⟩
      rintro ⟨_, _, chunk, same, ok, _⟩
      cases same
      exact unreached chunk ⟨rfl, rfl, ok.data, ok.dataSize, ok.copied, ok.locked⟩
    · refine .inr ⟨?_, by rw [result]⟩
      rintro ⟨_, _, _, same, ok, _⟩
      cases same
      cases reaches.buf
      exact refused ⟨ok.buffer, by rw [← models.request]; exact ok.bufferSize⟩
    · obtain ⟨rfl, rfl, data, dataSize, copied, locked⟩ := reaches
      have ok : Succeeds env k chunk :=
        ⟨data, dataSize, copied, locked, granted.1, by rw [models.request]; exact granted.2⟩
      by_cases ends : newline ∈ chunk
      · refine .inl ⟨⟨file, env, chunk, rfl, ok, ends⟩,
          j.pending.base env.buffer.fill ++ Delimited.cut newline chunk, ?_⟩
        rw [result, Journal.accept, if_pos ends]
      · refine .inr ⟨?_, ?_⟩
        · rintro ⟨_, _, _, same, _, member⟩
          cases same
          exact ends member
        · simp [result, Journal.accept, ends]
  | read file env filp buf count =>
    refine .inr ⟨not_commits (by rintro _ _ _ ⟨⟩), ?_⟩
    simp only [Journal.operate, Journal.read]
    repeat' split
    all_goals rfl
  | llseek file locked offset whence =>
    refine .inr ⟨not_commits (by rintro _ _ _ ⟨⟩), ?_⟩
    simp only [Journal.operate, Journal.llseek]
    split <;> rfl
  | ioctl file env cmd arg =>
    refine .inr ⟨not_commits (by rintro _ _ _ ⟨⟩), ?_⟩
    simp only [Journal.operate, Journal.ioctl, Journal.adjust]
    repeat' split
    all_goals rfl

def writeLine (file : Nat) (line : List Byte) : Call := .write file .success true (some line)

theorem Models.succeeds_of_room (models : Models k j)
    (room : j.pending.size + chunk.length ≤ kmallocMax) : Succeeds .success k chunk where
  data := rfl
  dataSize := Nat.le_trans (Nat.le_add_left _ _) room
  copied := rfl
  locked := rfl
  buffer := rfl
  bufferSize := by
    have cut := appendIndex_le chunk
    rw [models.request, Journal.request]
    split <;> omega

theorem Models.succeeds (models : Models k ⟨history, .held []⟩) (small : chunk.length ≤ kmallocMax) :
    Succeeds .success k chunk :=
  models.succeeds_of_room (by simpa [Pending.size] using small)

theorem lines_run (seek : Int → Int → Int → Int → Int) (file : Nat) (lines : List (List Byte))
    (whole : ∀ line ∈ lines, Delimited.Segment newline line ∧ line.length ≤ kmallocMax)
    {d : Driver} (models : Models d.kernel ⟨history, .held []⟩) :
    ∃ d' replies, Transition.execute (perform seek) (lines.map (writeLine file)) d =
        some (d', replies) ∧ Models d'.kernel ⟨history ++ lines, .held []⟩ := by
  induction lines generalizing d history with
  | nil => exact ⟨d, [], rfl, by simpa using models⟩
  | cons line lines ih =>
    obtain ⟨segment, small⟩ := whole line (by simp)
    obtain ⟨k', result, after, _⟩ :=
      aesdWrite_accepts models (models.succeeds small) (d.fpos file)
    have ends : newline ∈ line := by
      obtain ⟨body, _, rfl⟩ := segment
      simp
    simp only [Journal.accept, if_pos ends, Pending.base, List.nil_append,
      Delimited.cut_segment line segment] at after
    let next : Driver := ⟨k', setFpos d.fpos file (d.fpos file + appendIndex line)⟩
    have step : perform seek (writeLine file line) d = some (next, ⟨appendIndex line, []⟩) := by
      simp only [perform, writeLine, Call.operate, Call.file, result, Option.map_some, next]
    obtain ⟨d', replies, run, last⟩ := ih (fun other member => whole other (by simp [member]))
      (show Models next.kernel _ from after)
    refine ⟨d', _, Transition.execute_cons_iff.mpr ⟨next, _, replies, step, run, rfl⟩, ?_⟩
    simpa using last

/-- Ten lines of two bytes and a longer one, which lands in slot 0. -/
def elevenLines : List (List Byte) := List.replicate 10 [97, 10] ++ [[98, 98, 98, 10]]

theorem elevenLines_whole :
    ∀ line ∈ elevenLines, Delimited.Segment newline line ∧ line.length ≤ kmallocMax := by
  intro line member
  rcases List.mem_append.mp member with old | new
  · rw [List.eq_of_mem_replicate old]
    exact ⟨⟨[97], by decide, rfl⟩, by decide⟩
  · rw [List.mem_singleton.mp new]
    exact ⟨⟨[98, 98, 98], by decide, rfl⟩, by decide⟩

/-- A caller that submits `stream` to a fresh device, each time any first part of what
remains, and resubmits what the driver did not take. `calls` counts the submissions of at
least one byte. -/
inductive Feeding (stream : List Byte) : Nat → List Byte → Kernel → Prop
  | start : Feeding stream 0 stream aesdInitModule
  | submit {calls : Nat} {chunk rest : List Byte} {k : Kernel} {r : Return}
      (fed : Feeding stream calls (chunk ++ rest) k) (env : WriteEnv)
      (ok : Succeeds env k chunk) (fpos : Int)
      (wrote : aesdWrite env true (some chunk) fpos k = some r) :
      Feeding stream (if chunk = [] then calls else calls + 1)
        (chunk.drop r.ret.toNat ++ rest) r.kernel

/-- The device is the assembly of the bytes taken, and each submission takes some. -/
theorem Feeding.invariant (feeding : Feeding stream calls remaining k) :
    ∃ taken, stream = taken ++ remaining ∧ calls ≤ taken.length ∧
      Models k (.ofAssembly (Delimited.assemble newline taken)) := by
  induction feeding with
  | start => exact ⟨[], rfl, Nat.le_refl 0, aesdInitModule_models⟩
  | @submit calls chunk rest k r fed env ok fpos wrote ih =>
    obtain ⟨taken, whole, counted, models⟩ := ih
    obtain ⟨k', result, after, _⟩ := aesdWrite_accepts models ok fpos
    rw [wrote, Option.some.injEq] at result
    subst result
    rw [Journal.accept_feed, ← Delimited.assemble_append] at after
    have cut := take_appendIndex chunk
    refine ⟨taken ++ Delimited.cut newline chunk, ?_, ?_, after⟩
    · rw [whole, ← cut, Int.toNat_natCast, List.append_assoc, ← List.append_assoc (chunk.take _),
        List.take_append_drop]
    · rw [List.length_append, ← appendIndex_eq]
      split
      · omega
      · rename_i nonempty
        have := appendIndex_pos nonempty
        omega

/-- Only the bytes taken so far decide what the device holds, every submission returns
how many of its bytes were taken, and the resubmission ends. -/
theorem feeding_independent (feeding : Feeding stream calls remaining k) :
    (∃ taken, stream = taken ++ remaining ∧ calls ≤ taken.length ∧
      k.commands = lastTen (Delimited.assemble newline taken).done ∧
      k.pending = some (Delimited.assemble newline taken).rest) ∧
    ∀ chunk rest env fpos, remaining = chunk ++ rest → Succeeds env k chunk →
      ∃ r, aesdWrite env true (some chunk) fpos k = some r ∧
        (chunk ≠ [] → 1 ≤ r.ret) ∧ 0 ≤ r.ret ∧ r.ret ≤ chunk.length ∧
        k.consumed r.kernel = chunk.take r.ret.toNat := by
  obtain ⟨taken, whole, counted, models⟩ := feeding.invariant
  refine ⟨⟨taken, whole, counted, models.commands, models.pending⟩, ?_⟩
  intro chunk rest env fpos _ ok
  obtain ⟨k', result, _, consumed⟩ := aesdWrite_accepts models ok fpos
  have bound := appendIndex_le chunk
  refine ⟨_, result, ?_, by simp, by simpa using bound, ?_⟩
  · intro nonempty
    have := appendIndex_pos nonempty
    simp only
    omega
  · rw [consumed, Int.toNat_natCast, take_appendIndex]

/-- Of "a\nbc" the caller submits "a\nb", of which the driver leaves "b", and then "b" again: one
line is committed, and one is begun. -/
theorem feeding_independent_pieces :
    ∃ k, Feeding [97, 10, 98, 99] 2 [99] k ∧ k.commands = [[97, 10]] ∧ k.pending = some [98] := by
  have fed : Feeding [97, 10, 98, 99] 0 ([97, 10, 98] ++ [99]) aesdInitModule := .start
  have ok : Succeeds .success aesdInitModule [97, 10, 98] :=
    aesdInitModule_models.succeeds (by decide)
  obtain ⟨k, wrote, models, _⟩ := aesdWrite_accepts aesdInitModule_models ok 0
  have again : Feeding [97, 10, 98, 99] 1 ([98] ++ [99]) k := .submit fed .success ok 0 wrote
  have models : Models k ⟨[[97, 10]], .held []⟩ := models
  have ok' : Succeeds .success k [98] := models.succeeds (by decide)
  obtain ⟨r, wrote', _⟩ := (feeding_independent again).2 [98] [99] .success 2 rfl ok'
  obtain ⟨k', result, _⟩ := aesdWrite_accepts models ok' 2
  rw [wrote', Option.some.injEq] at result
  subst result
  have last : Feeding [97, 10, 98, 99] 2 [99] k' := .submit again .success ok' 2 wrote'
  obtain ⟨taken, whole, _, commands, pending⟩ := (feeding_independent last).1
  have whole : [97, 10, 98] ++ [99] = taken ++ [99] := whole
  obtain rfl : taken = [97, 10, 98] := (List.append_cancel_right whole).symm
  exact ⟨k', last, commands, pending⟩

end Aesd
