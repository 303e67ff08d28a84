import Aesd.Chunking

/-! Writes that return an error. Each of their five ways to fail leaves the logical state
alone, except the refusal to enlarge a `write_buffer` that holds bytes: `write_buffer` is
already NULL when the refusal is noticed. -/
namespace Aesd

variable {env : WriteEnv} {chunk : List Byte} {k : Kernel} {j : Journal} {d d' : Driver}
  {filp : Bool} {buf : Option (List Byte)} {seek : Int → Int → Int → Int → Int}

structure Logical where
  commands : List (List Byte)
  pending : Option (List Byte)
  writeBufferSize : Nat
  buffSize : Nat
  deriving DecidableEq

def Kernel.logical (k : Kernel) : Logical :=
  ⟨k.commands, k.pending, k.dev.writeBufferSize, k.dev.buffSize⟩

/-- As if the call between the two states had not been made: nothing changed, and all
later calls return and leave behind the same. -/
structure Unchanged (d d' : Driver) : Prop where
  logical : d'.kernel.logical = d.kernel.logical
  fpos : d'.fpos = d.fpos
  later : ∀ seek calls, ∃ e e' replies,
    Transition.execute (perform seek) calls d = some (e, replies) ∧
    Transition.execute (perform seek) calls d' = some (e', replies) ∧
    e'.kernel.logical = e.kernel.logical ∧ e'.fpos = e.fpos

/-- The write reaches its `krealloc` of a `write_buffer` with pending bytes, and that is
refused. -/
def LosesLine (env : WriteEnv) (filp : Bool) (buf : Option (List Byte)) (k : Kernel) : Prop :=
  ∃ chunk, Journal.Assembles env filp buf chunk ∧ k.dev.writeBufferSize ≠ 0 ∧
    k.dev.writeBuffer ≠ none ∧ ¬(env.buffer.ok = true ∧ k.request chunk ≤ kmallocMax)

theorem Models.logical (models : Models k j) :
    k.logical = ⟨j.live, j.pending.bytes, j.pending.size, sizeT j.totalSize⟩ := by
  rw [Kernel.logical, models.commands, models.pending, models.writeBufferSize, models.buffSize]

theorem Represents.unchanged {l : Ledger} (before : Represents d l) (after : Represents d' l) :
    Unchanged d d' where
  logical := by rw [before.models.logical, after.models.logical]
  fpos := by rw [before.fpos, after.fpos]
  later seek calls := by
    obtain ⟨e, m, replies, run, abstract, last⟩ := run_total seek calls before
    obtain ⟨e', m', replies', run', abstract', last'⟩ := run_total seek calls after
    rw [abstract, Option.some.injEq, Prod.mk.injEq] at abstract'
    obtain ⟨rfl, rfl⟩ := abstract'
    exact ⟨e, e', replies, run, run', by rw [last.models.logical, last'.models.logical],
      by rw [last.fpos, last'.fpos]⟩

/-- Forgetting the pending bytes loses some exactly when there are some and the buffer with
them exists. -/
theorem Models.forget (models : Models k j) :
    (k.dev.writeBufferSize ≠ 0 ∧ k.dev.writeBuffer ≠ none ∧
        j.pending.forget.bytes ≠ j.pending.bytes) ∨
      (¬(k.dev.writeBufferSize ≠ 0 ∧ k.dev.writeBuffer ≠ none) ∧ j.pending.forget = j.pending) := by
  have assembled := models.assembled
  cases kind : j.pending with
  | held bytes =>
    rw [kind] at assembled
    obtain ⟨size, held⟩ := assembled
    by_cases empty : bytes = []
    · right
      rw [empty] at size ⊢
      exact ⟨fun pending => pending.1 size, rfl⟩
    · left
      obtain ⟨w, points, _⟩ := held empty
      have positive : bytes.length ≠ 0 := by simpa using empty
      refine ⟨by omega, by simp [points], ?_⟩
      simp [Pending.forget, Pending.size, empty, Pending.bytes]
  | lost count =>
    rw [kind] at assembled
    obtain ⟨positive, _, _, points⟩ := assembled
    right
    refine ⟨fun pending => pending.2 points, ?_⟩
    rw [Pending.forget, Pending.size, if_neg (by omega)]

/-- An error leaves the journal and the position, except for the pending bytes that a
refused `krealloc` forgets. -/
theorem Models.write_failed (models : Models k j) (fpos : Int)
    (failed : (j.write env filp buf fpos).ret < 0) :
    (j.write env filp buf fpos).fpos = fpos ∧
    ((LosesLine env filp buf k ∧
        (j.write env filp buf fpos).journal.pending.bytes ≠ j.pending.bytes) ∨
      (¬LosesLine env filp buf k ∧ (j.write env filp buf fpos).journal = j)) := by
  rcases j.write_cases env filp buf fpos with ⟨_, _, unreached, result⟩ |
    ⟨chunk, reaches, ⟨refused, result⟩ | ⟨_, result⟩⟩
  · rw [result]
    exact ⟨rfl, .inr ⟨fun ⟨chunk, reaches, _⟩ => unreached chunk reaches, rfl⟩⟩
  · rw [result]
    refine ⟨rfl, ?_⟩
    rcases models.forget with ⟨size, buffer, forgotten⟩ | ⟨nothing, same⟩
    · refine .inl ⟨⟨chunk, reaches, size, buffer, ?_⟩, forgotten⟩
      rwa [models.request]
    · exact .inr ⟨fun ⟨_, _, size, buffer, _⟩ => nothing ⟨size, buffer⟩, by rw [same]⟩
  · rw [result] at failed
    simp only at failed
    omega

/-- A failed write leaves no trace exactly when it is not the refusal to enlarge a
`write_buffer` that holds bytes. -/
theorem failed_write_iff (reachable : Reachable d)
    (step : perform seek (.write file env filp buf) d = some (d', reply)) (failed : reply.ret < 0) :
    Unchanged d d' ↔ ¬LosesLine env filp buf d.kernel := by
  obtain ⟨l, before⟩ := reachable.represents
  obtain ⟨e, m, reply', result, abstract, after⟩ := perform_refines seek (.write file env filp buf) before
  rw [step, Option.some.injEq, Prod.mk.injEq] at result
  obtain ⟨rfl, rfl⟩ := result
  simp only [Ledger.perform, Call.file, Journal.operate, Option.some.injEq, Prod.mk.injEq] at abstract
  obtain ⟨rfl, rfl⟩ := abstract
  obtain ⟨position, lost | clean⟩ := before.models.write_failed (l.fpos file) failed
  · refine iff_of_false (fun unchanged => ?_) (fun clean => clean lost.1)
    have same := congrArg Logical.pending unchanged.logical
    rw [after.models.logical, before.models.logical] at same
    exact lost.2 same
  · refine iff_of_true ?_ clean.1
    have stays : setFpos l.fpos file (l.journal.write env filp buf (l.fpos file)).fpos = l.fpos := by
      funext other
      by_cases same : other = file
      · rw [same, setFpos_same, position]
      · rw [setFpos_other same]
    rw [clean.2, stays] at after
    exact before.unchanged after

def WriteEnv.refused : WriteEnv := { WriteEnv.success with buffer := ⟨false, 0, fun _ => 0⟩ }

theorem pending_refused :
    ∃ d d' reply, Reachable d ∧
      perform (fun _ _ _ _ => 0) (.write 0 .refused true (some [99])) d = some (d', reply) ∧
      reply.ret = -enomem ∧ d.kernel.pending = some [97, 98] ∧ d'.kernel.pending = none := by
  obtain ⟨d, l, replies, run, abstract, represents⟩ :=
    run_total (fun _ _ _ _ => 0) [writeLine 0 [97, 98]] initial_represents
  have journal : l.journal = ⟨[], .held [97, 98]⟩ := by
    have same := congrArg (Option.map fun final => final.1.journal) abstract
    exact (Option.some.inj same).symm
  obtain ⟨d', l', reply, step, abstract', after⟩ :=
    perform_refines (fun _ _ _ _ => 0) (.write 0 .refused true (some [99])) represents
  have outcome : l.journal.write .refused true (some [99]) (l.fpos 0) =
      ⟨-enomem, l.fpos 0, [], ⟨[], .lost 2⟩⟩ := by
    rw [journal]
    rfl
  simp only [Ledger.perform, Call.file, Journal.operate, outcome, Option.some.injEq,
    Prod.mk.injEq] at abstract'
  obtain ⟨rfl, rfl⟩ := abstract'
  refine ⟨d, d', _, ⟨_, _, replies, run⟩, step, rfl, ?_, ?_⟩
  · rw [represents.models.pending, journal]
    rfl
  · rw [after.models.pending]
    rfl

theorem failed_write_loses_line :
    ∃ d d' reply, Reachable d ∧
      perform (fun _ _ _ _ => 0) (.write 0 .refused true (some [99])) d = some (d', reply) ∧
      reply.ret < 0 ∧ ¬Unchanged d d' := by
  obtain ⟨d, d', reply, reachable, step, ret, before, after⟩ := pending_refused
  refine ⟨d, d', reply, reachable, step, by rw [ret]; decide, fun unchanged => ?_⟩
  have same := congrArg Logical.pending unchanged.logical
  simp only [Kernel.logical, before, after] at same
  cases same

theorem failed_write_iff_refused :
    ∃ d d' reply, Reachable d ∧
      perform (fun _ _ _ _ => 0) (.write 0 .refused true (some [99])) d = some (d', reply) ∧
      (Unchanged d d' ↔ ¬LosesLine .refused true (some [99]) d.kernel) := by
  obtain ⟨d, d', reply, reachable, step, ret, _⟩ := pending_refused
  exact ⟨d, d', reply, reachable, step, failed_write_iff reachable step (by rw [ret]; decide)⟩

end Aesd
