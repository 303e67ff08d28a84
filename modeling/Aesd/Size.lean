import Aesd.Chunking

/-! The size that `aesd_llseek` works with. `buff_size` counts every committed byte and an
eviction does not take any back, so it is the size of the readable data exactly while no
command has been evicted. -/
namespace Aesd

variable {k : Kernel} {j : Journal} {d d' : Driver} {reply : Reply} {c : Call} {calls : List Call}
  {seek : Int → Int → Int → Int → Int}

def seekEnd : Int := 2

def seekTarget (fpos offset whence size : Int) : Option Int :=
  if whence = 0 then some offset
  else if whence = 1 then some (fpos + offset)
  else if whence = seekEnd then some (size + offset)
  else none

/-- What the driver relies on in `fixed_size_llseek`: it moves to a target from 0 to the
size, and returns a negative value for any other. -/
structure SizedSeek (seek : Int → Int → Int → Int → Int) : Prop where
  accepts : ∀ fpos offset whence size target, seekTarget fpos offset whence size = some target →
    0 ≤ target → target ≤ size → seek fpos offset whence size = target
  rejects : ∀ fpos offset whence size, 0 ≤ seek fpos offset whence size →
    seek fpos offset whence size ≤ size

/-- `fixed_size_llseek` as this driver's callers meet it. -/
def fixedSizeLlseek (fpos offset whence size : Int) : Int :=
  match seekTarget fpos offset whence size with
  | some target => if 0 ≤ target ∧ target ≤ size then target else -einval
  | none => -einval

theorem fixedSizeLlseek_sized : SizedSeek fixedSizeLlseek where
  accepts fpos offset whence size target leads nonneg le := by
    simp only [fixedSizeLlseek, leads, nonneg, le, and_self, if_true]
  rejects fpos offset whence size := by
    unfold fixedSizeLlseek einval
    split
    · split <;> omega
    · omega

/-- Every read at the position returns 0. -/
def ReadsNothing (k : Kernel) (p : Int) : Prop :=
  ∀ count, 0 < count → ∃ r, aesdRead .success true true count p k = some r ∧ r.ret = 0

/-- The first position where a read returns 0. -/
def EndOfData (k : Kernel) (p : Int) : Prop :=
  0 ≤ p ∧ ReadsNothing k p ∧ ∀ q, 0 ≤ q → q < p → ¬ReadsNothing k q

structure SizeLaw (seek : Int → Int → Int → Int → Int) (k : Kernel) : Prop where
  size : k.dev.buffSize = k.dev.buffer.sizes.sum
  toEnd : ∀ fpos, ∃ r, aesdLlseek seek true 0 seekEnd fpos k = some r ∧ r.ret = r.fpos ∧
    EndOfData k r.fpos
  within : ∀ offset whence fpos r, aesdLlseek seek true offset whence fpos k = some r →
    0 ≤ r.ret → ∀ p, EndOfData k p → r.fpos ≤ p

theorem Models.readsNothing_iff (models : Models k j) (p : Nat) (width : p < 2 ^ 64) :
    ReadsNothing k p ↔ j.content.length ≤ p := by
  have read : ∀ count, ∃ r, aesdRead .success true true count p k = some r ∧
      r.ret = (j.read .success true true count p).ret := by
    intro count
    obtain ⟨r, result, refines⟩ := aesdRead_refines models .success true true count p
    exact ⟨r, result, refines.ret⟩
  cases place : Locate.locate (j.live.map List.length) p with
  | none =>
    have beyond := (Locate.locate_none_length j.live p).mp place
    refine iff_of_true ?_ beyond
    intro count _
    obtain ⟨r, result, ret⟩ := read count
    refine ⟨r, result, ?_⟩
    rw [ret, Journal.read, sizeOfLoff_of_nonneg p width, place]
    rfl
  | some found =>
    obtain ⟨i, o⟩ := found
    have inside := (Locate.locate_none_length j.live p).not.mp (by simp [place])
    refine iff_of_false ?_ inside
    intro nothing
    obtain ⟨r, result, zero⟩ := nothing 1 (by decide)
    obtain ⟨r', result', ret⟩ := read 1
    obtain ⟨bound, small, _⟩ := Locate.drop_of_locate j.live p i o place
    rw [result, Option.some.injEq] at result'
    rw [← result', zero, Journal.read, sizeOfLoff_of_nonneg p width, place] at ret
    simp [ReadEnv.success, bound] at ret
    omega

theorem Models.endOfData_iff (models : Models k j) (p : Int) :
    EndOfData k p ↔ p = j.content.length := by
  have small := models.content_lt
  constructor
  · rintro ⟨nonneg, nothing, first⟩
    obtain ⟨p, rfl⟩ := Int.eq_ofNat_of_zero_le nonneg
    have le : p ≤ j.content.length := by
      by_contra beyond
      exact first j.content.length (by omega) (by omega)
        ((models.readsNothing_iff _ (by omega)).mpr (Nat.le_refl _))
    have ge := (models.readsNothing_iff p (by omega)).mp nothing
    omega
  · rintro rfl
    refine ⟨by omega, (models.readsNothing_iff _ (by omega)).mpr (Nat.le_refl _), ?_⟩
    intro q nonneg less nothing
    obtain ⟨q, rfl⟩ := Int.eq_ofNat_of_zero_le nonneg
    have := (models.readsNothing_iff q (by omega)).mp nothing
    omega

theorem Models.sizes_sum (models : Models k j) : k.dev.buffer.sizes.sum = j.content.length := by
  rw [models.sizes, Journal.content, List.length_flatten]

theorem Models.sizeLaw (models : Models k j) (kernel : SizedSeek seek)
    (kept : j.history.length ≤ 10) : SizeLaw seek k := by
  have small := models.content_lt
  have all : j.totalSize = j.content.length := by
    rw [Journal.totalSize, Journal.content, Journal.live, Nat.sub_eq_zero_of_le kept, List.drop_zero]
  have size : k.dev.buffSize = j.content.length := by
    rw [models.buffSize, all, sizeT_of_lt (by omega)]
  have offset : loffOfSize k.dev.buffSize = j.content.length := by
    rw [size, loffOfSize, if_pos small]
  have llseek : ∀ offset whence fpos, ∃ r, aesdLlseek seek true offset whence fpos k = some r ∧
      r.ret = seek fpos offset whence j.content.length ∧
      r.fpos = if r.ret < 0 then fpos else r.ret := by
    intro o whence fpos
    simp only [aesdLlseek, if_true, mutexLock, models.free, Bool.false_eq_true, if_false,
      Option.bind_eq_bind, Option.bind_some, offset]
    exact ⟨_, rfl, rfl, rfl⟩
  constructor
  · rw [size, models.sizes_sum]
  · intro fpos
    obtain ⟨r, result, ret, position⟩ := llseek 0 seekEnd fpos
    have target : seekTarget fpos 0 seekEnd j.content.length = some (j.content.length : Int) := by
      simp [seekTarget, seekEnd]
    rw [kernel.accepts _ _ _ _ _ target (by omega) (by omega)] at ret
    rw [if_neg (by omega)] at position
    refine ⟨r, result, position.symm, ?_⟩
    rw [position, ret]
    exact (models.endOfData_iff _).mpr rfl
  · intro o whence fpos r result success p ending
    obtain ⟨r', result', ret, position⟩ := llseek o whence fpos
    rw [result, Option.some.injEq] at result'
    subst result'
    rw [if_neg (by omega)] at position
    rw [position, (models.endOfData_iff p).mp ending, ret]
    exact kernel.rejects _ _ _ _ (ret ▸ success)

theorem Models.size_evicted (models : Models k j) (evicted : j.history.length = 11) :
    k.dev.buffSize ≠ k.dev.buffer.sizes.sum := by
  have small := models.content_lt
  rw [models.buffSize, models.sizes_sum]
  cases split : j.history with
  | nil => simp [split] at evicted
  | cons oldest rest =>
    obtain ⟨nonempty, bound⟩ := models.committed.commands oldest (by simp [split])
    have positive := List.length_pos_of_ne_nil nonempty
    have live : j.content = rest.flatten := by
      rw [Journal.content, Journal.live, evicted, split]
      rfl
    have total : j.totalSize = oldest.length + j.content.length := by
      rw [Journal.totalSize, split, List.flatten_cons, List.length_append, live]
    unfold kmallocMax at bound
    rw [total, sizeT_of_lt (by omega)]
    omega

theorem Models.count_step (models : Models d.kernel j) (kept : j.history.length ≤ 10)
    (step : perform seek c d = some (d', reply)) :
    ∃ j', Models d'.kernel j' ∧
      ((Evicts c d.kernel ∧ j'.history.length = 11) ∨
        (¬Evicts c d.kernel ∧ j'.history.length ≤ 10)) := by
  obtain ⟨r, result, refines⟩ := operate_refines models seek c (d.fpos c.file)
  rw [perform, result, Option.map_some, Option.some.injEq, Prod.mk.injEq] at step
  obtain ⟨rfl, _⟩ := step
  have full := models.full_iff
  refine ⟨_, refines.models, ?_⟩
  rcases models.history_step seek c (d.fpos c.file) with ⟨commits, line, history⟩ | ⟨none, history⟩
  · have length := congrArg List.length history
    rw [List.length_append, List.length_singleton] at length
    by_cases filled : 10 ≤ j.history.length
    · exact .inl ⟨⟨commits, full.mpr filled⟩, by omega⟩
    · exact .inr ⟨fun evicts => filled (full.mp evicts.2), by omega⟩
  · exact .inr ⟨fun evicts => none evicts.1, by rwa [history]⟩

/-- In a run from initialisation the size law holds at every point exactly when no write
of the run evicts a command. -/
theorem size_law_iff (kernel : SizedSeek seek) (calls : List Call) :
    Transition.Throughout (perform seek) calls Driver.initial (fun d _ => SizeLaw seek d.kernel) ↔
      Transition.Guarded (perform seek) (fun c d => ¬Evicts c d.kernel) calls Driver.initial := by
  have empty : Journal.empty.history.length ≤ 10 := Nat.zero_le 10
  obtain ⟨final, _, replies, run, _⟩ := run_total seek calls initial_represents
  apply Transition.throughout_iff (fun d => SizeLaw seek d.kernel)
    (fun d => ∃ j, Models d.kernel j ∧ (SizeLaw seek d.kernel → j.history.length ≤ 10)) ?_ run
    ⟨_, aesdInitModule_models, fun _ => empty⟩ (aesdInitModule_models.sizeLaw kernel empty)
  rintro c d next reply ⟨j, models, few⟩ law step
  obtain ⟨j', after, ⟨evicts, eleven⟩ | ⟨stays, kept⟩⟩ := models.count_step (few law) step
  · have broken : ¬SizeLaw seek next.kernel := fun law => after.size_evicted eleven law.size
    exact ⟨⟨j', after, fun law => absurd law broken⟩, iff_of_false broken (fun none => none evicts)⟩
  · exact ⟨⟨j', after, fun _ => kept⟩, iff_of_true (after.sizeLaw kernel kept) stays⟩

/-- After eleven lines the counter has the bytes of all of them, the ring those of ten. -/
theorem size_law_eleven :
    ∃ d replies, Transition.execute (perform fixedSizeLlseek) (elevenLines.map (writeLine 0))
        Driver.initial = some (d, replies) ∧
      d.kernel.dev.buffSize = 24 ∧ d.kernel.dev.buffer.sizes.sum = 22 ∧
      ¬SizeLaw fixedSizeLlseek d.kernel := by
  obtain ⟨d, replies, run, models⟩ := lines_run fixedSizeLlseek 0 elevenLines elevenLines_whole
    (d := Driver.initial) aesdInitModule_models
  have counter : d.kernel.dev.buffSize = 24 := by
    rw [models.buffSize]
    decide
  have total : d.kernel.dev.buffer.sizes.sum = 22 := by
    rw [models.sizes_sum]
    decide
  refine ⟨d, replies, run, counter, total, fun law => ?_⟩
  have same := law.size
  omega

theorem size_law_iff_eleven :
    Transition.Throughout (perform fixedSizeLlseek) (elevenLines.map (writeLine 0)) Driver.initial
        (fun d _ => SizeLaw fixedSizeLlseek d.kernel) ↔
      Transition.Guarded (perform fixedSizeLlseek) (fun c d => ¬Evicts c d.kernel)
        (elevenLines.map (writeLine 0)) Driver.initial :=
  size_law_iff fixedSizeLlseek_sized _

end Aesd
