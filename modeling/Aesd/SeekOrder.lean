import Aesd.Drain
import Aesd.Seek
import Aesd.Size
import Mathlib.Data.List.Rotate

/-! The targets of the seek ioctl. Whatever the ring's position, the accepted pairs are
numbered by the sizes of the physical slots, and reach each readable position once. -/
namespace Aesd

variable {k : Kernel} {j : Journal} {d : Driver} {b : CircularBuffer}

def SeeksTo (k : Kernel) (seekto : Seekto) (q : Int) : Prop :=
  ∀ fpos, aesdAdjustFileOffset true seekto fpos k = some ⟨0, q, [], k⟩

def Rejects (k : Kernel) (seekto : Seekto) : Prop :=
  ∀ fpos, aesdAdjustFileOffset true seekto fpos k = some ⟨-einval, fpos, [], k⟩

/-- A read there, with room for a byte, returns one at least. -/
def Readable (k : Kernel) (p : Int) : Prop :=
  ∀ count, 0 < count → ∃ r, aesdRead .success true true count p k = some r ∧ 1 ≤ r.ret

def Seekto.pair (seekto : Seekto) : Nat × Nat :=
  (seekto.writeCmd.toNat, seekto.writeCmdOffset.toNat)

def slotList (b : CircularBuffer) : List Nat := (List.range 10).map fun i => (b.get i).size

@[simp] theorem slotList_length (b : CircularBuffer) : (slotList b).length = 10 := by
  simp [slotList]

theorem slotList_getElem (b : CircularBuffer) (i : Nat) (bound : i < (slotList b).length) :
    (slotList b)[i] = (b.get i).size := by simp [slotList]

theorem slotSizes_eq (b : CircularBuffer) (n : Nat) (bound : n ≤ 10) :
    slotSizes b n = ((slotList b).take n).sum := by
  induction n with
  | zero => rfl
  | succ n ih =>
    have inside : n < (slotList b).length := by
      rw [slotList_length]
      omega
    rw [slotSizes, ih (by omega), List.sum_take_succ _ n inside, slotList_getElem]

/-- An accepted pair names a byte of a slot, as a place in the sizes of the slots. -/
theorem Models.seeksTo (models : Models k j)
    (place : Locate.locate (slotList k.dev.buffer) q = some seekto.pair) : SeeksTo k seekto q := by
  obtain ⟨bound, start, inside⟩ := (Locate.locate_eq_some_iff ..).mp place
  rw [slotList_getElem] at inside
  rw [slotList_length] at bound
  have slot : ¬maxWriteOperations ≤ seekto.writeCmd.toNat := Nat.not_le_of_lt bound
  have position : (Aesd.slotSizes k.dev.buffer seekto.writeCmd.toNat + seekto.writeCmdOffset.toNat : Int) =
      q := by
    rw [slotSizes_eq _ _ (Nat.le_of_lt bound), ← Int.natCast_add]
    exact congrArg Int.ofNat start
  intro fpos
  simp only [aesdAdjustFileOffset, if_true, mutexLock, models.free, Bool.false_eq_true, if_false,
    Option.bind_eq_bind, Option.bind_some, if_neg slot, if_neg (Nat.not_le_of_lt inside), position,
    models.relock]

theorem Models.rejects (models : Models k j) (seekto : Seekto)
    (outside : seekto.writeCmd.toNat < 10 →
      (k.dev.buffer.get seekto.writeCmd.toNat).size ≤ seekto.writeCmdOffset.toNat) :
    Rejects k seekto := by
  intro fpos
  by_cases slot : maxWriteOperations ≤ seekto.writeCmd.toNat
  · simp only [aesdAdjustFileOffset, if_true, mutexLock, models.free, Bool.false_eq_true, if_false,
      Option.bind_eq_bind, Option.bind_some, if_pos slot, models.relock]
  · have beyond := outside (Nat.lt_of_not_le slot)
    simp only [aesdAdjustFileOffset, if_true, mutexLock, models.free, Bool.false_eq_true, if_false,
      Option.bind_eq_bind, Option.bind_some, if_neg slot, if_pos beyond, models.relock]

theorem Models.seek_cases (models : Models k j) (seekto : Seekto) :
    (∃ q : Nat, Locate.locate (slotList k.dev.buffer) q = some seekto.pair ∧ SeeksTo k seekto q) ∨
      Rejects k seekto := by
  by_cases inside : seekto.writeCmd.toNat < 10 ∧
      seekto.writeCmdOffset.toNat < (k.dev.buffer.get seekto.writeCmd.toNat).size
  · left
    have bound : seekto.writeCmd.toNat < (slotList k.dev.buffer).length := by
      rw [slotList_length]
      exact inside.1
    have place := Locate.locate_start (slotList k.dev.buffer) seekto.writeCmd.toNat
      seekto.writeCmdOffset.toNat bound (by rw [slotList_getElem]; exact inside.2)
    exact ⟨_, place, models.seeksTo place⟩
  · right
    apply models.rejects
    intro slot
    by_contra accepted
    exact inside ⟨slot, Nat.lt_of_not_le accepted⟩

theorem SeeksTo.unique (target : SeeksTo k seekto q) (target' : SeeksTo k seekto q') : q = q' := by
  have same := target 0
  rw [target' 0] at same
  simp only [Option.some.injEq, Return.mk.injEq] at same
  exact same.2.1.symm

theorem Models.seeksTo_iff (models : Models k j) (seekto : Seekto) (q : Int) :
    SeeksTo k seekto q ↔
      ∃ p : Nat, q = p ∧ Locate.locate (slotList k.dev.buffer) p = some seekto.pair := by
  constructor
  · intro target
    rcases models.seek_cases seekto with ⟨p, place, reached⟩ | rejects
    · exact ⟨p, target.unique reached, place⟩
    · have failed := rejects 0
      rw [target 0] at failed
      simp [einval] at failed
  · rintro ⟨p, rfl, place⟩
    exact models.seeksTo place

/-- The slots in physical order and the live entries have the same total size: the order of
the live entries is a rotation, and the other slots are empty. -/
theorem Models.slotList_sum (models : Models k j) :
    (slotList k.dev.buffer).sum = k.dev.buffer.sizes.sum := by
  have ring := models.committed.ring
  have count := ring.count
  by_cases full : 10 ≤ j.history.length
  · have turned : k.dev.buffer.sizes = (slotList k.dev.buffer).rotate k.dev.buffer.outOffs := by
      apply List.ext_getElem
      · simp
        omega
      · intro i bound bound'
        rw [CircularBuffer.sizes_getElem, List.getElem_rotate, slotList_getElem, slotList_length,
          Nat.add_comm]
    rw [turned]
    exact ((List.rotate_perm _ _).sum_eq).symm
  · have start : k.dev.buffer.outOffs = 0 := by rw [ring.outOffs, if_neg full]
    have first : k.dev.buffer.sizes = (slotList k.dev.buffer).take j.history.length := by
      apply List.ext_getElem
      · simp
        omega
      · intro i bound bound'
        have below : i < 10 := by
          rw [CircularBuffer.sizes_length] at bound
          omega
        rw [CircularBuffer.sizes_getElem, List.getElem_take, slotList_getElem, start, Nat.zero_add,
          Nat.mod_eq_of_lt below]
    have rest : ((slotList k.dev.buffer).drop j.history.length).sum = 0 := by
      apply List.sum_eq_zero
      intro size member
      obtain ⟨i, bound, rfl⟩ := List.mem_iff_getElem.mp member
      rw [List.getElem_drop, slotList_getElem, ring.unused _ (by omega)]
      rfl
    have split := congrArg List.sum (List.take_append_drop j.history.length (slotList k.dev.buffer))
    rw [List.sum_append] at split
    rw [first]
    omega

theorem Models.readable_iff (models : Models k j) (p : Int) (low : -2 ^ 63 ≤ p) (high : p < 2 ^ 63) :
    Readable k p ↔ 0 ≤ p ∧ p < k.dev.buffer.sizes.sum := by
  have small := models.content_lt
  rw [models.sizes_sum]
  by_cases nonneg : 0 ≤ p
  · obtain ⟨p, rfl⟩ := Int.eq_ofNat_of_zero_le nonneg
    have read : ∀ count, ∃ bytes, (0 < count → (bytes = [] ↔ j.content.length ≤ p)) ∧
        ∃ r, aesdRead .success true true count p k = some r ∧ r.ret = (bytes : List Byte).length := by
      intro count
      obtain ⟨bytes, _, _, ended, outcome⟩ := j.read_success count p (by omega)
      obtain ⟨r, result, refines⟩ := aesdRead_refines models .success true true count p
      rw [outcome] at refines
      exact ⟨bytes, ended, r, result, refines.ret⟩
    constructor
    · intro readable
      obtain ⟨r, result, positive⟩ := readable 1 (by decide)
      obtain ⟨bytes, ended, r', result', ret⟩ := read 1
      rw [result, Option.some.injEq] at result'
      subst result'
      have some : bytes ≠ [] := by
        rintro rfl
        rw [ret] at positive
        simp at positive
      have inside := (ended (by decide)).not.mp some
      omega
    · rintro ⟨_, inside⟩ count positive
      obtain ⟨bytes, ended, r, result, ret⟩ := read count
      have some := (ended positive).not.mpr (by omega)
      have length := List.length_pos_of_ne_nil some
      exact ⟨r, result, by omega⟩
  · refine iff_of_false ?_ (fun inside => nonneg inside.1)
    intro readable
    obtain ⟨r, result, positive⟩ := readable 1 (by decide)
    have far : sizeOfLoff p = (p + 2 ^ 64).toNat := by
      unfold sizeOfLoff
      omega
    have none := (Locate.locate_none_length j.live (sizeOfLoff p)).mpr (by
      change j.content.length ≤ _
      omega)
    obtain ⟨r', result', refines⟩ := aesdRead_refines models .success true true 1 p
    rw [result, Option.some.injEq] at result'
    subst result'
    have ret := refines.ret
    rw [Journal.read, none] at ret
    simp only [ReadEnv.success, Bool.and_self, if_true] at ret
    omega

theorem Models.pair_exists (models : Models k j)
    (place : Locate.locate (slotList k.dev.buffer) p = some (i, o)) :
    ∃ seekto : Seekto, seekto.pair = (i, o) := by
  obtain ⟨bound, _, inside⟩ := (Locate.locate_eq_some_iff ..).mp place
  rw [slotList_getElem] at inside
  rw [slotList_length] at bound
  rw [models.slot_size bound] at inside
  have small : (j.slot i).length ≤ kmallocMax := by
    rcases j.slot_mem i with empty | member
    · rw [empty]
      exact Nat.zero_le _
    · exact (models.committed.commands _ member).2
  unfold kmallocMax at small
  refine ⟨⟨UInt32.ofNat i, UInt32.ofNat o⟩, ?_⟩
  simp only [Seekto.pair, UInt32.toNat_ofNat', Prod.mk.injEq]
  omega

theorem Seekto.pair_injective (same : Seekto.pair s = Seekto.pair s') : s = s' := by
  simp only [Seekto.pair, Prod.mk.injEq] at same
  cases s
  cases s'
  rw [Seekto.mk.injEq]
  exact ⟨UInt32.toNat_inj.mp same.1, UInt32.toNat_inj.mp same.2⟩

/-- The seek ioctl maps the accepted pairs, in lexicographic order, one to one onto the
readable positions, and rejects all others without effect. -/
theorem seek_enumerates (reachable : Reachable d) :
    (∀ seekto, (∃ q, SeeksTo d.kernel seekto q) ∨ Rejects d.kernel seekto) ∧
    (∀ seekto, d.kernel.dev.buffer.count ≤ seekto.writeCmd.toNat → Rejects d.kernel seekto) ∧
    (∀ s q s' q', SeeksTo d.kernel s q → SeeksTo d.kernel s' q' →
      (q < q' ↔ toLex s.pair < toLex s'.pair) ∧ (q = q' ↔ s = s')) ∧
    (∀ q, (∃ seekto, SeeksTo d.kernel seekto q) ↔
      0 ≤ q ∧ q < (d.kernel.dev.buffer.live.map BufferEntry.size).sum) ∧
    ∀ p, -2 ^ 63 ≤ p → p < 2 ^ 63 →
      (Readable d.kernel p ↔
        0 ≤ p ∧ p < (d.kernel.dev.buffer.live.map BufferEntry.size).sum) := by
  obtain ⟨l, models, _⟩ := reachable.represents
  refine ⟨?_, ?_, ?_, ?_, models.readable_iff⟩
  · intro seekto
    rcases models.seek_cases seekto with ⟨q, _, target⟩ | rejects
    · exact .inl ⟨q, target⟩
    · exact .inr rejects
  · intro seekto dead
    apply models.rejects
    intro slot
    have ring := models.committed.ring
    have count := ring.count
    rw [ring.unused _ (by omega)]
    exact Nat.zero_le _
  · intro s q s' q' target target'
    obtain ⟨p, rfl, place⟩ := (models.seeksTo_iff s q).mp target
    obtain ⟨p', rfl, place'⟩ := (models.seeksTo_iff s' q').mp target'
    constructor
    · rw [Int.ofNat_lt]
      exact Locate.locate_lt_iff _ place place'
    · constructor
      · intro same
        rw [Int.ofNat_inj.mp same, place', Option.some.injEq] at place
        exact Seekto.pair_injective place.symm
      · rintro rfl
        exact target.unique target'
  · intro q
    have total : (d.kernel.dev.buffer.live.map BufferEntry.size).sum =
        (slotList d.kernel.dev.buffer).sum := models.slotList_sum.symm
    rw [total]
    constructor
    · rintro ⟨seekto, target⟩
      obtain ⟨p, rfl, place⟩ := (models.seeksTo_iff seekto q).mp target
      have inside := (Locate.locate_eq_none_iff (slotList d.kernel.dev.buffer) p).not.mp
        (by simp [place])
      omega
    · rintro ⟨nonneg, inside⟩
      obtain ⟨p, rfl⟩ := Int.eq_ofNat_of_zero_le nonneg
      have somewhere := (Locate.locate_eq_none_iff (slotList d.kernel.dev.buffer) p).not.mpr (by omega)
      obtain ⟨⟨i, o⟩, place⟩ := Option.ne_none_iff_exists'.mp somewhere
      obtain ⟨seekto, pair⟩ := models.pair_exists place
      exact ⟨seekto, models.seeksTo (pair ▸ place)⟩

/-- A wrapped ring with 22 bytes: the last of them is a target, the next one is not. -/
theorem seek_enumerates_wrapped :
    ∃ d, Reachable d ∧ d.kernel.dev.buffer.outOffs = 1 ∧
      (∃ seekto, SeeksTo d.kernel seekto 21) ∧ ¬∃ seekto, SeeksTo d.kernel seekto 22 := by
  obtain ⟨d, replies, run, models⟩ := lines_run (fun _ _ _ _ => 0) 0 elevenLines elevenLines_whole
    (d := Driver.initial) aesdInitModule_models
  have reachable : Reachable d := ⟨_, _, replies, run⟩
  have total : (d.kernel.dev.buffer.live.map BufferEntry.size).sum = 22 := by
    have sum := models.sizes_sum
    rw [CircularBuffer.sizes] at sum
    rw [sum]
    decide
  obtain ⟨_, _, _, targets, _⟩ := seek_enumerates reachable
  refine ⟨d, reachable, models.committed.ring.outOffs, ?_, ?_⟩
  · apply (targets 21).mpr
    rw [total]
    decide
  · intro target
    have inside := (targets 22).mp target
    rw [total] at inside
    omega

end Aesd
