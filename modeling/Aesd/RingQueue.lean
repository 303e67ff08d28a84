import Aesd.CircularBuffer
import Aesd.Library.Window

/-! The ring as a queue: it refines the bounded queue of the ten newest entries, and the
lookup is indexing into the concatenation of its entries. -/
namespace Aesd

open CircularBuffer Window

variable {b : CircularBuffer} {n : Nat}

def addEntries (b : CircularBuffer) (entries : List BufferEntry) : CircularBuffer :=
  entries.foldl (fun b e => aesdCircularBufferAddEntry b (some e)) b

/-- On the live entries, an addition is a `push`. -/
theorem CircularBuffer.Ring.live_add (ring : b.Ring n) (e : BufferEntry) :
    (aesdCircularBufferAddEntry b (some e)).live = push 10 b.live e := by
  rw [(ring_add b ring e).live, ring.live]
  unfold push
  have length : ((List.range (min n 10)).map fun k => b.get ((n - min n 10 + k) % 10)).length =
      min n 10 := by simp
  by_cases room : n < 10
  · rw [if_pos (by omega)]
    apply List.ext_getElem
    · simp
      omega
    · intro k bound _
      have within : k < n + 1 := by
        simp at bound
        omega
      rw [List.getElem_map, List.getElem_range, get_add b ring]
      by_cases newest : k = n
      · rw [if_pos (by omega), List.getElem_append_right (by omega)]
        simp
      · rw [if_neg (by omega), List.getElem_append_left (by omega), List.getElem_map,
          List.getElem_range]
        congr 1
        omega
  · rw [if_neg (by omega)]
    apply List.ext_getElem
    · simp
      omega
    · intro k bound _
      have within : k < 10 := by
        simp at bound
        omega
      rw [List.getElem_map, List.getElem_range, get_add b ring]
      by_cases newest : k = 9
      · rw [if_pos (by omega), List.getElem_append_right (by simp; omega)]
        simp
      · rw [if_neg (by omega), List.getElem_append_left (by simp; omega), List.getElem_tail,
          List.getElem_map, List.getElem_range]
        congr 1
        omega

theorem ring_addEntries (ring : b.Ring n) (entries : List BufferEntry) :
    (addEntries b entries).Ring (n + entries.length) ∧
      (addEntries b entries).live = entries.foldl (push 10) b.live := by
  induction entries generalizing b n with
  | nil => exact ⟨ring, rfl⟩
  | cons e entries ih =>
    obtain ⟨later, live⟩ := ih (ring_add b ring e)
    constructor
    · rw [List.length_cons, Nat.add_comm entries.length 1, ← Nat.add_assoc]
      exact later
    · rw [List.foldl_cons, ← ring.live_add e]
      exact live

/-- A slot that no live entry lies in was never used. -/
theorem CircularBuffer.Ring.outside (ring : b.Ring n) (slot : i < 10)
    (outside : ∀ k < min n 10, (b.outOffs + k) % 10 ≠ i) : b.get i = ⟨none, 0⟩ := by
  apply ring.unused i
  by_contra used
  have oldest := ring.outOffs
  by_cases full : 10 ≤ n
  · have out := ring.wellFormed.outOffs
    apply outside ((i + 10 - b.outOffs) % 10) (by omega)
    omega
  · rw [if_neg full] at oldest
    apply outside i (by omega)
    omega

/-- The circular buffer holds the ten newest entries, in the order of their addition. -/
theorem ring_is_fifo (entries : List BufferEntry) :
    (addEntries aesdCircularBufferInit entries).inOffs < 10 ∧
    (addEntries aesdCircularBufferInit entries).outOffs < 10 ∧
    ((addEntries aesdCircularBufferInit entries).full = true ↔ 10 ≤ entries.length) ∧
    (List.range (min entries.length 10)).map (fun k =>
        (addEntries aesdCircularBufferInit entries).get
          (((addEntries aesdCircularBufferInit entries).outOffs + k) % 10)) =
      entries.drop (entries.length - min entries.length 10) ∧
    ∀ i < 10, (∀ k < min entries.length 10,
        ((addEntries aesdCircularBufferInit entries).outOffs + k) % 10 ≠ i) →
      (addEntries aesdCircularBufferInit entries).get i = ⟨none, 0⟩ := by
  obtain ⟨ring, live⟩ := ring_addEntries ring_init entries
  rw [Nat.zero_add] at ring
  have valid := ring.wellFormed
  refine ⟨valid.inOffs, valid.outOffs, ?_, ?_, fun i slot => ring.outside slot⟩
  · rw [ring.full, decide_eq_true_eq]
  · have newest : (addEntries aesdCircularBufferInit entries).live = latest 10 entries := by
      rw [live]
      exact foldl_push (by decide) [] entries
    rw [CircularBuffer.live, ring.count] at newest
    rw [newest, latest]
    congr 1
    omega

section Lookup

/-- Entry `k` from `out_offs` on, at offset `o`, holds the byte with number `c` of the
concatenation of the live entries. -/
structure HoldsByte (b : CircularBuffer) (c k o : Nat) : Prop where
  live : k < b.count
  before : ((List.range k).map fun i => (b.get ((b.outOffs + i) % 10)).size).sum + o = c
  inside : o < (b.get ((b.outOffs + k) % 10)).size

theorem sizes_take (b : CircularBuffer) (within : k ≤ b.count) :
    b.sizes.take k = (List.range k).map fun i => (b.get ((b.outOffs + i) % 10)).size := by
  simp only [sizes, CircularBuffer.live, List.map_map, ← List.map_take, List.take_range,
    Nat.min_eq_left within]
  rfl

theorem holdsByte_iff (b : CircularBuffer) (c k o : Nat) :
    HoldsByte b c k o ↔ Locate.locate b.sizes c = some (k, o) := by
  rw [Locate.locate_eq_some_iff]
  constructor
  · rintro ⟨alive, before, inside⟩
    have bound : k < b.sizes.length := by
      rw [sizes_length]
      exact alive
    rw [← sizes_take b (Nat.le_of_lt alive)] at before
    rw [← sizes_getElem b k bound] at inside
    exact ⟨bound, before, inside⟩
  · rintro ⟨bound, before, inside⟩
    have alive : k < b.count := by
      rw [sizes_length] at bound
      exact bound
    rw [sizes_take b (Nat.le_of_lt alive)] at before
    rw [sizes_getElem b k bound] at inside
    exact ⟨alive, before, inside⟩

theorem HoldsByte.unique (held : HoldsByte b c k o) (held' : HoldsByte b c k' o') :
    k = k' ∧ o = o' := by
  have found := (holdsByte_iff b c k o).mp held
  rw [(holdsByte_iff b c k' o').mp held', Option.some.injEq, Prod.mk.injEq] at found
  exact ⟨found.1.symm, found.2.symm⟩

/-- Different live entries lie in different slots. -/
theorem slot_injective (b : CircularBuffer) (live : k < b.count) (live' : k' < b.count)
    (same : (b.outOffs + k) % 10 = (b.outOffs + k') % 10) : k = k' := by
  have := b.count_le
  omega

/-- The lookup is indexing into the concatenation of the live entries. -/
theorem find_indexes (b : CircularBuffer) (valid : b.WellFormed)
    (small : (b.live.map BufferEntry.size).sum < 2 ^ 64) (c rtn : Nat) (width : c < 2 ^ 64) :
    (∀ k < b.count, ∀ o,
      aesdCircularBufferFindEntryOffsetForFpos b c rtn = (some ((b.outOffs + k) % 10), o) ↔
        HoldsByte b c k o) ∧
    (∀ k o k' o', HoldsByte b c k o → HoldsByte b c k' o' → k = k' ∧ o = o') ∧
    (∀ i o, aesdCircularBufferFindEntryOffsetForFpos b c rtn = (some i, o) →
      ∃ k < b.count, i = (b.outOffs + k) % 10) ∧
    ((aesdCircularBufferFindEntryOffsetForFpos b c rtn).1 = none ↔
      (b.live.map BufferEntry.size).sum ≤ c) ∧
    ((aesdCircularBufferFindEntryOffsetForFpos b c rtn).1 = none →
      (aesdCircularBufferFindEntryOffsetForFpos b c rtn).2 = rtn) := by
  have total : (b.live.map BufferEntry.size).sum = b.sizes.sum := rfl
  have lookup := find_eq_locate b valid small c rtn width
  rw [lookup, total, ← Locate.locate_eq_none_iff]
  cases place : Locate.locate b.sizes c with
  | none =>
    refine ⟨?_, ?_, ?_, by simp [located], by simp [located]⟩
    · intro k _ o
      rw [holdsByte_iff, place]
      simp [located]
    · intro k o k' o' held
      rw [holdsByte_iff, place] at held
      cases held
    · intro i o found
      simp [located] at found
  | some found =>
    obtain ⟨j, p⟩ := found
    have held := (holdsByte_iff b c j p).mpr place
    refine ⟨?_, fun k o k' o' first second => first.unique second, ?_, by simp [located],
      by simp [located]⟩
    · intro k live o
      constructor
      · intro same
        simp only [located, Prod.mk.injEq, Option.some.injEq] at same
        obtain ⟨slot, rfl⟩ := same
        have index := slot_injective b held.live live slot
        subst index
        exact held
      · intro other
        obtain ⟨rfl, rfl⟩ := held.unique other
        rfl
    · intro i o same
      simp only [located, Prod.mk.injEq, Option.some.injEq] at same
      exact ⟨j, held.live, same.1.symm⟩

/-- Four live entries of 3, 0, 2 and 1 bytes, two on each side of the end of the array. -/
def straddlingRing : CircularBuffer where
  entry := #v[⟨some 3, 2⟩, ⟨some 4, 1⟩, ⟨none, 0⟩, ⟨none, 0⟩, ⟨none, 0⟩, ⟨none, 0⟩, ⟨none, 0⟩,
    ⟨none, 0⟩, ⟨some 1, 3⟩, ⟨some 2, 0⟩]
  inOffs := 2
  outOffs := 8
  full := false

theorem find_indexes_straddling :
    (aesdCircularBufferFindEntryOffsetForFpos straddlingRing 4 7 = (some 0, 1) ↔
      HoldsByte straddlingRing 4 2 1) ∧
    ((aesdCircularBufferFindEntryOffsetForFpos straddlingRing 6 7).1 = none ↔
      (straddlingRing.live.map BufferEntry.size).sum ≤ 6) := by
  have valid : straddlingRing.WellFormed := ⟨by decide, by decide, by decide⟩
  have small : (straddlingRing.live.map BufferEntry.size).sum < 2 ^ 64 := by decide
  obtain ⟨found, _⟩ := find_indexes straddlingRing valid small 4 7 (by decide)
  obtain ⟨_, _, _, beyond, _⟩ := find_indexes straddlingRing valid small 6 7 (by decide)
  exact ⟨found 2 (by decide) 1, beyond⟩

end Lookup

end Aesd
