import Aesd.Heap
import Aesd.Library.Locate
import Mathlib.Data.Vector.Basic

/-! The circular buffer of the driver: ten slots, two wrapping indices and a flag that
separates a full ring from an empty one. Sizes are `size_t`: sums wrap at 64 bits. -/
namespace Aesd

def maxWriteOperations : Nat := 10

structure BufferEntry where
  buffptr : Pointer
  size : Nat
  deriving DecidableEq, Repr

instance : Inhabited BufferEntry := ⟨⟨none, 0⟩⟩

structure CircularBuffer where
  entry : Vector BufferEntry maxWriteOperations
  inOffs : Nat
  outOffs : Nat
  full : Bool
  deriving DecidableEq, Repr

def sizeT (n : Nat) : Nat := n % 2 ^ 64

theorem sizeT_of_lt (h : n < 2 ^ 64) : sizeT n = n := Nat.mod_eq_of_lt h

def sizeSub (a b : Nat) : Nat := sizeT (a + (2 ^ 64 - b))

theorem sizeSub_of_le (le : b ≤ a) (small : a < 2 ^ 64) : sizeSub a b = a - b := by
  unfold sizeSub sizeT
  omega

namespace CircularBuffer

variable {b : CircularBuffer} {n i : Nat}

def get (b : CircularBuffer) (i : Nat) : BufferEntry := b.entry[i]?.getD default

def set (b : CircularBuffer) (i : Nat) (e : BufferEntry) : CircularBuffer :=
  { b with entry := b.entry.setIfInBounds i e }

theorem get_set (b : CircularBuffer) (i j : Nat) (e : BufferEntry) (bound : i < 10) :
    (b.set i e).get j = if j = i then e else b.get j := by
  have inside : i < maxWriteOperations := bound
  simp only [get, set, Vector.getElem?_setIfInBounds, inside, if_true]
  by_cases same : i = j
  · simp [same]
  · simp [same, Ne.symm same]

theorem get_beyond (b : CircularBuffer) (beyond : 10 ≤ i) : b.get i = default := by
  have outside : maxWriteOperations ≤ i := beyond
  simp [get, outside]

def count (b : CircularBuffer) : Nat :=
  if b.full then 10 else (b.inOffs + 10 - b.outOffs) % 10

def live (b : CircularBuffer) : List BufferEntry :=
  (List.range b.count).map fun k => b.get ((b.outOffs + k) % 10)

@[simp] theorem live_length (b : CircularBuffer) : b.live.length = b.count := by simp [live]

theorem count_le (b : CircularBuffer) : b.count ≤ 10 := by
  unfold count
  split <;> omega

theorem live_getElem (b : CircularBuffer) (k : Nat) (bound : k < b.live.length) :
    b.live[k] = b.get ((b.outOffs + k) % 10) := by simp [live]

/-- The indices are in range, and a full ring has them equal. -/
structure WellFormed (b : CircularBuffer) : Prop where
  inOffs : b.inOffs < 10
  outOffs : b.outOffs < 10
  full : b.full = true → b.inOffs = b.outOffs

/-- The loop guard on `i` holds at a live slot and fails behind the last one. -/
theorem WellFormed.guard (valid : b.WellFormed) (k : Nat) (within : k ≤ b.count) (turn : k < 10) :
    ((b.outOffs + k) % 10 ≠ b.inOffs ∨ b.full = true) ↔ k < b.count := by
  have inOffs := valid.inOffs
  have outOffs := valid.outOffs
  unfold count at *
  cases full : b.full with
  | true => simp [turn]
  | false =>
    simp only [full, Bool.false_eq_true, if_false, or_false] at within ⊢
    omega

end CircularBuffer

/-- The body of the lookup loop, with `10 - j` rounds left. -/
def findLoop (b : CircularBuffer) (charOffset rtn : Nat) : Nat → Nat → Nat → Option Nat × Nat
  | 0, _, _ => (none, rtn)
  | rounds + 1, i, accumulated =>
    if i ≠ b.inOffs ∨ b.full = true then
      if sizeT (accumulated + (b.get i).size) > charOffset then
        (some i, sizeSub charOffset accumulated)
      else
        findLoop b charOffset rtn rounds ((i + 1) % maxWriteOperations)
          (sizeT (accumulated + (b.get i).size))
    else (none, rtn)

/-- The slot that holds `charOffset`, or `none` for NULL, and the value of
`*entry_offset_byte_rtn` after the call. -/
def aesdCircularBufferFindEntryOffsetForFpos (b : CircularBuffer) (charOffset rtn : Nat) :
    Option Nat × Nat :=
  findLoop b charOffset rtn 10 b.outOffs 0

/-- A NULL `add_entry` changes nothing. -/
def aesdCircularBufferAddEntry (b : CircularBuffer) : Option BufferEntry → CircularBuffer
  | none => b
  | some addEntry =>
    let inOffs := (b.inOffs + 1) % maxWriteOperations
    let outOffs := if b.full then inOffs else b.outOffs
    { b.set b.inOffs addEntry with
      inOffs := inOffs
      outOffs := outOffs
      full := inOffs == outOffs }

def aesdCircularBufferInit : CircularBuffer := ⟨Vector.replicate _ default, 0, 0, false⟩

namespace CircularBuffer

variable {b : CircularBuffer} {n : Nat}

/-- Where a lookup that found live entry `k` at offset `o` points. -/
def located (b : CircularBuffer) (rtn : Nat) : Option (Nat × Nat) → Option Nat × Nat
  | none => (none, rtn)
  | some (k, o) => (some ((b.outOffs + k) % 10), o)

def sizes (b : CircularBuffer) : List Nat := b.live.map BufferEntry.size

@[simp] theorem sizes_length (b : CircularBuffer) : b.sizes.length = b.count := by simp [sizes]

theorem sizes_getElem (b : CircularBuffer) (k : Nat) (bound : k < b.sizes.length) :
    b.sizes[k] = (b.get ((b.outOffs + k) % 10)).size := by simp [sizes, live_getElem]

/-- From live slot `k` on, the loop finds what `locate` finds in the remaining sizes. -/
theorem findLoop_spec (b : CircularBuffer) (valid : b.WellFormed) (small : b.sizes.sum < 2 ^ 64)
    (charOffset rtn rounds k : Nat) (width : charOffset < 2 ^ 64) (turns : k + rounds = 10)
    (within : k ≤ b.count) (reached : (b.sizes.take k).sum ≤ charOffset) :
    findLoop b charOffset rtn rounds ((b.outOffs + k) % 10) (b.sizes.take k).sum =
      b.located rtn ((Locate.locate (b.sizes.drop k) (charOffset - (b.sizes.take k).sum)).map
        fun found => (k + found.1, found.2)) := by
  induction rounds generalizing k with
  | zero =>
    have last := b.count_le
    rw [List.drop_of_length_le (by simp; omega)]
    rfl
  | succ rounds ih =>
    by_cases alive : k < b.count
    · have bound : k < b.sizes.length := by simpa using alive
      have guard := (valid.guard k within (by omega)).mpr alive
      have split := List.sum_take_succ b.sizes k bound
      have total := (List.take_sublist (k + 1) b.sizes).sum_le_sum fun _ _ => Nat.zero_le _
      have noWrap : sizeT ((b.sizes.take k).sum + b.sizes[k]) = (b.sizes.take (k + 1)).sum := by
        rw [sizeT_of_lt (by omega), split]
      have size : (b.get ((b.outOffs + k) % 10)).size = b.sizes[k] := (b.sizes_getElem k bound).symm
      rw [findLoop, if_pos guard, size, noWrap, List.drop_eq_getElem_cons bound]
      by_cases here : charOffset < (b.sizes.take (k + 1)).sum
      · rw [if_pos here, sizeSub_of_le reached width]
        simp only [Locate.locate, if_pos (show charOffset - (b.sizes.take k).sum < b.sizes[k] by omega)]
        rfl
      · have next : ((b.outOffs + k) % 10 + 1) % maxWriteOperations = (b.outOffs + (k + 1)) % 10 := by
          simp only [maxWriteOperations]
          omega
        have remains : charOffset - (b.sizes.take k).sum - b.sizes[k] =
            charOffset - (b.sizes.take (k + 1)).sum := by omega
        rw [if_neg here, next, ih (k + 1) (by omega) alive (by omega)]
        simp only [Locate.locate, remains,
          if_neg (show ¬charOffset - (b.sizes.take k).sum < b.sizes[k] by omega), Option.map_map]
        congr 2
        funext found
        simp
        omega
    · have guard := mt (valid.guard k within (by omega)).mp alive
      rw [findLoop, if_neg guard, List.drop_of_length_le (by simp; omega)]
      rfl

theorem find_eq_locate (b : CircularBuffer) (valid : b.WellFormed) (small : b.sizes.sum < 2 ^ 64)
    (charOffset rtn : Nat) (width : charOffset < 2 ^ 64) :
    aesdCircularBufferFindEntryOffsetForFpos b charOffset rtn =
      b.located rtn (Locate.locate b.sizes charOffset) := by
  have start := findLoop_spec b valid small charOffset rtn 10 0 width rfl (Nat.zero_le _) (by simp)
  simp only [Nat.add_zero, List.take_zero, List.sum_nil, List.drop_zero, Nat.sub_zero, Nat.zero_add,
    Nat.mod_eq_of_lt valid.outOffs] at start
  rw [aesdCircularBufferFindEntryOffsetForFpos, start]
  cases Locate.locate b.sizes charOffset <;> rfl

/-- The positions of the ring after `n` additions to the zeroed buffer. -/
structure Ring (b : CircularBuffer) (n : Nat) : Prop where
  inOffs : b.inOffs = n % 10
  outOffs : b.outOffs = if 10 ≤ n then n % 10 else 0
  full : b.full = decide (10 ≤ n)
  unused : ∀ i, n ≤ i → b.get i = default

theorem ring_init : Ring aesdCircularBufferInit 0 where
  inOffs := rfl
  outOffs := rfl
  full := rfl
  unused i _ := by
    by_cases bound : i < 10
    · have inside : i < maxWriteOperations := bound
      simp [get, aesdCircularBufferInit, inside]
    · exact get_beyond _ (by omega)

theorem get_add (b : CircularBuffer) (ring : Ring b n) (e : BufferEntry) (i : Nat) :
    (aesdCircularBufferAddEntry b (some e)).get i = if i = n % 10 then e else b.get i := by
  rw [← ring.inOffs]
  exact get_set b b.inOffs i e (by rw [ring.inOffs]; omega)

theorem ring_add (b : CircularBuffer) (ring : Ring b n) (e : BufferEntry) :
    Ring (aesdCircularBufferAddEntry b (some e)) (n + 1) where
  inOffs := by
    simp only [aesdCircularBufferAddEntry, ring.inOffs, maxWriteOperations]
    omega
  outOffs := by
    simp only [aesdCircularBufferAddEntry, ring.inOffs, ring.outOffs, ring.full,
      maxWriteOperations, decide_eq_true_eq]
    split <;> split <;> omega
  full := by
    simp only [aesdCircularBufferAddEntry, ring.inOffs, ring.outOffs, ring.full,
      maxWriteOperations, decide_eq_true_eq]
    rw [Bool.eq_iff_iff, beq_iff_eq, decide_eq_true_eq]
    split <;> omega
  unused i above := by
    rw [get_add b ring, if_neg (by omega)]
    exact ring.unused i (by omega)

theorem Ring.wellFormed (ring : Ring b n) : b.WellFormed where
  inOffs := by rw [ring.inOffs]; omega
  outOffs := by rw [ring.outOffs]; split <;> omega
  full isFull := by
    have filled : 10 ≤ n := by simpa [ring.full] using isFull
    rw [ring.inOffs, ring.outOffs, if_pos filled]

theorem Ring.count (ring : Ring b n) : b.count = min n 10 := by
  unfold CircularBuffer.count
  rw [ring.full, ring.inOffs, ring.outOffs]
  by_cases filled : 10 ≤ n
  · simp [filled]
  · simp [filled]
    omega

/-- Live entry `k` is the one added as number `n - min n 10 + k`. -/
theorem Ring.slot (ring : Ring b n) (k : Nat) :
    (b.outOffs + k) % 10 = (n - min n 10 + k) % 10 := by
  rw [ring.outOffs]
  split <;> omega

theorem Ring.live (ring : Ring b n) :
    b.live = (List.range (min n 10)).map fun k => b.get ((n - min n 10 + k) % 10) := by
  unfold CircularBuffer.live
  rw [ring.count]
  exact List.map_congr_left fun k _ => by rw [ring.slot]

end CircularBuffer

end Aesd
