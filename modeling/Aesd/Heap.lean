import Mathlib.Algebra.Order.Ring.Int
import Mathlib.Data.List.Basic
import Mathlib.Data.List.Infix

/-! The kernel heap as a ledger of allocated blocks. The allocator's choices (whether
a request is granted, where the block lies, what its new bytes are) are supplied with
each call. Using a pointer that is no allocated block is a fault: the result is `none`. -/
namespace Aesd

abbrev Byte := UInt8

abbrev Pointer := Option Nat

/-- No kernel configuration has a `KMALLOC_MAX_SIZE` above this: a larger request
returns NULL. -/
def kmallocMax : Nat := 2 ^ 32

/-- An allocated block; its capacity is the length of `data`. -/
structure Block where
  data : List Byte
  small : data.length ≤ kmallocMax

def Block.splice (b : Block) (offset : Nat) (bytes : List Byte)
    (inside : offset + bytes.length ≤ b.data.length) : Block where
  data := b.data.take offset ++ bytes ++ b.data.drop (offset + bytes.length)
  small := by
    have := b.small
    simp only [List.length_append, List.length_take, List.length_drop]
    omega

structure Heap where
  block : Nat → Option Block
  top : Nat
  unused : ∀ a, top ≤ a → block a = none

structure Grant where
  ok : Bool
  addr : Nat
  fill : Nat → Byte

namespace Heap

variable {h h' : Heap} {a c : Nat} {bytes : List Byte}

def empty : Heap := ⟨fun _ => none, 0, fun _ _ => rfl⟩

def put (h : Heap) (a : Nat) (b : Block) : Heap where
  block c := if c = a then some b else h.block c
  top := max h.top (a + 1)
  unused c above := by
    rw [if_neg (by omega)]
    exact h.unused c (by omega)

def erase (h : Heap) (a : Nat) : Heap where
  block c := if c = a then none else h.block c
  top := h.top
  unused c above := by simp [h.unused c above]

@[simp] theorem block_put (h : Heap) (a c : Nat) (b : Block) :
    (h.put a b).block c = if c = a then some b else h.block c := rfl

@[simp] theorem block_erase (h : Heap) (a c : Nat) :
    (h.erase a).block c = if c = a then none else h.block c := rfl

/-- A free address: the proposed one, unless a block lies there. -/
def fresh (h : Heap) (a : Nat) : Nat := if (h.block a).isNone then a else h.top

@[simp] theorem fresh_free (h : Heap) (a : Nat) : h.block (h.fresh a) = none := by
  unfold fresh
  split
  · rename_i free
    exact Option.isNone_iff_eq_none.mp free
  · exact h.unused _ (Nat.le_refl _)

/-- `count` bytes from `p + offset`; zero bytes can be taken from any pointer. -/
def load (h : Heap) (p : Pointer) (offset count : Nat) : Option (List Byte) :=
  if count = 0 then some []
  else do
    let a ← p
    let b ← h.block a
    if offset + count ≤ b.data.length then some ((b.data.drop offset).take count) else none

/-- The block at `a` is allocated and starts with `bytes`. -/
def Holds (h : Heap) (a : Nat) (bytes : List Byte) : Prop :=
  ∃ b, h.block a = some b ∧ bytes <+: b.data

def SameBut (a : Nat) (h h' : Heap) : Prop := ∀ c, c ≠ a → h'.block c = h.block c

theorem Holds.allocated (held : h.Holds a bytes) : h.block a ≠ none := by
  obtain ⟨b, atAddr, _⟩ := held
  simp [atAddr]

theorem Holds.length_le (held : h.Holds a bytes) : bytes.length ≤ kmallocMax := by
  obtain ⟨b, _, start⟩ := held
  exact start.length_le.trans b.small

theorem Holds.congr (held : h.Holds a bytes) (same : h'.block a = h.block a) :
    h'.Holds a bytes := by
  obtain ⟨b, atAddr, start⟩ := held
  exact ⟨b, same.trans atAddr, start⟩

theorem Holds.frame (held : h.Holds a bytes) (other : SameBut c h h') (different : a ≠ c) :
    h'.Holds a bytes :=
  held.congr (other a different)

theorem sameBut_put (h : Heap) (a : Nat) (b : Block) : SameBut a h (h.put a b) := by
  intro c different
  simp [different]

theorem sameBut_erase (h : Heap) (a : Nat) : SameBut a h (h.erase a) := by
  intro c different
  simp [different]

@[simp] theorem load_zero (h : Heap) (p : Pointer) (offset : Nat) :
    h.load p offset 0 = some [] := rfl

theorem load_holds (held : h.Holds a bytes) (inside : offset + count ≤ bytes.length) :
    h.load (some a) offset count = some ((bytes.drop offset).take count) := by
  obtain ⟨b, atAddr, tail, start⟩ := held
  unfold load
  split
  · rename_i zero
    simp [zero]
  · have capacity : offset + count ≤ b.data.length := by
      rw [← start, List.length_append]
      omega
    simp only [atAddr, Option.bind_eq_bind, Option.bind_some, if_pos capacity, Option.some.injEq]
    rw [← start, List.drop_append_of_le_length (by omega), List.take_append_of_le_length]
    simp only [List.length_drop]
    omega

theorem load_all (held : h.Holds a bytes) : h.load (some a) 0 bytes.length = some bytes := by
  rw [load_holds held (by omega)]
  simp

end Heap

/-- The content of bytes that nothing has written yet. -/
def garbage (fill : Nat → Byte) (size : Nat) : List Byte := (List.range size).map fill

@[simp] theorem garbage_length (fill : Nat → Byte) (size : Nat) :
    (garbage fill size).length = size := by simp [garbage]

def kmalloc (g : Grant) (size : Nat) (h : Heap) : Pointer × Heap :=
  if fits : g.ok = true ∧ size ≤ kmallocMax then
    (some (h.fresh g.addr), h.put (h.fresh g.addr) ⟨garbage g.fill size, by simpa using fits.2⟩)
  else (none, h)

def kfree (p : Pointer) (h : Heap) : Option Heap :=
  match p with
  | none => some h
  | some a => if (h.block a).isSome then some (h.erase a) else none

/-- The old bytes, then new ones, to the requested size. -/
def resize (old : List Byte) (fill : Nat → Byte) (size : Nat) : List Byte :=
  old.take size ++ (garbage fill size).drop old.length

@[simp] theorem resize_length (old : List Byte) (fill : Nat → Byte) (size : Nat) :
    (resize old fill size).length = size := by
  simp [resize]
  omega

/-- A granted request may stay in place (`addr` is the old address) or move; a refused
one keeps the old block. -/
def krealloc (g : Grant) (p : Pointer) (size : Nat) (h : Heap) : Option (Pointer × Heap) :=
  match p with
  | none => some (kmalloc g size h)
  | some a => do
    let old ← h.block a
    if fits : g.ok = true ∧ size ≤ kmallocMax then
      let target := if g.addr = a then a else h.fresh g.addr
      some (some target, (h.erase a).put target
        ⟨resize old.data g.fill size, by simpa using fits.2⟩)
    else some (none, h)

/-- Also the successful `copy_from_user`. -/
def memcpy (p : Pointer) (offset : Nat) (bytes : List Byte) (h : Heap) : Option Heap := do
  let a ← p
  let b ← h.block a
  if inside : offset + bytes.length ≤ b.data.length then some (h.put a (b.splice offset bytes inside))
  else none

section Specifications

variable {g : Grant} {h : Heap} {a size : Nat} {bytes more : List Byte}

theorem kmalloc_granted (ok : g.ok = true) (fits : size ≤ kmallocMax) :
    ∃ a h', kmalloc g size h = (some a, h') ∧ h.block a = none ∧ h.SameBut a h' ∧
      ∃ b, h'.block a = some b ∧ b.data = garbage g.fill size := by
  refine ⟨h.fresh g.addr, _, dif_pos ⟨ok, fits⟩, h.fresh_free _, h.sameBut_put _ _, ?_⟩
  exact ⟨_, by rw [Heap.block_put, if_pos rfl], rfl⟩

theorem kmalloc_refused (refused : ¬(g.ok = true ∧ size ≤ kmallocMax)) :
    kmalloc g size h = (none, h) := dif_neg refused

@[simp] theorem kfree_null : kfree none h = some h := rfl

theorem kfree_allocated (allocated : h.block a ≠ none) : kfree (some a) h = some (h.erase a) := by
  simp [kfree, Option.isSome_iff_ne_none, allocated]

/-- Releasing the block that was just taken restores every other block. -/
theorem erase_taken {h' : Heap} (free : h.block a = none) (same : h.SameBut a h') :
    (h'.erase a).block = h.block := by
  funext c
  by_cases equal : c = a
  · simp [equal, free]
  · simp [equal, same c equal]

/-- A granted `krealloc` keeps the first bytes, frees the old block when it moves, and
leaves the other blocks alone. -/
theorem krealloc_granted (ok : g.ok = true) (fits : size ≤ kmallocMax)
    (held : h.Holds a bytes) (grows : bytes.length ≤ size) :
    ∃ target h', krealloc g (some a) size h = some (some target, h') ∧
      (target = a ∨ h.block target = none) ∧ h'.Holds target bytes ∧
      (∀ b, h'.block target = some b → b.data.length = size) ∧
      (∀ c, c ≠ a → c ≠ target → h'.block c = h.block c) ∧
      (target ≠ a → h'.block a = none) := by
  obtain ⟨old, atAddr, start⟩ := held
  let target := if g.addr = a then a else h.fresh g.addr
  refine ⟨target, (h.erase a).put target ⟨resize old.data g.fill size, by simpa using fits⟩,
    ?_, ?_, ?_, ?_, ?_, ?_⟩
  · simp only [krealloc, atAddr, Option.bind_eq_bind, Option.bind_some,
      dif_pos (And.intro ok fits), target]
  · by_cases inPlace : g.addr = a
    · exact .inl (if_pos inPlace)
    · simp only [target, if_neg inPlace]
      exact .inr (h.fresh_free _)
  · refine ⟨_, by rw [Heap.block_put, if_pos rfl], ?_⟩
    exact (List.prefix_take_iff.mpr ⟨start, grows⟩).trans (List.prefix_append _ _)
  · intro b same
    rw [Heap.block_put, if_pos rfl, Option.some.injEq] at same
    rw [← same]
    exact resize_length ..
  · intro c notOld notTarget
    simp [notOld, notTarget]
  · intro moved
    rw [Heap.block_put, if_neg (Ne.symm moved)]
    simp

theorem krealloc_refused (refused : ¬(g.ok = true ∧ size ≤ kmallocMax)) (held : h.Holds a bytes) :
    krealloc g (some a) size h = some (none, h) := by
  obtain ⟨old, atAddr, _⟩ := held
  simp only [krealloc, atAddr, Option.bind_eq_bind, Option.bind_some, dif_neg refused]

@[simp] theorem krealloc_null : krealloc g none size h = some (kmalloc g size h) := rfl

theorem memcpy_holds (held : h.Holds a bytes)
    (capacity : ∀ b, h.block a = some b → bytes.length + more.length ≤ b.data.length) :
    ∃ h', memcpy (some a) bytes.length more h = some h' ∧ h'.Holds a (bytes ++ more) ∧
      h.SameBut a h' := by
  obtain ⟨b, atAddr, tail, start⟩ := held
  refine ⟨h.put a (b.splice bytes.length more (capacity b atAddr)), ?_, ?_, h.sameBut_put a _⟩
  · simp only [memcpy, Option.bind_eq_bind, Option.bind_some, atAddr, dif_pos (capacity b atAddr)]
  · refine ⟨_, by rw [Heap.block_put, if_pos rfl], ?_⟩
    simp only [Block.splice, ← start, List.take_left']
    exact List.prefix_append _ _

end Specifications

end Aesd
