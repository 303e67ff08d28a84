import Aesd.Calls

/-! What the running calls own, and what a step of one call leaves alone. Outside the lock a
call touches only its private block; under the lock it also touches the blocks that the device
uses. No block is both. -/
namespace Aesd

variable {h h' : Heap} {k : Kernel} {j : Journal} {c : Call} {place : Place} {a b w : Nat}
  {seek : Int → Int → Int → Int → Int} {fpos : Int} {chunk line : List Byte} {env : WriteEnv}

def Place.own : Place → Pointer
  | .filling a | .reserved a .. | .appended a .. | .releasing a _ => some a
  | .waiting p | .locked p => p
  | _ => none

def Place.inside : Place → Bool
  | .locked _ | .located .. | .reserved .. | .appended .. | .releasing .. | .unlocking _ => true
  | _ => false

/-- `write_buffer` is in use although it may not hold a byte yet. -/
def Place.assembling : Place → Bool
  | .reserved .. | .appended .. => true
  | _ => false

/-- The device refers to the block: from a slot, or as the buffer of the line. -/
def Kernel.Uses (k : Kernel) (assembling : Bool) (a : Nat) : Prop :=
  (∃ i, (k.dev.buffer.get i).buffptr = some a) ∨
    (assembling = true ∨ k.dev.writeBufferSize ≠ 0) ∧ k.dev.writeBuffer = some a

/-- The kernel as its device is between calls. -/
def Kernel.unlocked (k : Kernel) : Kernel := { k with dev := mutexUnlock k.dev }

@[simp] theorem Kernel.unlocked_heap (k : Kernel) : k.unlocked.heap = k.heap := rfl

theorem Kernel.Uses.avoids (apart : ¬k.Uses assembling a) : k.dev.buffer.Avoids a :=
  fun i points => apart (.inl ⟨i, points⟩)

theorem Kernel.Uses.unassembled (apart : ¬k.Uses assembling a) (size : k.dev.writeBufferSize ≠ 0) :
    k.dev.writeBuffer ≠ some a :=
  fun points => apart (.inr ⟨.inr size, points⟩)

theorem Kernel.Uses.weaken (uses : k.Uses false a) : k.Uses assembling a := by
  rcases uses with slot | ⟨size, points⟩
  · exact .inl slot
  · exact .inr ⟨.inr (size.resolve_left Bool.false_ne_true), points⟩

theorem private_of_apart (held : k.heap.Holds a chunk) (apart : ¬k.Uses assembling a) :
    Private k a chunk :=
  ⟨held, Kernel.Uses.avoids apart, Kernel.Uses.unassembled apart⟩

theorem Models.uses_allocated (models : Models k j) (uses : k.Uses false a) :
    k.heap.block a ≠ none := by
  rcases uses with ⟨i, points⟩ | ⟨size, points⟩
  · obtain ⟨_, _, held⟩ := models.committed.points points
    exact held.allocated
  · exact models.writeBuffer_allocated (size.resolve_left Bool.false_ne_true) points

/-- A journal is still represented when the blocks in use are untouched. -/
theorem Models.frame_used (models : Models k j)
    (same : ∀ a, k.Uses false a → h'.block a = k.heap.block a) :
    Models { k with heap := h' } j where
  free := models.free
  committed := by
    apply models.committed.frame
    intro a points
    apply same
    by_contra apart
    exact points (Kernel.Uses.avoids apart)
  assembled := by
    have assembled := models.assembled
    cases kind : j.pending with
    | held bytes =>
      rw [kind] at assembled
      obtain ⟨size, held⟩ := assembled
      refine ⟨size, fun some => ?_⟩
      obtain ⟨w, points, held, avoids⟩ := held some
      have used : k.Uses false w :=
        .inr ⟨.inr (by rw [size]; exact List.length_eq_zero_iff.not.mpr some), points⟩
      exact ⟨w, points, held.congr (same w used), avoids⟩
    | lost count => rwa [kind] at assembled
  buffSize := models.buffSize

theorem reserve_frame {dev : AesdDev} {p : Pointer}
    (reserved : reserve env dev count append h = some (p, h')) (allocated : h.block b ≠ none)
    (apart : dev.writeBufferSize ≠ 0 → dev.writeBuffer ≠ some b) :
    h'.block b = h.block b ∧ p ≠ some b := by
  have fresh : ∀ size, kmalloc env.buffer size h = (p, h') → h'.block b = h.block b ∧ p ≠ some b := by
    intro size taken
    by_cases granted : env.buffer.ok = true ∧ size ≤ kmallocMax
    · obtain ⟨a, heap, result, free, same, _⟩ := kmalloc_granted (h := h) granted.1 granted.2
      rw [result] at taken
      cases taken
      have different : b ≠ a := fun equal => allocated (equal ▸ free)
      exact ⟨same b different, fun points => different (Option.some.inj points).symm⟩
    · rw [kmalloc_refused granted] at taken
      cases taken
      exact ⟨rfl, Option.some_ne_none _ |>.symm⟩
  unfold reserve at reserved
  by_cases first : dev.writeBufferSize = 0
  · rw [if_pos first] at reserved
    exact fresh _ (Option.some.inj reserved)
  · rw [if_neg first] at reserved
    cases points : dev.writeBuffer with
    | none =>
      rw [points, krealloc_null] at reserved
      exact fresh _ (Option.some.inj reserved)
    | some w =>
      have different : b ≠ w := fun equal => apart first (equal ▸ points)
      rw [points] at reserved
      simp only [krealloc, Option.bind_eq_bind, Option.bind_eq_some_iff] at reserved
      obtain ⟨old, _, reserved⟩ := reserved
      split at reserved
      · simp only [Option.some.injEq, Prod.mk.injEq] at reserved
        obtain ⟨rfl, rfl⟩ := reserved
        have target : b ≠ if env.buffer.addr = w then w else h.fresh env.buffer.addr := by
          split
          · exact different
          · intro equal
            exact allocated (equal ▸ h.fresh_free _)
        refine ⟨by rw [Heap.block_put, if_neg target, Heap.block_erase, if_neg different], ?_⟩
        exact fun same => target (Option.some.inj same).symm
      · cases reserved
        exact ⟨rfl, Option.some_ne_none _ |>.symm⟩

/-- What a call outside the lock has got so far. -/
inductive Guest (h : Heap) : Call → Place → Prop
  | enter (c : Call) : Guest h c .enter
  | filling (file : Nat) (env : WriteEnv) (chunk : List Byte) (a : Nat) (data : env.data.ok = true)
      (fits : chunk.length ≤ kmallocMax)
      (room : ∃ blk, h.block a = some blk ∧ blk.data.length = chunk.length) :
      Guest h (.write file env true (some chunk)) (.filling a)
  | filled (file : Nat) (env : WriteEnv) (chunk : List Byte) (a : Nat) (data : env.data.ok = true)
      (fits : chunk.length ≤ kmallocMax) (copied : env.copied = true) (held : h.Holds a chunk) :
      Guest h (.write file env true (some chunk)) (.waiting (some a))
  | reading (file : Nat) (env : ReadEnv) (count : Nat) :
      Guest h (.read file env true true count) (.waiting none)
  | seeking (file : Nat) (locked : Bool) (offset whence : Int) :
      Guest h (.llseek file locked offset whence) (.waiting none)
  | adjusting (file : Nat) (env : ReadEnv) (arg : Seekto) (copied : env.copied = true) :
      Guest h (.ioctl file env aesdcharIocseekto arg) (.waiting none)
  | returning (c : Call) (result : Result) : Guest h c (.returning result)

theorem Guest.frame (guest : Guest h c place)
    (same : ∀ a, place.own = some a → h'.block a = h.block a) : Guest h' c place := by
  cases guest with
  | enter => exact .enter _
  | filling file env chunk a data fits room =>
    obtain ⟨blk, atAddr, size⟩ := room
    exact .filling _ _ _ _ data fits ⟨blk, (same a rfl).trans atAddr, size⟩
  | filled file env chunk a data fits copied held =>
    exact .filled _ _ _ _ data fits copied (held.congr (same a rfl))
  | reading => exact .reading _ _ _
  | seeking => exact .seeking _ _ _ _
  | adjusting _ _ _ copied => exact .adjusting _ _ _ copied
  | returning => exact .returning _ _

theorem Guest.allocated (guest : Guest h c place) (own : place.own = some a) :
    h.block a ≠ none := by
  cases guest with
  | filling file env chunk b data fits room =>
    obtain ⟨blk, atAddr, _⟩ := room
    cases own
    simp [atAddr]
  | filled file env chunk b data fits copied held =>
    cases own
    exact held.allocated
  | _ => cases own

def Journal.Yields (seek : Int → Int → Int → Int → Int) (c : Call) (fpos : Int) (j : Journal)
    (result : Result) (j' : Journal) : Prop :=
  j.operate seek c fpos = ⟨result.ret, result.fpos, result.delivered, j'⟩

/-- A write that extends the line: its data, and the line's buffer with the bytes so far. -/
structure Extending (k : Kernel) (j : Journal) (env : WriteEnv) (chunk : List Byte) (a : Nat)
    (line : List Byte) : Prop where
  assembles : Journal.Assembles env true (some chunk) chunk
  granted : env.buffer.ok = true ∧ j.request chunk ≤ kmallocMax
  data : k.heap.Holds a chunk
  buffer : ∃ w, k.dev.writeBuffer = some w ∧ k.heap.Holds w line ∧ k.dev.buffer.Avoids w
  size : k.dev.writeBufferSize = line.length
  committed : Committed k.heap k.dev.buffer j.history
  buffSize : k.dev.buffSize = sizeT j.totalSize

/-- The state of the device while a call is inside the lock; `j` is the journal as the call
found it. -/
inductive Critical (seek : Int → Int → Int → Int → Int) (j : Journal) (fpos : Int) (k : Kernel) :
    Call → Place → Prop
  | locked (c : Call) (p : Pointer) (models : Models k.unlocked j)
      (arrived : Guest k.heap c (.waiting p)) (locked : c.locked = true) :
      Critical seek j fpos k c (.locked p)
  | located (file : Nat) (env : ReadEnv) (count i o : Nat) (models : Models k.unlocked j)
      (locked : env.locked = true)
      (place : Locate.locate (j.live.map List.length) (sizeOfLoff fpos) = some (i, o)) :
      Critical seek j fpos k (.read file env true true count)
        (.located ((k.dev.buffer.outOffs + i) % 10) o)
  | reserved (file : Nat) (env : WriteEnv) (chunk : List Byte) (a : Nat)
      (extending : Extending k j env chunk a (j.pending.base env.buffer.fill))
      (room : ∀ w blk, k.dev.writeBuffer = some w → k.heap.block w = some blk →
        k.dev.writeBufferSize + appendIndex chunk ≤ blk.data.length) :
      Critical seek j fpos k (.write file env true (some chunk))
        (.reserved a (decide (newline ∈ chunk)) (appendIndex chunk))
  | appended (file : Nat) (env : WriteEnv) (chunk : List Byte) (a : Nat)
      (extending : Extending k j env chunk a
        (j.pending.base env.buffer.fill ++ Delimited.cut newline chunk)) :
      Critical seek j fpos k (.write file env true (some chunk))
        (.appended a (decide (newline ∈ chunk)) (appendIndex chunk))
  | releasing (file : Nat) (env : WriteEnv) (chunk : List Byte) (a : Nat) (result : Result)
      (j' : Journal) (allocated : k.heap.block a ≠ none) (models : Models k.unlocked j')
      (yields : j.Yields seek (.write file env true (some chunk)) fpos result j') :
      Critical seek j fpos k (.write file env true (some chunk)) (.releasing a result)
  | unlocking (c : Call) (result : Result) (j' : Journal) (models : Models k.unlocked j')
      (yields : j.Yields seek c fpos result j') : Critical seek j fpos k c (.unlocking result)

theorem Critical.inside (critical : Critical seek j fpos k c place) : place.inside = true := by
  cases critical <;> rfl

theorem Critical.allocated (critical : Critical seek j fpos k c place) (own : place.own = some a) :
    k.heap.block a ≠ none := by
  cases critical with
  | locked c p models arrived locked => exact arrived.allocated own
  | reserved file env chunk b extending room =>
    cases own
    exact extending.data.allocated
  | appended file env chunk b extending =>
    cases own
    exact extending.data.allocated
  | releasing file env chunk b result j' allocated models yields =>
    cases own
    exact allocated
  | _ => cases own

theorem Critical.uses_allocated (critical : Critical seek j fpos k c place)
    (uses : k.Uses place.assembling a) : k.heap.block a ≠ none := by
  have modelled : ∀ j', Models k.unlocked j' → k.Uses false a → k.heap.block a ≠ none :=
    fun j' models uses => models.uses_allocated uses
  have extended : ∀ env chunk b line, Extending k j env chunk b line → k.Uses true a →
      k.heap.block a ≠ none := by
    intro env chunk b line extending uses
    rcases uses with ⟨i, points⟩ | ⟨_, points⟩
    · obtain ⟨_, _, held⟩ := extending.committed.points points
      exact held.allocated
    · obtain ⟨w, points', held, _⟩ := extending.buffer
      rw [points, Option.some.injEq] at points'
      exact points' ▸ held.allocated
  cases critical with
  | locked c p models => exact modelled _ models uses
  | located file env count i o models => exact modelled _ models uses
  | reserved file env chunk b extending => exact extended _ _ _ _ extending uses
  | appended file env chunk b extending => exact extended _ _ _ _ extending uses
  | releasing file env chunk b result j' _ models => exact modelled _ models uses
  | unlocking c result j' models => exact modelled _ models uses

theorem Extending.frame (extending : Extending k j env chunk a line)
    (used : ∀ b, k.Uses true b → h'.block b = k.heap.block b) (own : h'.block a = k.heap.block a) :
    Extending { k with heap := h' } j env chunk a line where
  assembles := extending.assembles
  granted := extending.granted
  data := extending.data.congr own
  buffer := by
    obtain ⟨w, points, held, avoids⟩ := extending.buffer
    exact ⟨w, points, held.congr (used w (.inr ⟨.inl rfl, points⟩)), avoids⟩
  size := extending.size
  committed := by
    apply extending.committed.frame
    intro b points
    apply used
    by_contra apart
    exact points (Kernel.Uses.avoids apart)
  buffSize := extending.buffSize

/-- A call inside the lock does not notice changes to blocks that neither it nor the device
refers to. -/
theorem Critical.frame (critical : Critical seek j fpos k c place)
    (used : ∀ a, k.Uses place.assembling a → h'.block a = k.heap.block a)
    (own : ∀ a, place.own = some a → h'.block a = k.heap.block a) :
    Critical seek j fpos { k with heap := h' } c place := by
  have modelled : ∀ j', Models k.unlocked j' →
      (∀ a, k.Uses false a → h'.block a = k.heap.block a) →
      Models (Kernel.unlocked { k with heap := h' }) j' :=
    fun j' models used => models.frame_used used
  cases critical with
  | locked c p models arrived locked =>
    exact .locked _ _ (modelled _ models used) (arrived.frame own) locked
  | located file env count i o models locked place =>
    exact .located _ _ _ _ _ (modelled _ models used) locked place
  | reserved file env chunk a extending room =>
    refine .reserved _ _ _ _ (extending.frame used (own a rfl)) ?_
    intro w blk points atAddr
    exact room w blk points ((used w (.inr ⟨.inl rfl, points⟩)).symm.trans atAddr)
  | appended file env chunk a extending =>
    exact .appended _ _ _ _ (extending.frame used (own a rfl))
  | releasing file env chunk a result j' allocated models yields =>
    refine .releasing _ _ _ _ _ _ ?_ (modelled _ models used) yields
    rw [own a rfl]
    exact allocated
  | unlocking c result j' models yields =>
    exact .unlocking _ _ _ (modelled _ models used) yields

end Aesd
