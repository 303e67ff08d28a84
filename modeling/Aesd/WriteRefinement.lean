import Aesd.Journal

/-! The device refines its journal: from a state that models a journal every file operation
returns without a fault, with the journal's result, into a state that models the next
journal. Ownership of blocks is part of `Models`, so no block is freed twice on the way. -/
namespace Aesd

variable {h h' : Heap} {b : CircularBuffer} {history : List (List Byte)} {k : Kernel} {j : Journal}

/-- The number of the command in physical slot `i` after `n` commands. -/
def commandNumber (n i : Nat) : Nat := n - 1 - (n - 1 - i) % 10

theorem commandNumber_spec (below : i < n) (slot : i < 10) :
    commandNumber n i < n ∧ n ≤ commandNumber n i + 10 ∧ commandNumber n i % 10 = i := by
  unfold commandNumber
  omega

theorem Committed.points (committed : Committed h b history) (points : (b.get i).buffptr = some a) :
    i < 10 ∧ ∃ command, h.Holds a command := by
  have slot : i < 10 := by
    by_contra beyond
    rw [b.get_beyond (by omega)] at points
    contradiction
  have below : i < history.length := by
    by_contra unused
    rw [committed.ring.unused i (by omega)] at points
    contradiction
  obtain ⟨inside, live, same⟩ := commandNumber_spec below slot
  obtain ⟨a', points', _, held⟩ := committed.stored _ inside live
  rw [same, points, Option.some.injEq] at points'
  exact ⟨slot, _, points' ▸ held⟩

theorem Committed.avoids_free (committed : Committed h b history) (free : h.block a = none) :
    b.Avoids a := by
  intro i points
  obtain ⟨_, _, held⟩ := committed.points points
  exact held.allocated free

/-- The ring still represents the history when the blocks of its entries are untouched. -/
theorem Committed.frame (committed : Committed h b history)
    (same : ∀ a, ¬b.Avoids a → h'.block a = h.block a) : Committed h' b history where
  ring := committed.ring
  stored m bound live := by
    obtain ⟨a, points, size, held⟩ := committed.stored m bound live
    exact ⟨a, points, size, held.congr (same a fun avoids => avoids _ points)⟩
  apart := committed.apart
  commands := committed.commands

theorem Committed.frame_allocated (committed : Committed h b history)
    (same : ∀ a, h.block a ≠ none → h'.block a = h.block a) : Committed h' b history :=
  committed.frame fun a points => same a fun free => points (committed.avoids_free free)

theorem Models.frame (models : Models k j)
    (same : ∀ a, k.heap.block a ≠ none → h'.block a = k.heap.block a) :
    Models { k with heap := h' } j where
  free := models.free
  committed := models.committed.frame_allocated same
  assembled := by
    have assembled := models.assembled
    cases kind : j.pending with
    | held bytes =>
      rw [kind] at assembled
      refine ⟨assembled.1, fun some => ?_⟩
      obtain ⟨w, points, held, avoids⟩ := assembled.2 some
      exact ⟨w, points, held.congr (same w held.allocated), avoids⟩
    | lost count => rwa [kind] at assembled
  buffSize := models.buffSize

section Commit

theorem clearOldest_get (ring : b.Ring n) (other : i ≠ n % 10) : (clearOldest b).get i = b.get i := by
  unfold clearOldest
  split
  · rw [b.get_set _ _ _ (by rw [ring.inOffs]; omega), ring.inOffs, if_neg other]
  · rfl

theorem clearOldest_ring (ring : b.Ring n) : (clearOldest b).Ring n where
  inOffs := by unfold clearOldest; split <;> exact ring.inOffs
  outOffs := by unfold clearOldest; split <;> exact ring.outOffs
  full := by unfold clearOldest; split <;> exact ring.full
  unused i above := by
    by_cases same : i = n % 10
    · have empty : b.full = false := by simpa [ring.full] using (show n < 10 by omega)
      simpa [clearOldest, empty] using ring.unused i above
    · rw [clearOldest_get ring same]
      exact ring.unused i above

theorem clearOldest_add_get (ring : b.Ring n) (e : BufferEntry) (i : Nat) :
    (aesdCircularBufferAddEntry (clearOldest b) (some e)).get i = if i = n % 10 then e else b.get i := by
  rw [CircularBuffer.get_add _ (clearOldest_ring ring)]
  split
  · rfl
  · rename_i other
    exact clearOldest_get ring other

/-- Freeing the oldest entry of a full ring touches no other entry and no other block. -/
theorem Committed.free_oldest (committed : Committed h b history) :
    ∃ h', freeOldest b h = some h' ∧
      (∀ a, b.Avoids a → h'.block a = h.block a) ∧
      ∀ i a, i ≠ history.length % 10 → (b.get i).buffptr = some a → h'.block a = h.block a := by
  cases full : b.full with
  | false => exact ⟨h, by simp [freeOldest, full], fun _ _ => rfl, fun _ _ _ _ => rfl⟩
  | true =>
    have filled : 10 ≤ history.length := by simpa [committed.ring.full] using full
    have oldest : (history.length - 10) % 10 = b.inOffs := by
      rw [committed.ring.inOffs]
      omega
    obtain ⟨a, points, _, held⟩ := committed.stored (history.length - 10) (by omega) (by omega)
    rw [oldest] at points
    refine ⟨h.erase a, ?_, ?_, ?_⟩
    · rw [freeOldest, full, if_pos rfl, points, kfree_allocated held.allocated]
    · intro c avoids
      have different : c ≠ a := fun same => avoids _ (same ▸ points)
      simp [different]
    · intro i c other atSlot
      have different : c ≠ a := by
        intro same
        have index := committed.apart i b.inOffs a (same ▸ atSlot) points
        exact other (index.trans committed.ring.inOffs)
      simp [different]

/-- Storing a finished line: the ring represents the longer history. -/
theorem Committed.commit (committed : Committed k.heap k.dev.buffer history)
    (points : k.dev.writeBuffer = some w) (size : k.dev.writeBufferSize = line.length)
    (held : k.heap.Holds w line) (avoids : k.dev.buffer.Avoids w) (nonempty : line ≠ []) :
    ∃ k', commit k = some k' ∧ Committed k'.heap k'.dev.buffer (history ++ [line]) ∧
      k'.dev.writeBufferSize = 0 ∧ k'.dev.lock = k.dev.lock ∧
      k'.dev.buffSize = sizeT (k.dev.buffSize + line.length) ∧
      ∀ a, k.dev.buffer.Avoids a → k'.heap.block a = k.heap.block a ∧
        (a ≠ w → k'.dev.buffer.Avoids a) := by
  have ring := committed.ring
  obtain ⟨h', freed, outside, others⟩ := committed.free_oldest
  have get := clearOldest_add_get ring ⟨some w, line.length⟩
  have added := CircularBuffer.ring_add _ (clearOldest_ring ring) ⟨some w, line.length⟩
  let buffer := aesdCircularBufferAddEntry (clearOldest k.dev.buffer) (some ⟨some w, line.length⟩)
  refine ⟨⟨h', { k.dev with
    buffer := buffer
    buffSize := sizeT (k.dev.buffSize + line.length)
    writeBufferSize := 0 }⟩, ?_, ?_, rfl, rfl, rfl, ?_⟩
  · simp only [Aesd.commit, freed, points, size, Option.bind_eq_bind, Option.bind_some]
    rfl
  · constructor
    · simpa using added
    · intro m bound live
      simp only [List.length_append, List.length_singleton] at bound live
      change Stored h' (buffer.get (m % 10)) _
      simp only [buffer, get]
      by_cases newest : m = history.length
      · subst m
        rw [if_pos rfl, List.getElem_concat_length rfl]
        exact ⟨w, rfl, rfl, held.congr (outside w avoids)⟩
      · have older : m < history.length := by omega
        obtain ⟨a, atSlot, length, held⟩ := committed.stored m older (by omega)
        have other : m % 10 ≠ history.length % 10 := by omega
        rw [if_neg other, List.getElem_append_left older]
        exact ⟨a, atSlot, length, held.congr (others _ a other atSlot)⟩
    · intro i i' a atSlot atSlot'
      change (buffer.get i).buffptr = some a at atSlot
      change (buffer.get i').buffptr = some a at atSlot'
      simp only [buffer, get] at atSlot atSlot'
      split at atSlot <;> split at atSlot'
      · omega
      · cases atSlot
        exact absurd atSlot' (avoids i')
      · cases atSlot'
        exact absurd atSlot (avoids i)
      · exact committed.apart i i' a atSlot atSlot'
    · intro c member
      rcases List.mem_append.mp member with old | new
      · exact committed.commands c old
      · rw [List.mem_singleton.mp new]
        exact ⟨nonempty, held.length_le⟩
  · intro a avoidsA
    refine ⟨outside a avoidsA, fun different i atSlot => ?_⟩
    change (buffer.get i).buffptr = some a at atSlot
    simp only [buffer, get] at atSlot
    split at atSlot
    · exact different (Option.some.inj atSlot).symm
    · exact avoidsA i atSlot

end Commit

structure Return.Refines (r : Return) (o : Journal.Outcome) : Prop where
  ret : r.ret = o.ret
  fpos : r.fpos = o.fpos
  delivered : r.delivered = o.delivered
  models : Models r.kernel o.journal

section Write

variable {env : WriteEnv} {chunk : List Byte} {a : Nat}

/-- The running call's own block: neither an entry's nor the one with the pending bytes. -/
structure Private (k : Kernel) (a : Nat) (bytes : List Byte) : Prop where
  held : k.heap.Holds a bytes
  avoids : k.dev.buffer.Avoids a
  unassembled : k.dev.writeBufferSize ≠ 0 → k.dev.writeBuffer ≠ some a

/-- What the line assembly needs of a `write_buffer` that holds the bytes so far. -/
structure Reserved (k : Kernel) (history : List (List Byte)) (a : Nat) (chunk base : List Byte)
    (w : Nat) (h' : Heap) : Prop where
  held : h'.Holds w base
  capacity : ∀ blk, h'.block w = some blk → base.length + appendIndex chunk ≤ blk.data.length
  apart : w ≠ a
  avoids : k.dev.buffer.Avoids w
  committed : Committed h' k.dev.buffer history
  data : h'.Holds a chunk

theorem reserved_fresh (committed : Committed k.heap k.dev.buffer history)
    (own : Private k a chunk) (free : k.heap.block w = none) (same : k.heap.SameBut w h')
    (taken : h'.block w = some blk) (content : blk.data = garbage fill size)
    (base : List Byte) (start : base <+: garbage fill size)
    (room : base.length + appendIndex chunk ≤ size) :
    Reserved k history a chunk base w h' where
  held := ⟨blk, taken, content ▸ start⟩
  capacity other atAddr := by
    rw [taken, Option.some.injEq] at atAddr
    rw [← atAddr, content, garbage_length]
    exact room
  apart equal := own.held.allocated (equal ▸ free)
  avoids := committed.avoids_free free
  committed := committed.frame_allocated fun c allocated => same c fun equal => allocated (equal ▸ free)
  data := own.held.frame same fun equal => own.held.allocated (equal ▸ free)

theorem garbage_isPrefix (fill : Nat → Byte) (le : n ≤ size) :
    garbage fill n <+: garbage fill size := by
  obtain ⟨more, rfl⟩ := Nat.exists_eq_add_of_le le
  simp only [garbage, List.range_add, List.map_append]
  exact List.prefix_append _ _

theorem reserve_granted (models : Models k j) (own : Private k a chunk)
    (ok : env.buffer.ok = true) (fits : j.request chunk ≤ kmallocMax) :
    ∃ w h', reserve env k.dev chunk.length (appendIndex chunk) k.heap = some (some w, h') ∧
      Reserved k j.history a chunk (j.pending.base env.buffer.fill) w h' := by
  have size := models.writeBufferSize
  have assembled := models.assembled
  have committed := models.committed
  cases kind : j.pending with
  | held bytes =>
    simp only [kind, Pending.size] at size
    simp only [Journal.request, kind, Pending.size] at fits
    rw [kind] at assembled
    by_cases first : bytes = []
    · rw [first, List.length_nil] at size
      rw [first, List.length_nil, if_pos rfl] at fits
      obtain ⟨w, h', granted, free, same, blk, taken, content⟩ :=
        kmalloc_granted (h := k.heap) ok fits
      refine ⟨w, h', ?_, reserved_fresh committed own free same taken content _ ?_ ?_⟩
      · rw [reserve, if_pos size, granted]
      · simp [Pending.base, first]
      · simpa [Pending.base, first] using appendIndex_le chunk
    · obtain ⟨w, points, held, avoids⟩ := assembled.2 first
      have positive : bytes.length ≠ 0 := by simpa using first
      rw [if_neg positive] at fits
      obtain ⟨target, h', granted, place, held', capacity, others, _⟩ :=
        krealloc_granted ok fits held (Nat.le_add_left _ _)
      have notOwn : a ≠ w := by
        intro equal
        exact own.unassembled (by omega) (equal ▸ points)
      have apart : target ≠ a := by
        rcases place with same | free
        · exact same ▸ notOwn.symm
        · exact fun equal => own.held.allocated (equal ▸ free)
      have targetAvoids : k.dev.buffer.Avoids target := by
        rcases place with same | free
        · exact same ▸ avoids
        · exact committed.avoids_free free
      refine ⟨target, h', ?_, held', ?_, apart, targetAvoids, ?_, ?_⟩
      · rw [reserve, if_neg (by omega), points, size]
        exact granted
      · intro blk atAddr
        rw [capacity blk atAddr]
        exact Nat.le_of_eq (Nat.add_comm _ _)
      · exact committed.frame fun c points' => others c (fun equal => points' (equal ▸ avoids))
          (fun equal => points' (equal ▸ targetAvoids))
      · exact own.held.congr (others a notOwn apart.symm)
  | lost count =>
    simp only [kind, Pending.size] at size
    rw [kind] at assembled
    obtain ⟨positive, _, _, points⟩ := assembled
    simp only [Journal.request, kind, Pending.size, if_neg (Nat.ne_of_gt positive)] at fits
    obtain ⟨w, h', granted, free, same, blk, taken, content⟩ :=
      kmalloc_granted (h := k.heap) ok fits
    refine ⟨w, h', ?_, reserved_fresh committed own free same taken content _ ?_ ?_⟩
    · rw [reserve, if_neg (by omega), points, size, krealloc_null, granted]
    · exact garbage_isPrefix _ (Nat.le_add_left _ _)
    · simp [Pending.base, Nat.add_comm]

theorem reserve_refused (models : Models k j)
    (refused : ¬(env.buffer.ok = true ∧ j.request chunk ≤ kmallocMax)) :
    reserve env k.dev chunk.length (appendIndex chunk) k.heap = some (none, k.heap) := by
  have size := models.writeBufferSize
  have assembled := models.assembled
  by_cases first : j.pending.size = 0
  · rw [Journal.request, if_pos first] at refused
    rw [reserve, if_pos (size.trans first), kmalloc_refused refused]
  · rw [Journal.request, if_neg first] at refused
    rw [reserve, if_neg (by omega), size]
    cases kind : j.pending with
    | held bytes =>
      rw [kind] at assembled
      have nonempty : bytes ≠ [] := by
        intro empty
        simp [kind, Pending.size, empty] at first
      obtain ⟨w, points, held, _⟩ := assembled.2 nonempty
      rw [points, ← kind]
      exact krealloc_refused refused held
    | lost count =>
      rw [kind] at assembled
      rw [assembled.2.2.2, ← kind, krealloc_null, kmalloc_refused refused]

/-- Giving up the private block leaves what the ring and the line refer to. -/
theorem Private.release (own : Private k a chunk) :
    ∃ h', kfree (some a) k.heap = some h' ∧ h'.block a = none ∧ k.heap.SameBut a h' := by
  refine ⟨k.heap.erase a, kfree_allocated own.held.allocated, by simp, ?_⟩
  exact Heap.sameBut_erase k.heap a

theorem aesdWriteLocked_refused (models : Models k j) (own : Private k a chunk) (fpos : Int)
    (refused : ¬(env.buffer.ok = true ∧ j.request chunk ≤ kmallocMax)) :
    ∃ r, aesdWriteLocked env (some a) chunk.length fpos k = some r ∧
      r.Refines ⟨-enomem, fpos, [], { j with pending := j.pending.forget }⟩ := by
  obtain ⟨h', freed, _, same⟩ := own.release
  have reserved := reserve_refused models refused
  refine ⟨⟨-enomem, fpos, [], ⟨h', { k.dev with lock := false, writeBuffer := none }⟩⟩, ?_, rfl, rfl,
    rfl, ?_⟩
  · change reserve env { k.dev with lock := true } chunk.length (appendIndex chunk) k.heap = _
      at reserved
    simp only [aesdWriteLocked, mutexLock, models.free, Bool.false_eq_true, if_false,
      Option.bind_eq_bind, Option.bind_some, Heap.load_all own.held, reserved, freed]
    rfl
  · constructor
    · rfl
    · exact models.committed.frame fun c points => same c fun equal => points (equal ▸ own.avoids)
    · have size := models.writeBufferSize
      have le := models.pending_le
      change Assembled _ _ j.pending.forget
      unfold Pending.forget
      split
      · rename_i none
        exact ⟨size.trans none, by simp⟩
      · rename_i some
        exact ⟨Nat.pos_of_ne_zero some, le, size, rfl⟩
    · exact models.buffSize

/-- The line after the chunk is appended, not yet committed. -/
structure Appended (k : Kernel) (history : List (List Byte)) (a w : Nat) (chunk line : List Byte)
    (k' : Kernel) : Prop where
  dev : k'.dev =
    { k.dev with lock := true, writeBuffer := some w, writeBufferSize := line.length }
  committed : Committed k'.heap k'.dev.buffer history
  held : k'.heap.Holds w line
  avoids : k'.dev.buffer.Avoids w
  own : Private k' a chunk

/-- Up to the test for the newline, a granted call only extends the line. -/
theorem aesdWriteLocked_append (models : Models k j) (own : Private k a chunk) (fpos : Int)
    (ok : env.buffer.ok = true) (fits : j.request chunk ≤ kmallocMax) :
    ∃ w k', Appended k j.history a w chunk
        (j.pending.base env.buffer.fill ++ Delimited.cut newline chunk) k' ∧
      aesdWriteLocked env (some a) chunk.length fpos k = (do
        let k ← commitIf (decide (newline ∈ chunk)) k'
        let heap ← kfree (some a) k.heap
        some ⟨appendIndex chunk, fpos + appendIndex chunk, [], ⟨heap, mutexUnlock k.dev⟩⟩) := by
  obtain ⟨w, h', reserved, room⟩ := reserve_granted models own ok fits
  have size := models.writeBufferSize
  have source : h'.load (some a) 0 (appendIndex chunk) = some (Delimited.cut newline chunk) := by
    rw [Heap.load_holds room.data (by simpa using appendIndex_le chunk), List.drop_zero,
      take_appendIndex]
  have enough : ∀ blk, h'.block w = some blk → (j.pending.base env.buffer.fill).length +
      (Delimited.cut newline chunk).length ≤ blk.data.length := by
    simpa only [appendIndex_eq] using room.capacity
  obtain ⟨h'', copied, held, same⟩ := memcpy_holds room.held enough
  have length : (j.pending.base env.buffer.fill ++ Delimited.cut newline chunk).length =
      k.dev.writeBufferSize + appendIndex chunk := by
    rw [List.length_append, Pending.base_length, appendIndex_eq, size]
  refine ⟨w, ⟨h'', { k.dev with
    lock := true
    writeBuffer := some w
    writeBufferSize := k.dev.writeBufferSize + appendIndex chunk }⟩, ?_, ?_⟩
  · constructor
    · rw [length]
    · exact room.committed.frame fun c points => same c fun equal => points (equal ▸ room.avoids)
    · exact held
    · exact room.avoids
    · exact ⟨room.data.frame same (Ne.symm room.apart), own.avoids,
        fun _ equal => room.apart (Option.some.inj equal)⟩
  · change reserve env { k.dev with lock := true } chunk.length (appendIndex chunk) k.heap = _
      at reserved
    rw [Pending.base_length, ← size] at copied
    simp only [aesdWriteLocked, mutexLock, models.free, Bool.false_eq_true, if_false,
      Option.bind_eq_bind, Option.bind_some, Heap.load_all own.held, reserved, source, copied,
      scanNewline_found]

theorem sizeT_add_sizeT (a b : Nat) : sizeT (sizeT a + b) = sizeT (a + b) := by
  unfold sizeT
  omega

theorem aesdWriteLocked_granted (models : Models k j) (own : Private k a chunk) (fpos : Int)
    (ok : env.buffer.ok = true) (fits : j.request chunk ≤ kmallocMax) :
    ∃ r, aesdWriteLocked env (some a) chunk.length fpos k = some r ∧
      r.Refines ⟨appendIndex chunk, fpos + appendIndex chunk, [],
        j.accept env.buffer.fill chunk⟩ := by
  obtain ⟨w, k', appended, body⟩ := aesdWriteLocked_append models own fpos ok fits
  have dev := appended.dev
  by_cases ends : newline ∈ chunk
  · have nonempty : j.pending.base env.buffer.fill ++ Delimited.cut newline chunk ≠ [] := by
      have member := (Delimited.mem_cut (d := newline) chunk).mpr ends
      exact List.append_ne_nil_of_right_ne_nil _ (List.ne_nil_of_mem member)
    obtain ⟨k'', stored, committed, size, _, buffSize, kept⟩ := appended.committed.commit
      (by rw [dev]) (by rw [dev]) appended.held appended.avoids nonempty
    have notLine : a ≠ w := by
      intro equal
      exact appended.own.unassembled (by rw [dev]; exact List.length_eq_zero_iff.not.mpr nonempty)
        (by rw [dev, equal])
    obtain ⟨sameBlock, avoids⟩ := kept a appended.own.avoids
    have own' : Private k'' a chunk := by
      refine ⟨appended.own.held.congr sameBlock, avoids notLine, ?_⟩
      simp [size]
    obtain ⟨h', freed, _, same⟩ := own'.release
    refine ⟨⟨appendIndex chunk, fpos + appendIndex chunk, [], ⟨h', mutexUnlock k''.dev⟩⟩, ?_,
      rfl, rfl, rfl, ?_⟩
    · rw [body, commitIf, if_pos (by simpa using ends), stored]
      simp only [Option.bind_eq_bind, Option.bind_some, freed]
    · simp only [Journal.accept, if_pos ends]
      constructor
      · rfl
      · exact committed.frame fun c points => same c fun equal => points (equal ▸ own'.avoids)
      · exact ⟨size, by simp⟩
      · change k''.dev.buffSize = _
        rw [buffSize, dev]
        simp only [models.buffSize, sizeT_add_sizeT, Journal.totalSize, List.flatten_append,
          List.length_append, List.flatten_singleton]
  · obtain ⟨h', freed, _, same⟩ := appended.own.release
    refine ⟨⟨appendIndex chunk, fpos + appendIndex chunk, [], ⟨h', mutexUnlock k'.dev⟩⟩, ?_,
      rfl, rfl, rfl, ?_⟩
    · rw [body, commitIf, if_neg (by simpa using ends)]
      simp only [Option.bind_eq_bind, Option.bind_some, freed]
    · simp only [Journal.accept, if_neg ends]
      constructor
      · rfl
      · exact appended.committed.frame fun c points =>
          same c fun equal => points (equal ▸ appended.own.avoids)
      · refine ⟨by simp [mutexUnlock, dev], fun nonempty => ⟨w, by simp [mutexUnlock, dev], ?_, ?_⟩⟩
        · refine appended.held.frame same fun equal => ?_
          exact appended.own.unassembled
            (by rw [dev]; exact List.length_eq_zero_iff.not.mpr nonempty) (by rw [dev, equal])
        · exact appended.avoids
      · simpa [mutexUnlock, dev, Journal.totalSize] using models.buffSize

theorem Models.writeBuffer_allocated (models : Models k j) (size : k.dev.writeBufferSize ≠ 0)
    (points : k.dev.writeBuffer = some w) : k.heap.block w ≠ none := by
  have assembled := models.assembled
  cases kind : j.pending with
  | held bytes =>
    rw [kind] at assembled
    have nonempty : bytes ≠ [] := fun empty => size (by simpa [empty] using assembled.1)
    obtain ⟨w', points', held, _⟩ := assembled.2 nonempty
    rw [points, Option.some.injEq] at points'
    exact points' ▸ held.allocated
  | lost count =>
    rw [kind] at assembled
    simp [assembled.2.2.2] at points

/-- The private copy of the user's bytes lies in a new block; nothing else is touched. -/
structure Copied (k : Kernel) (grant : Grant) (chunk : List Byte) (a : Nat) (h₁ h₂ : Heap) :
    Prop where
  taken : kmalloc grant chunk.length k.heap = (some a, h₁)
  free : k.heap.block a = none
  fresh : k.heap.SameBut a h₁
  allocated : h₁.block a ≠ none
  copied : memcpy (some a) 0 chunk h₁ = some h₂
  same : k.heap.SameBut a h₂
  own : Private { k with heap := h₂ } a chunk

theorem Models.copied (models : Models k j) (ok : grant.ok = true) (fits : chunk.length ≤ kmallocMax) :
    ∃ a h₁ h₂, Copied k grant chunk a h₁ h₂ := by
  obtain ⟨a, h₁, allocated, free, same, blk, taken, content⟩ := kmalloc_granted (h := k.heap) ok fits
  have room : ∀ other, h₁.block a = some other → ([] : List Byte).length + chunk.length ≤
      other.data.length := by
    intro other atAddr
    rw [taken, Option.some.injEq] at atAddr
    simp [← atAddr, content]
  have start : h₁.Holds a [] := ⟨blk, taken, List.nil_prefix⟩
  obtain ⟨h₂, copied, held, same'⟩ := memcpy_holds start room
  refine ⟨a, h₁, h₂, allocated, free, same, by simp [taken], copied, ?_, held,
    models.committed.avoids_free free, ?_⟩
  · intro c different
    rw [same' c different, same c different]
  · exact fun size points => models.writeBuffer_allocated size points free

theorem Models.after_copy (models : Models k j) (copied : Copied k grant chunk a h₁ h₂) :
    Models { k with heap := h₂ } j :=
  models.frame fun c used => copied.same c fun equal => used (equal ▸ copied.free)

theorem Copied.write_locked (copy : Copied k env.data chunk a h₁ h₂) (copied : env.copied = true)
    (locked : env.locked = true) (fpos : Int) :
    aesdWrite env true (some chunk) fpos k =
      aesdWriteLocked env (some a) chunk.length fpos { k with heap := h₂ } := by
  simp only [aesdWrite, copy.taken, if_pos copied, copy.copied, Option.bind_eq_bind,
    Option.bind_some, if_pos locked]

theorem Copied.write_interrupted (copy : Copied k env.data chunk a h₁ h₂)
    (copied : env.copied = true) (locked : ¬env.locked = true) (fpos : Int) :
    aesdWrite env true (some chunk) fpos k =
      some ⟨-erestartsys, fpos, [], { k with heap := h₂ }⟩ := by
  simp only [aesdWrite, copy.taken, if_pos copied, copy.copied, Option.bind_eq_bind,
    Option.bind_some, if_neg locked]

theorem Copied.write_faulted (copy : Copied k env.data chunk a h₁ h₂)
    (copied : ¬env.copied = true) (fpos : Int) :
    aesdWrite env true (some chunk) fpos k =
      some ⟨-efault, fpos, [], { k with heap := h₁.erase a }⟩ := by
  simp only [aesdWrite, copy.taken, if_neg copied, kfree_allocated copy.allocated,
    Option.bind_eq_bind, Option.bind_some]

/-- `aesd_write` is `Journal.write`, whatever fails. -/
theorem aesdWrite_refines (models : Models k j) (env : WriteEnv) (filp : Bool)
    (buf : Option (List Byte)) (fpos : Int) :
    ∃ r, aesdWrite env filp buf fpos k = some r ∧ r.Refines (j.write env filp buf fpos) := by
  rcases filp with _ | _
  · exact ⟨_, rfl, rfl, rfl, rfl, models⟩
  rcases buf with _ | chunk
  · exact ⟨_, rfl, rfl, rfl, rfl, models⟩
  by_cases granted : env.data.ok = true ∧ chunk.length ≤ kmallocMax
  · obtain ⟨a, h₁, h₂, copy⟩ := models.copied granted.1 granted.2
    have next := models.after_copy copy
    have own := copy.own
    by_cases copied : env.copied = true
    · by_cases locked : env.locked = true
      · have body := copy.write_locked copied locked fpos
        by_cases enlarged : env.buffer.ok = true ∧ j.request chunk ≤ kmallocMax
        · obtain ⟨r, result, refines⟩ :=
            aesdWriteLocked_granted next own fpos enlarged.1 enlarged.2
          refine ⟨r, body.trans result, ?_⟩
          simpa [Journal.write, granted, copied, locked, enlarged] using refines
        · obtain ⟨r, result, refines⟩ := aesdWriteLocked_refused next own fpos enlarged
          refine ⟨r, body.trans result, ?_⟩
          simpa only [Journal.write, granted, copied, locked, enlarged, not_true_eq_false, and_self,
            not_false_eq_true, if_true, if_false] using refines
      · refine ⟨_, copy.write_interrupted copied locked fpos, ?_⟩
        simp only [Journal.write, granted, copied, locked, not_true_eq_false, and_self, if_false]
        exact ⟨rfl, rfl, rfl, next⟩
    · refine ⟨_, copy.write_faulted copied fpos, ?_⟩
      simp only [Journal.write, granted, copied, not_true_eq_false, and_self, if_false]
      exact ⟨rfl, rfl, rfl, models.frame fun c _ => by rw [erase_taken copy.free copy.fresh]⟩
  · refine ⟨⟨-enomem, fpos, [], k⟩, ?_, ?_⟩
    · simp only [aesdWrite, kmalloc_refused granted]
    · simp only [Journal.write, granted, not_false_eq_true, if_true]
      exact ⟨rfl, rfl, rfl, models⟩

end Write

end Aesd
