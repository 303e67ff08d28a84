import Aesd.DeviceRefinement
import Aesd.RingQueue

/-! Ownership of the driver's memory. Passing a pointer to `kfree` or `krealloc` that is not
NULL and no allocated block is a fault, so a run without a fault frees no block twice. -/
namespace Aesd

variable {k : Kernel} {j : Journal} {b : CircularBuffer} {h h' : Heap}

theorem kfree_eq_some_iff : kfree (some a) h = some h' ↔ h.block a ≠ none ∧ h' = h.erase a := by
  constructor
  · intro freed
    by_cases allocated : h.block a = none
    · simp [kfree, allocated] at freed
    · rw [kfree_allocated allocated, Option.some.injEq] at freed
      exact ⟨allocated, freed.symm⟩
  · rintro ⟨allocated, rfl⟩
    exact kfree_allocated allocated

/-- Each live entry owns an allocated block that its bytes fit in, and an unfinished line
that still has its buffer owns another one. -/
structure Sound (k : Kernel) : Prop where
  free : k.dev.lock = false
  entries : ∀ e ∈ k.dev.buffer.live, 1 ≤ e.size ∧
    ∃ a blk, e.buffptr = some a ∧ k.heap.block a = some blk ∧ e.size ≤ blk.data.length
  distinct : ∀ i i' (bound : i < k.dev.buffer.live.length) (bound' : i' < k.dev.buffer.live.length),
    k.dev.buffer.live[i].buffptr = k.dev.buffer.live[i'].buffptr → i = i'
  writeBuffer : 0 < k.dev.writeBufferSize → ∀ w, k.dev.writeBuffer = some w →
    (∃ blk, k.heap.block w = some blk ∧ k.dev.writeBufferSize ≤ blk.data.length) ∧
    ∀ e ∈ k.dev.buffer.live, e.buffptr ≠ some w

theorem Heap.Holds.capacity (held : h.Holds a bytes) :
    ∃ blk, h.block a = some blk ∧ bytes.length ≤ blk.data.length := by
  obtain ⟨blk, atAddr, start⟩ := held
  exact ⟨blk, atAddr, start.length_le⟩

theorem Models.writeBuffer_held (models : Models k j) (size : k.dev.writeBufferSize ≠ 0)
    (points : k.dev.writeBuffer = some w) :
    ∃ bytes, k.dev.writeBufferSize = bytes.length ∧ k.heap.Holds w bytes ∧ k.dev.buffer.Avoids w := by
  have assembled := models.assembled
  cases kind : j.pending with
  | held bytes =>
    rw [kind] at assembled
    have some : bytes ≠ [] := by
      rintro rfl
      exact size assembled.1
    obtain ⟨w', points', held, avoids⟩ := assembled.2 some
    rw [points, Option.some.injEq] at points'
    subst points'
    exact ⟨bytes, assembled.1, held, avoids⟩
  | lost count =>
    rw [kind] at assembled
    rw [assembled.2.2.2] at points
    contradiction

theorem CircularBuffer.mem_live (member : e ∈ b.live) : ∃ i < b.count, e = b.get ((b.outOffs + i) % 10) := by
  obtain ⟨i, bound, rfl⟩ := List.mem_map.mp member
  exact ⟨i, List.mem_range.mp bound, rfl⟩

theorem Models.sound (models : Models k j) : Sound k where
  free := models.free
  entries e member := by
    obtain ⟨i, alive, rfl⟩ := CircularBuffer.mem_live member
    obtain ⟨inside, a, points, size, held⟩ := models.committed.live_stored i alive
    obtain ⟨blk, atAddr, fits⟩ := held.capacity
    have nonempty := (models.committed.commands _ (List.getElem_mem inside)).1
    have positive := List.length_pos_of_ne_nil nonempty
    exact ⟨by omega, a, blk, points, atAddr, by omega⟩
  distinct i i' bound bound' same := by
    rw [CircularBuffer.live_getElem, CircularBuffer.live_getElem] at same
    rw [CircularBuffer.live_length] at bound bound'
    obtain ⟨_, a, points, _⟩ := models.committed.live_stored i bound
    have slot := models.committed.apart _ _ a points (same ▸ points)
    exact slot_injective k.dev.buffer bound bound' slot
  writeBuffer size w points := by
    obtain ⟨bytes, length, held, avoids⟩ := models.writeBuffer_held (Nat.ne_of_gt size) points
    obtain ⟨blk, atAddr, fits⟩ := held.capacity
    refine ⟨⟨blk, atAddr, by omega⟩, ?_⟩
    intro e member
    obtain ⟨i, _, rfl⟩ := CircularBuffer.mem_live member
    exact avoids _

section Cleanup

/-- Freeing the blocks of the slots from `index` on: the induction is on the slots left, and
`apart` keeps the later ones allocated. -/
theorem freeEntries_spec (b : CircularBuffer)
    (apart : ∀ i i' a, (b.get i).buffptr = some a → (b.get i').buffptr = some a → i = i')
    (rounds index : Nat)
    (allocated : ∀ i, index ≤ i → ∀ a, (b.get i).buffptr = some a → h.block a ≠ none) :
    ∃ h', freeEntries b rounds index h = some h' ∧ ∀ c, h'.block c ≠ none ↔
      h.block c ≠ none ∧ ∀ i, index ≤ i → i < index + rounds → (b.get i).buffptr ≠ some c := by
  induction rounds generalizing index h with
  | zero =>
    refine ⟨h, rfl, fun c => ⟨fun used => ⟨used, ?_⟩, And.left⟩⟩
    intro i above below
    omega
  | succ rounds ih =>
    cases points : (b.get index).buffptr with
    | none =>
      obtain ⟨h', freed, left⟩ := ih (index + 1) fun i above => allocated i (by omega)
      refine ⟨h', ?_, ?_⟩
      · simp only [freeEntries, points, kfree_null, Option.bind_eq_bind, Option.bind_some, freed]
      · intro c
        rw [left c]
        refine and_congr_right fun _ => ⟨?_, fun all i above below => all i (by omega) (by omega)⟩
        intro later i above below
        by_cases here : i = index
        · rw [here, points]
          simp
        · exact later i (by omega) (by omega)
    | some a =>
      have others : ∀ i, index + 1 ≤ i → ∀ c, (b.get i).buffptr = some c →
          (h.erase a).block c ≠ none := by
        intro i above c atSlot
        have different : c ≠ a := by
          rintro rfl
          have same := apart i index c atSlot points
          omega
        rw [Heap.block_erase, if_neg different]
        exact allocated i (by omega) c atSlot
      obtain ⟨h', freed, left⟩ := ih (index + 1) others
      refine ⟨h', ?_, ?_⟩
      · simp only [freeEntries, points, kfree_allocated (allocated index (Nat.le_refl _) a points),
          Option.bind_eq_bind, Option.bind_some, freed]
      · intro c
        rw [left c, Heap.block_erase]
        constructor
        · rintro ⟨used, later⟩
          have different : c ≠ a := by
            rintro rfl
            exact used (if_pos rfl)
          rw [if_neg different] at used
          refine ⟨used, ?_⟩
          intro i above below
          by_cases here : i = index
          · rw [here, points, ne_eq, Option.some.injEq]
            exact different.symm
          · exact later i (by omega) (by omega)
        · rintro ⟨used, all⟩
          have different : c ≠ a := by
            rintro rfl
            exact all index (Nat.le_refl _) (by omega) points
          rw [if_neg different]
          exact ⟨used, fun i above below => all i (by omega) (by omega)⟩

/-- Unloading the module frees the blocks of the entries, each once, and no other. -/
theorem Models.cleanup (models : Models k j) :
    ∃ k', aesdCleanupModule k = some k' ∧
      ∀ c, k'.heap.block c ≠ none ↔ k.heap.block c ≠ none ∧ k.dev.buffer.Avoids c := by
  have committed := models.committed
  obtain ⟨h', freed, left⟩ := freeEntries_spec (h := k.heap) k.dev.buffer committed.apart 10 0 (by
    intro i _ a points
    obtain ⟨_, command, held⟩ := committed.points points
    exact held.allocated)
  refine ⟨{ k with heap := h' }, ?_, ?_⟩
  · simp only [aesdCleanupModule, maxWriteOperations, freed, Option.bind_eq_bind, Option.bind_some]
  · intro c
    rw [left c]
    refine and_congr_right fun _ => ⟨?_, fun avoids i _ _ => avoids i⟩
    intro outside i points
    have slot := (committed.points points).1
    exact outside i (Nat.zero_le _) (by omega) points

end Cleanup

/-- No run of file operations, whatever fails in it, and no clean-up after it faults, and
between the calls every block has one owner. -/
theorem memory_sound (seek : Int → Int → Int → Int → Int) (calls : List Call) :
    ∃ d replies, Transition.execute (perform seek) calls Driver.initial = some (d, replies) ∧
      Sound d.kernel ∧ ∃ k, aesdCleanupModule d.kernel = some k := by
  obtain ⟨d, l, replies, run, _, represents⟩ := run_total seek calls initial_represents
  obtain ⟨k, cleaned, _⟩ := represents.models.cleanup
  exact ⟨d, replies, run, represents.models.sound, k, cleaned⟩

end Aesd
