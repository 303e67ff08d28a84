import Aesd.Chunking
import Aesd.Ownership

/-! Leaks of the driver: a block that neither a slot nor the unfinished line refers to is
never freed. Such blocks come from three kinds of calls, and unloading the module in the
middle of a line leaves the line's block. -/
namespace Aesd

variable {k k' : Kernel} {j : Journal} {b : CircularBuffer} {h h' : Heap} {env : WriteEnv}
  {chunk : List Byte} {a w n : Nat}

section Blocks

theorem memcpy_allocated (copied : memcpy p offset bytes h = some h') (c : Nat) :
    h'.block c ≠ none ↔ h.block c ≠ none := by
  simp only [memcpy, Option.bind_eq_bind, Option.bind_eq_some_iff] at copied
  obtain ⟨a, _, blk, atAddr, written⟩ := copied
  split at written
  · rw [Option.some.injEq] at written
    subst written
    rw [Heap.block_put]
    by_cases same : c = a
    · simp [same, atAddr]
    · rw [if_neg same]
  · contradiction

theorem kmalloc_allocated (taken : kmalloc g size h = (some a, h')) :
    h.block a = none ∧ ∀ c, h'.block c ≠ none ↔ c = a ∨ h.block c ≠ none := by
  unfold kmalloc at taken
  split at taken
  · simp only [Prod.mk.injEq, Option.some.injEq] at taken
    obtain ⟨rfl, rfl⟩ := taken
    refine ⟨h.fresh_free _, ?_⟩
    intro c
    rw [Heap.block_put]
    by_cases same : c = h.fresh g.addr
    · simp [same]
    · simp [same]
  · simp at taken

theorem krealloc_allocated (taken : krealloc g (some a) size h = some (some w, h')) :
    (w = a ∨ h.block w = none) ∧ ∀ c, h'.block c ≠ none ↔ c = w ∨ (c ≠ a ∧ h.block c ≠ none) := by
  simp only [krealloc, Option.bind_eq_bind, Option.bind_eq_some_iff] at taken
  obtain ⟨old, atAddr, taken⟩ := taken
  split at taken
  · simp only [Option.some.injEq, Prod.mk.injEq] at taken
    obtain ⟨target, rfl⟩ := taken
    rw [target]
    constructor
    · rw [← target]
      split
      · exact .inl rfl
      · exact .inr (h.fresh_free _)
    · intro c
      rw [Heap.block_put, Heap.block_erase]
      by_cases new : c = w
      · simp [new]
      · by_cases old : c = a
        · simp [old]
        · simp [new, old]
  · simp at taken

end Blocks

structure Stray (k : Kernel) (c : Nat) : Prop where
  allocated : k.heap.block c ≠ none
  avoided : k.dev.buffer.Avoids c
  unassembled : ¬(k.dev.writeBufferSize ≠ 0 ∧ k.dev.writeBuffer = some c)

/-- From its lock on, a write drops the buffer of the line when that cannot be enlarged, and
takes a new empty buffer for a line that stays empty. -/
def DropsBuffer (env : WriteEnv) (k : Kernel) (chunk : List Byte) : Prop :=
  k.dev.writeBufferSize ≠ 0 ∧ k.dev.writeBuffer ≠ none ∧
      ¬(env.buffer.ok = true ∧ k.request chunk ≤ kmallocMax) ∨
    k.dev.writeBufferSize = 0 ∧ chunk = [] ∧ env.buffer.ok = true

/-- A write that gets its copy of the data leaks when the wait for the lock is interrupted,
or when it drops a buffer. -/
def Leaks (c : Call) (k : Kernel) : Prop :=
  match c with
  | .write _ env true (some chunk) =>
    env.data.ok = true ∧ chunk.length ≤ kmallocMax ∧ env.copied = true ∧
      (env.locked = true → DropsBuffer env k chunk)
  | _ => False

section Locked

theorem freeOldest_allocated (ring : b.Ring n) (freed : freeOldest b h = some h') (c : Nat) :
    h'.block c ≠ none ↔ h.block c ≠ none ∧ (b.get (n % 10)).buffptr ≠ some c := by
  unfold freeOldest at freed
  by_cases full : b.full = true
  · rw [if_pos full, ring.inOffs] at freed
    cases points : (b.get (n % 10)).buffptr with
    | none =>
      rw [points, kfree_null, Option.some.injEq] at freed
      simp [freed]
    | some o =>
      rw [points] at freed
      obtain ⟨_, rfl⟩ := kfree_eq_some_iff.mp freed
      rw [Heap.block_erase]
      by_cases same : c = o
      · simp [same]
      · simp [same, Ne.symm same]
  · rw [if_neg full, Option.some.injEq] at freed
    have room : ¬10 ≤ n := by
      rw [ring.full, decide_eq_true_eq] at full
      exact full
    have empty : (b.get (n % 10)).buffptr = none := by
      rw [ring.unused (n % 10) (by omega)]
      rfl
    simp [freed, empty]

theorem commit_stray (ring : k.dev.buffer.Ring n) (size : k.dev.writeBufferSize ≠ 0)
    (stored : commit k = some k') (c : Nat) :
    Stray k' c ↔ Stray k c := by
  simp only [commit, Option.bind_eq_bind, Option.bind_eq_some_iff, Option.some.injEq] at stored
  obtain ⟨h', freed, rfl⟩ := stored
  have allocated := freeOldest_allocated ring freed c
  have get := clearOldest_add_get ring ⟨k.dev.writeBuffer, k.dev.writeBufferSize⟩
  constructor
  · rintro ⟨used, avoided, _⟩
    obtain ⟨used, notOldest⟩ := allocated.mp used
    have slots := fun i => avoided i
    simp only [get] at slots
    refine ⟨used, ?_, ?_⟩
    · intro i atSlot
      by_cases newest : i = n % 10
      · exact notOldest (newest ▸ atSlot)
      · have other := slots i
        rw [if_neg newest] at other
        exact other atSlot
    · rintro ⟨_, line⟩
      have newest := slots (n % 10)
      rw [if_pos rfl] at newest
      exact newest line
  · rintro ⟨used, avoided, unassembled⟩
    refine ⟨allocated.mpr ⟨used, avoided _⟩, ?_, ?_⟩
    · intro i
      simp only [get]
      split
      · exact fun line => unassembled ⟨size, line⟩
      · exact avoided i
    · rintro ⟨nonzero, _⟩
      exact nonzero rfl

structure Reserves (k : Kernel) (w : Nat) (h' : Heap) : Prop where
  place : k.heap.block w = none ∨ (k.dev.writeBufferSize ≠ 0 ∧ k.dev.writeBuffer = some w)
  allocated : ∀ c, h'.block c ≠ none ↔ c = w ∨
    (k.heap.block c ≠ none ∧ ¬(k.dev.writeBufferSize ≠ 0 ∧ k.dev.writeBuffer = some c))

theorem reserve_reserves (result : reserve env k.dev count append k.heap = some (some w, h')) :
    Reserves k w h' := by
  unfold reserve at result
  by_cases first : k.dev.writeBufferSize = 0
  · rw [if_pos first, Option.some.injEq] at result
    obtain ⟨free, allocated⟩ := kmalloc_allocated result
    refine ⟨.inl free, ?_⟩
    intro c
    simp [allocated c, first]
  · rw [if_neg first] at result
    cases points : k.dev.writeBuffer with
    | none =>
      rw [points, krealloc_null, Option.some.injEq] at result
      obtain ⟨free, allocated⟩ := kmalloc_allocated result
      refine ⟨.inl free, ?_⟩
      intro c
      simp [allocated c, points]
    | some old =>
      rw [points] at result
      obtain ⟨place, allocated⟩ := krealloc_allocated result
      constructor
      · rcases place with same | free
        · exact .inr ⟨first, points.trans (congrArg some same.symm)⟩
        · exact .inl free
      · intro c
        rw [allocated c, points]
        simp only [first, not_false_eq_true, true_and, ne_eq, Option.some.injEq, eq_comm (a := c),
          and_comm]

theorem aesdWriteLocked_cases (held : k.heap.Holds a chunk)
    (result : aesdWriteLocked env (some a) chunk.length fpos k = some r) :
    ∃ p h₁, reserve env k.dev chunk.length (appendIndex chunk) k.heap = some (p, h₁) ∧
      ((p = none ∧ ∃ h₂, kfree (some a) h₁ = some h₂ ∧
          r.kernel = ⟨h₂, { k.dev with lock := false, writeBuffer := none }⟩) ∨
        ∃ w source h₂ k₃ h₄, p = some w ∧
          memcpy (some w) k.dev.writeBufferSize source h₁ = some h₂ ∧
          commitIf (decide (newline ∈ chunk)) ⟨h₂, { k.dev with
            lock := true
            writeBuffer := some w
            writeBufferSize := k.dev.writeBufferSize + appendIndex chunk }⟩ = some k₃ ∧
          kfree (some a) k₃.heap = some h₄ ∧ r.kernel = ⟨h₄, mutexUnlock k₃.dev⟩) := by
  simp only [aesdWriteLocked, Option.bind_eq_bind, Option.bind_eq_some_iff, mutexLock,
    Heap.load_all held, Option.some.injEq, exists_eq_left', scanNewline_found] at result
  obtain ⟨dev, locked, ⟨p, h₁⟩, reserved, rest⟩ := result
  split at locked
  · contradiction
  rw [Option.some.injEq] at locked
  subst locked
  refine ⟨p, h₁, reserved, ?_⟩
  cases p with
  | none =>
    simp only [Option.bind_eq_some_iff, Option.some.injEq] at rest
    obtain ⟨h₂, freed, rfl⟩ := rest
    exact .inl ⟨rfl, h₂, freed, rfl⟩
  | some w =>
    simp only [Option.bind_eq_some_iff, Option.some.injEq] at rest
    obtain ⟨source, _, h₂, copied, k₃, stored, h₄, freed, rfl⟩ := rest
    exact .inr ⟨w, source, h₂, k₃, h₄, rfl, copied, stored, freed, rfl⟩

theorem erase_stray (k : Kernel) (a c : Nat) :
    Stray ⟨k.heap.erase a, mutexUnlock k.dev⟩ c ↔ Stray k c ∧ c ≠ a := by
  constructor
  · rintro ⟨used, avoided, unassembled⟩
    have different : c ≠ a := by
      rintro rfl
      exact used (if_pos rfl)
    rw [Heap.block_erase, if_neg different] at used
    exact ⟨⟨used, avoided, unassembled⟩, different⟩
  · rintro ⟨⟨used, avoided, unassembled⟩, different⟩
    refine ⟨?_, avoided, unassembled⟩
    rw [Heap.block_erase, if_neg different]
    exact used

theorem appendIndex_eq_zero_iff : appendIndex chunk = 0 ↔ chunk = [] := by
  constructor
  · intro zero
    by_contra nonempty
    have := appendIndex_pos nonempty
    omega
  · rintro rfl
    rfl

theorem refused_stray (models : Models k j) (own : Private k a chunk)
    (refused : ¬(env.buffer.ok = true ∧ j.request chunk ≤ kmallocMax))
    (freed : kfree (some a) k.heap = some h') :
    (∀ c, Stray ⟨h', { k.dev with lock := false, writeBuffer := none }⟩ c ↔
      Stray k c ∧ c ≠ a ∨ (k.dev.writeBufferSize ≠ 0 ∧ k.dev.writeBuffer = some c)) ∧
    ((∃ c, k.dev.writeBufferSize ≠ 0 ∧ k.dev.writeBuffer = some c) ↔ DropsBuffer env k chunk) := by
  obtain ⟨_, rfl⟩ := kfree_eq_some_iff.mp freed
  constructor
  · intro c
    constructor
    · rintro ⟨used, avoided, _⟩
      have different : c ≠ a := by
        rintro rfl
        exact used (if_pos rfl)
      rw [Heap.block_erase, if_neg different] at used
      by_cases line : k.dev.writeBufferSize ≠ 0 ∧ k.dev.writeBuffer = some c
      · exact .inr line
      · exact .inl ⟨⟨used, avoided, line⟩, different⟩
    · rintro (⟨⟨used, avoided, _⟩, different⟩ | ⟨size, points⟩)
      · refine ⟨?_, avoided, by simp⟩
        rw [Heap.block_erase, if_neg different]
        exact used
      · obtain ⟨bytes, _, held, avoids⟩ := models.writeBuffer_held size points
        have different : c ≠ a := by
          rintro rfl
          exact own.unassembled size points
        refine ⟨?_, avoids, by simp⟩
        rw [Heap.block_erase, if_neg different]
        exact held.allocated
  · constructor
    · rintro ⟨c, size, points⟩
      left
      refine ⟨size, by simp [points], ?_⟩
      rw [models.request]
      exact refused
    · rintro (⟨size, points, _⟩ | ⟨size, empty, ok⟩)
      · obtain ⟨c, points⟩ := Option.ne_none_iff_exists'.mp points
        exact ⟨c, size, points⟩
      · have small : k.request chunk = 0 := by
          rw [Kernel.request, if_pos size, empty, List.length_nil]
        rw [models.request] at small
        exact absurd ⟨ok, by omega⟩ refused

theorem granted_stray (models : Models k j) (reserves : Reserves k w h₁)
    (same : ∀ c, h₂.block c ≠ none ↔ h₁.block c ≠ none) (lock : Bool) (c : Nat) :
    Stray ⟨h₂, { k.dev with
      lock := lock
      writeBuffer := some w
      writeBufferSize := k.dev.writeBufferSize + appendIndex chunk }⟩ c ↔
    Stray k c ∨ (k.dev.writeBufferSize + appendIndex chunk = 0 ∧ c = w) := by
  constructor
  · rintro ⟨used, avoided, unassembled⟩
    rcases (reserves.allocated c).mp ((same c).mp used) with rfl | ⟨used, line⟩
    · right
      refine ⟨?_, rfl⟩
      by_contra size
      exact unassembled ⟨size, rfl⟩
    · exact .inl ⟨used, avoided, line⟩
  · rintro (⟨used, avoided, line⟩ | ⟨size, rfl⟩)
    · refine ⟨(same c).mpr ((reserves.allocated c).mpr (.inr ⟨used, line⟩)), avoided, ?_⟩
      rintro ⟨_, points⟩
      obtain rfl := Option.some.inj points
      rcases reserves.place with free | pending
      · exact used free
      · exact line pending
    · refine ⟨(same c).mpr ((reserves.allocated c).mpr (.inl rfl)), ?_, fun ⟨nonzero, _⟩ => nonzero size⟩
      rcases reserves.place with free | ⟨nonzero, points⟩
      · exact models.committed.avoids_free free
      · obtain ⟨_, _, _, avoids⟩ := models.writeBuffer_held nonzero points
        exact avoids

/-- From its lock on, a write leaves a block behind exactly when it drops a buffer; its own
copy of the data is freed. -/
theorem aesdWriteLocked_stray (models : Models k j) (own : Private k a chunk)
    (result : aesdWriteLocked env (some a) chunk.length fpos k = some r) :
    ∃ New : Nat → Prop, (∀ c, Stray r.kernel c ↔ Stray k c ∧ c ≠ a ∨ New c) ∧
      ((∃ c, New c) ↔ DropsBuffer env k chunk) := by
  obtain ⟨p, h₁, reserved, steps⟩ := aesdWriteLocked_cases own.held result
  by_cases granted : env.buffer.ok = true ∧ j.request chunk ≤ kmallocMax
  · obtain ⟨w, h', reserved', _⟩ := reserve_granted models own granted.1 granted.2
    rw [reserved, Option.some.injEq, Prod.mk.injEq] at reserved'
    obtain ⟨rfl, rfl⟩ := reserved'
    rcases steps with ⟨none, _⟩ | ⟨w', source, h₂, k₃, h₄, line, copied, stored, freed, kernel⟩
    · contradiction
    obtain rfl := Option.some.inj line
    have reserves := reserve_reserves reserved
    obtain ⟨_, rfl⟩ := kfree_eq_some_iff.mp freed
    have apart : w ≠ a := by
      rintro rfl
      rcases reserves.place with free | ⟨nonzero, points⟩
      · exact own.held.allocated free
      · exact own.unassembled nonzero points
    have committed : ∀ c, Stray k₃ c ↔
        Stray k c ∨ (k.dev.writeBufferSize + appendIndex chunk = 0 ∧ c = w) := by
      intro c
      rw [← granted_stray models reserves (memcpy_allocated copied) true c]
      unfold commitIf at stored
      split at stored
      · rename_i ends
        have nonempty := List.ne_nil_of_mem (of_decide_eq_true ends)
        have positive := appendIndex_pos nonempty
        apply commit_stray (n := j.history.length) _ _ stored c
        · exact models.committed.ring
        · simp only [ne_eq]
          omega
      · rw [Option.some.injEq] at stored
        rw [stored]
    refine ⟨fun c => k.dev.writeBufferSize + appendIndex chunk = 0 ∧ c = w, ?_, ?_⟩
    · intro c
      rw [kernel, erase_stray k₃, committed c]
      constructor
      · rintro ⟨old | new, different⟩
        · exact .inl ⟨old, different⟩
        · exact .inr new
      · rintro (⟨old, different⟩ | ⟨size, rfl⟩)
        · exact ⟨.inl old, different⟩
        · exact ⟨.inr ⟨size, rfl⟩, apart⟩
    · constructor
      · rintro ⟨_, size, _⟩
        exact .inr ⟨by omega, appendIndex_eq_zero_iff.mp (by omega), granted.1⟩
      · rintro (⟨_, _, refused⟩ | ⟨size, empty, _⟩)
        · rw [models.request] at refused
          exact absurd granted refused
        · have append := appendIndex_eq_zero_iff.mpr empty
          exact ⟨w, by omega, rfl⟩
  · have reserved' := reserve_refused models granted
    rw [reserved, Option.some.injEq, Prod.mk.injEq] at reserved'
    obtain ⟨rfl, rfl⟩ := reserved'
    rcases steps with ⟨_, h₂, freed, kernel⟩ | ⟨_, _, _, _, _, some, _⟩
    · rw [kernel]
      exact ⟨_, refused_stray models own granted freed⟩
    · contradiction

end Locked

/-- The blocks that a write leaves behind: one if it leaks, and no other. -/
theorem aesdWrite_stray (models : Models k j) (file : Nat)
    (result : aesdWrite env filp buf fpos k = some r) :
    ∃ New : Nat → Prop, (∀ c, Stray r.kernel c ↔ Stray k c ∨ New c) ∧
      ((∃ c, New c) ↔ Leaks (.write file env filp buf) k) := by
  have nothing : r.kernel = k → ¬Leaks (.write file env filp buf) k →
      ∃ New : Nat → Prop, (∀ c, Stray r.kernel c ↔ Stray k c ∨ New c) ∧
        ((∃ c, New c) ↔ Leaks (.write file env filp buf) k) := by
    intro same harmless
    refine ⟨fun _ => False, ?_, ?_⟩
    · simp [same]
    · simpa using harmless
  rcases filp with _ | _
  · obtain rfl := Option.some.inj result
    exact nothing rfl not_false
  rcases buf with _ | chunk
  · obtain rfl := Option.some.inj result
    exact nothing rfl not_false
  by_cases granted : env.data.ok = true ∧ chunk.length ≤ kmallocMax
  · obtain ⟨a, h₁, h₂, copy⟩ := models.copied granted.1 granted.2
    by_cases copied : env.copied = true
    · by_cases locked : env.locked = true
      · rw [copy.write_locked copied locked] at result
        obtain ⟨New, blocks, drops⟩ :=
          aesdWriteLocked_stray (models.after_copy copy) copy.own result
        refine ⟨New, ?_, ?_⟩
        · intro c
          rw [blocks c]
          apply or_congr_left
          constructor
          · rintro ⟨⟨used, avoided, line⟩, different⟩
            exact ⟨copy.same c different ▸ used, avoided, line⟩
          · rintro ⟨used, avoided, line⟩
            have different : c ≠ a := fun equal => used (equal ▸ copy.free)
            exact ⟨⟨(copy.same c different).symm ▸ used, avoided, line⟩, different⟩
        · rw [drops]
          exact ⟨fun drop => ⟨granted.1, granted.2, copied, fun _ => drop⟩,
            fun leak => leak.2.2.2 locked⟩
      · rw [copy.write_interrupted copied locked, Option.some.injEq] at result
        subst result
        have own := copy.own
        refine ⟨(· = a), ?_, ?_⟩
        · intro c
          by_cases same : c = a
          · subst same
            exact iff_of_true ⟨own.held.allocated, own.avoids, fun ⟨size, points⟩ =>
              own.unassembled size points⟩ (.inr rfl)
          · constructor
            · rintro ⟨used, avoided, line⟩
              exact .inl ⟨copy.same c same ▸ used, avoided, line⟩
            · rintro (⟨used, avoided, line⟩ | equal)
              · exact ⟨(copy.same c same).symm ▸ used, avoided, line⟩
              · exact absurd equal same
        · exact iff_of_true ⟨a, rfl⟩ ⟨granted.1, granted.2, copied, fun lock => absurd lock locked⟩
    · rw [copy.write_faulted copied, Option.some.injEq] at result
      subst result
      refine ⟨fun _ => False, ?_, ?_⟩
      · intro c
        have blocks := congrFun (erase_taken copy.free copy.fresh) c
        constructor
        · rintro ⟨used, avoided, line⟩
          exact .inl ⟨blocks ▸ used, avoided, line⟩
        · rintro (⟨used, avoided, line⟩ | impossible)
          · exact ⟨blocks.symm ▸ used, avoided, line⟩
          · exact impossible.elim
      · exact iff_of_false (fun ⟨_, impossible⟩ => impossible) fun leak => copied leak.2.2.1
  · have refused : aesdWrite env true (some chunk) fpos k = some ⟨-enomem, fpos, [], k⟩ := by
      simp only [aesdWrite, kmalloc_refused granted]
    rw [refused, Option.some.injEq] at result
    subst result
    exact nothing rfl fun leak => granted ⟨leak.1, leak.2.1⟩

section Runs

variable {seek : Int → Int → Int → Int → Int} {c : Call} {calls : List Call} {d : Driver}

theorem Models.read_kernel {env : ReadEnv} (models : Models k j)
    (result : aesdRead env filp buf count fpos k = some r) : r.kernel = k := by
  have unlocked := models.relock
  simp only [aesdRead, mutexLock, models.free, Bool.false_eq_true, if_false, Option.bind_eq_bind,
    Option.bind_some] at result
  split at result
  · split at result
    · split at result
      · rw [Option.some.injEq] at result
        rw [← result, unlocked]
      · obtain ⟨bytes, _, copied⟩ := Option.bind_eq_some_iff.mp result
        split at copied
        all_goals
          rw [Option.some.injEq] at copied
          rw [← copied, unlocked]
    · rw [Option.some.injEq] at result
      rw [← result]
  · rw [Option.some.injEq] at result
    rw [← result]

theorem Models.llseek_kernel (models : Models k j)
    (result : aesdLlseek seek locked offset whence fpos k = some r) : r.kernel = k := by
  have unlocked := models.relock
  simp only [aesdLlseek, mutexLock, models.free, Bool.false_eq_true, if_false, Option.bind_eq_bind,
    Option.bind_some] at result
  split at result
  all_goals
    rw [Option.some.injEq] at result
    simp only [← result, unlocked]

theorem Models.ioctl_kernel {env : ReadEnv} (models : Models k j)
    (result : aesdIoctl env cmd arg fpos k = some r) : r.kernel = k := by
  have unlocked := models.relock
  simp only [aesdIoctl, aesdAdjustFileOffset, mutexLock, models.free, Bool.false_eq_true, if_false,
    Option.bind_eq_bind, Option.bind_some, unlocked] at result
  repeat' split at result
  all_goals
    rw [Option.some.injEq] at result
    rw [← result]

theorem Models.operate_stray (models : Models k j) (c : Call)
    (result : c.operate seek fpos k = some r) :
    ∃ New : Nat → Prop, (∀ a, Stray r.kernel a ↔ Stray k a ∨ New a) ∧ ((∃ a, New a) ↔ Leaks c k) := by
  have unchanged : r.kernel = k → ¬Leaks c k →
      ∃ New : Nat → Prop, (∀ a, Stray r.kernel a ↔ Stray k a ∨ New a) ∧
        ((∃ a, New a) ↔ Leaks c k) := by
    intro same harmless
    refine ⟨fun _ => False, ?_, ?_⟩
    · simp [same]
    · simpa using harmless
  cases c with
  | write file env filp buf => exact aesdWrite_stray models file result
  | read => exact unchanged (models.read_kernel result) not_false
  | llseek => exact unchanged (models.llseek_kernel result) not_false
  | ioctl => exact unchanged (models.ioctl_kernel result) not_false

def Tight (k : Kernel) : Prop := ∀ a, ¬Stray k a

theorem perform_tight (represents : Represents d l) (step : perform seek c d = some (next, reply)) :
    Tight next.kernel ↔ Tight d.kernel ∧ ¬Leaks c d.kernel := by
  obtain ⟨r, result, same⟩ := Option.map_eq_some_iff.mp step
  simp only [Prod.mk.injEq] at same
  obtain ⟨rfl, _⟩ := same
  obtain ⟨New, blocks, leaks⟩ := represents.models.operate_stray c result
  simp only [Tight, blocks, ← leaks, not_or, not_exists, forall_and]

/-- A stray block stays stray, so the driver is tight after a run exactly when no call of it
leaked. -/
theorem tight_run_iff (run : Transition.execute (perform seek) calls Driver.initial = some (d, replies)) :
    Tight d.kernel ↔
      Transition.Guarded (perform seek) (fun c d => ¬Leaks c d.kernel) calls Driver.initial := by
  have start : Tight Driver.initial.kernel := fun a stray => stray.allocated rfl
  rw [Transition.guarded_iff (fun d => Tight d.kernel) (fun d => ∃ l, Represents d l) ?_ run
    ⟨_, initial_represents⟩]
  · exact and_iff_right start
  · rintro c d next reply ⟨l, represents⟩ step
    obtain ⟨next', l', reply', step', _, after⟩ := perform_refines seek c represents
    rw [step, Option.some.injEq, Prod.mk.injEq] at step'
    obtain ⟨rfl, rfl⟩ := step'
    exact ⟨⟨l', after⟩, perform_tight represents step⟩

/-- The clean-up empties a tight driver that has no line in work. -/
theorem Models.cleanup_empty (models : Models k j) (cleaned : aesdCleanupModule k = some k') :
    (∀ a, k'.heap.block a = none) ↔
      Tight k ∧ (k.dev.writeBufferSize = 0 ∨ k.dev.writeBuffer = none) := by
  obtain ⟨k₁, cleaned', left⟩ := models.cleanup
  rw [cleaned, Option.some.injEq] at cleaned'
  subst cleaned'
  constructor
  · intro empty
    have owned : ∀ a, k.heap.block a ≠ none → ¬k.dev.buffer.Avoids a :=
      fun a used avoids => (left a).mpr ⟨used, avoids⟩ (empty a)
    refine ⟨fun a stray => owned a stray.allocated stray.avoided, ?_⟩
    by_contra unfinished
    rw [not_or] at unfinished
    obtain ⟨w, points⟩ := Option.ne_none_iff_exists'.mp unfinished.2
    obtain ⟨_, _, held, avoids⟩ := models.writeBuffer_held unfinished.1 points
    exact owned w held.allocated avoids
  · rintro ⟨tight, finished⟩ a
    by_contra used
    obtain ⟨used, avoided⟩ := (left a).mp used
    apply tight a
    refine ⟨used, avoided, ?_⟩
    rintro ⟨size, points⟩
    rcases finished with zero | null
    · exact size zero
    · rw [null] at points
      contradiction

/-- The run and the clean-up after it meet no fault and leave no block. -/
def Released (seek : Int → Int → Int → Int → Int) (calls : List Call) : Prop :=
  ∃ d replies k, Transition.execute (perform seek) calls Driver.initial = some (d, replies) ∧
    aesdCleanupModule d.kernel = some k ∧ ∀ a, k.heap.block a = none

/-- All memory is released exactly when no call of the run leaks and the module is not
unloaded in the middle of a line that has a buffer. -/
theorem released_iff (seek : Int → Int → Int → Int → Int) (calls : List Call) :
    Released seek calls ↔
      Transition.Guarded (perform seek) (fun c d => ¬Leaks c d.kernel) calls Driver.initial ∧
      ∀ d replies, Transition.execute (perform seek) calls Driver.initial = some (d, replies) →
        d.kernel.dev.writeBufferSize = 0 ∨ d.kernel.dev.writeBuffer = none := by
  obtain ⟨d, l, replies, run, _, represents⟩ := run_total seek calls initial_represents
  obtain ⟨k, cleaned, _⟩ := represents.models.cleanup
  have empty := represents.models.cleanup_empty cleaned
  rw [tight_run_iff run] at empty
  constructor
  · rintro ⟨d', replies', k', run', cleaned', none⟩
    rw [run, Option.some.injEq, Prod.mk.injEq] at run'
    obtain ⟨rfl, rfl⟩ := run'
    rw [cleaned, Option.some.injEq] at cleaned'
    subst cleaned'
    obtain ⟨guarded, finished⟩ := empty.mp none
    refine ⟨guarded, ?_⟩
    intro d' replies' run'
    rw [run, Option.some.injEq, Prod.mk.injEq] at run'
    obtain ⟨rfl, rfl⟩ := run'
    exact finished
  · rintro ⟨guarded, finished⟩
    exact ⟨d, replies, k, run, cleaned, empty.mpr ⟨guarded, finished d replies run⟩⟩

def interruptedLine : Call :=
  .write 0 { WriteEnv.success with locked := false } true (some [97, 10])

theorem interrupted_write_leaks : ¬Released (fun _ _ _ _ => 0) [interruptedLine] := by
  rintro ⟨d, replies, k, run, cleaned, empty⟩
  obtain ⟨l, _, represents⟩ := run_refines run initial_represents
  have tight := ((represents.models.cleanup_empty cleaned).mp empty).1
  have guarded := (tight_run_iff run).mp tight
  apply guarded.1
  exact ⟨rfl, by decide, rfl, fun locked => Bool.noConfusion locked⟩

end Runs

end Aesd
