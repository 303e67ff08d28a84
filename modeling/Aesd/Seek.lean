import Aesd.Chunking

/-! The seek ioctl against `aesd_read`. The ioctl counts commands by physical slot, the
read lookup by age, so the two agree exactly when slot order and age order have the same
sizes; before the ring wraps they are the same order. -/
namespace Aesd

variable {k : Kernel} {j : Journal} {d : Driver}

/-- The seek addresses byte `write_cmd_offset` of the `write_cmd`-th oldest live command:
it is accepted when there is one, and the next read on that file starts there. -/
def SeekAgrees (k : Kernel) (seekto : Seekto) : Prop :=
  ∀ fpos, ∃ r, aesdAdjustFileOffset true seekto fpos k = some r ∧
    (r.ret = 0 ↔ seekto.writeCmd.toNat < k.commands.length ∧
      seekto.writeCmdOffset.toNat < (k.commands.getD seekto.writeCmd.toNat []).length) ∧
    (r.ret = 0 → ∀ count, 0 < count →
      ∃ r', aesdRead .success true true count r.fpos r.kernel = some r' ∧
        r'.delivered = ((k.commands.getD seekto.writeCmd.toNat []).drop
          seekto.writeCmdOffset.toNat).take count ∧ r'.ret = r'.delivered.length)

/-- The sizes in slot order are the sizes from `out_offs` on. -/
def SlotsInOrder (b : CircularBuffer) : Prop :=
  ∀ i < 10, (b.get i).size = (b.get ((b.outOffs + i) % 10)).size

theorem Journal.adjust_accepts (j : Journal) (seekto : Seekto) (fpos : Int) :
    (j.adjust true seekto fpos).ret = 0 ↔ seekto.writeCmd.toNat < 10 ∧
      seekto.writeCmdOffset.toNat < (j.slot seekto.writeCmd.toNat).length := by
  simp only [Journal.adjust, if_true]
  by_cases slot : maxWriteOperations ≤ seekto.writeCmd.toNat
  · have : 10 ≤ seekto.writeCmd.toNat := slot
    simp only [if_pos slot, einval]
    omega
  · have : seekto.writeCmd.toNat < 10 := Nat.lt_of_not_le slot
    rw [if_neg slot]
    by_cases inside : (j.slot seekto.writeCmd.toNat).length ≤ seekto.writeCmdOffset.toNat
    · simp only [if_pos inside, einval]
      omega
    · simp only [if_neg inside, true_iff]
      omega

theorem Journal.adjust_accepted {seekto : Seekto} {fpos : Int}
    (accepted : (j.adjust true seekto fpos).ret = 0) :
    j.adjust true seekto fpos =
      ⟨0, j.slotsLength seekto.writeCmd.toNat + seekto.writeCmdOffset.toNat, [], j⟩ := by
  obtain ⟨slot, inside⟩ := (j.adjust_accepts seekto fpos).mp accepted
  simp only [Journal.adjust, if_true, if_neg (show ¬maxWriteOperations ≤ seekto.writeCmd.toNat from
    Nat.not_le_of_lt slot), if_neg (Nat.not_le_of_lt inside)]

/-- A size seen from `out_offs` is that of the live command of that age, or 0. -/
theorem Models.age_size (models : Models k j) (i : Nat) (bound : i < 10) :
    (k.dev.buffer.get ((k.dev.buffer.outOffs + i) % 10)).size = (j.live.getD i []).length := by
  by_cases alive : i < j.live.length
  · obtain ⟨a, _, size, _⟩ := models.live_entry i alive
    rw [size, List.getD_eq_getElem?_getD, List.getElem?_eq_getElem alive, Option.getD_some]
  · have ring := models.committed.ring
    have length := j.live_length
    have start : k.dev.buffer.outOffs = 0 := by
      rw [ring.outOffs, if_neg (by omega)]
    rw [start, ring.unused _ (by omega), List.getD_eq_getElem?_getD,
      List.getElem?_eq_none (by omega)]
    rfl

theorem Models.slotsInOrder_iff (models : Models k j) :
    SlotsInOrder k.dev.buffer ↔ ∀ i < 10, (j.slot i).length = (j.live.getD i []).length := by
  constructor
  · intro order i bound
    rw [← models.slot_size bound, order i bound, models.age_size i bound]
  · intro order i bound
    rw [models.slot_size bound, order i bound, models.age_size i bound]

/-- With the sizes in order, the ioctl's sum over slots is the start of the command. -/
theorem Journal.slotsLength_eq (order : ∀ i < 10, (j.slot i).length = (j.live.getD i []).length)
    (n : Nat) (bound : n ≤ 10) : j.slotsLength n = ((j.live.map List.length).take n).sum := by
  induction n with
  | zero => rfl
  | succ n ih =>
    rw [Journal.slotsLength, ih (by omega), order n (by omega)]
    by_cases alive : n < j.live.length
    · rw [List.sum_take_succ _ n (by simpa using alive), List.getD_eq_getElem?_getD,
        List.getElem?_eq_getElem alive]
      simp
    · rw [List.take_of_length_le (by simp; omega), List.take_of_length_le (by simp; omega),
        List.getD_eq_getElem?_getD, List.getElem?_eq_none (by omega)]
      rfl

theorem Journal.read_at (j : Journal) (small : j.content.length < 2 ^ 63) (i o count : Nat)
    (bound : i < j.live.length) (inside : o < j.live[i].length) :
    j.read .success true true count (((j.live.map List.length).take i).sum + o : Nat) =
      let bytes := (j.live[i].drop o).take count
      ⟨bytes.length, (((j.live.map List.length).take i).sum + o : Nat) + bytes.length, bytes, j⟩ := by
  have start := Locate.locate_start (j.live.map List.length) i o (by simpa using bound)
    (by simpa using inside)
  have before := (Locate.locate_eq_none_iff (j.live.map List.length)
    (((j.live.map List.length).take i).sum + o)).not.mp (by simp [start])
  have total : (j.live.map List.length).sum = j.content.length := by
    rw [Journal.content, List.length_flatten]
  rw [Journal.read, sizeOfLoff_of_nonneg _ (by omega), start]
  simp [ReadEnv.success, bound]

theorem Models.seekAgrees (models : Models k j) (order : SlotsInOrder k.dev.buffer)
    (seekto : Seekto) : SeekAgrees k seekto := by
  intro fpos
  have sizes := models.slotsInOrder_iff.mp order
  have length := j.live_length
  obtain ⟨r, result, refines⟩ := aesdAdjustFileOffset_refines models true seekto fpos
  have accepts := j.adjust_accepts seekto fpos
  rw [← refines.ret] at accepts
  refine ⟨r, result, ?_, ?_⟩
  · rw [accepts, models.commands]
    constructor
    · rintro ⟨slot, inside⟩
      rw [sizes _ slot] at inside
      refine ⟨?_, inside⟩
      by_contra dead
      rw [List.getD_eq_getElem?_getD, List.getElem?_eq_none (by omega)] at inside
      simp at inside
    · rintro ⟨alive, inside⟩
      have slot : seekto.writeCmd.toNat < 10 := by omega
      exact ⟨slot, by rw [sizes _ slot]; exact inside⟩
  · intro accepted count _
    obtain ⟨slot, inside⟩ := accepts.mp accepted
    rw [sizes _ slot] at inside
    have alive : seekto.writeCmd.toNat < j.live.length := by
      by_contra dead
      rw [List.getD_eq_getElem?_getD, List.getElem?_eq_none (by omega)] at inside
      simp at inside
    have command : j.live.getD seekto.writeCmd.toNat [] = j.live[seekto.writeCmd.toNat] := by
      simp [alive]
    rw [command] at inside
    rw [refines.ret] at accepted
    have position := refines.fpos
    have next := refines.models
    rw [Journal.adjust_accepted accepted, Journal.slotsLength_eq sizes _ (Nat.le_of_lt slot)] at position
    rw [Journal.adjust_accepted accepted] at next
    obtain ⟨r', read, same⟩ := aesdRead_refines next .success true true count r.fpos
    have at_start := j.read_at models.content_lt _ _ count alive inside
    rw [position, ← Int.natCast_add, at_start] at same
    refine ⟨r', read, ?_, ?_⟩
    · rw [same.delivered, models.commands, command]
    · rw [same.ret, same.delivered]

theorem Journal.slot_mem (j : Journal) (i : Nat) : j.slot i = [] ∨ j.slot i ∈ j.history := by
  unfold Journal.slot
  split
  · rename_i below
    right
    have inside : j.history.length - 1 - (j.history.length - 1 - i) % 10 < j.history.length := by omega
    rw [List.getD_eq_getElem?_getD, List.getElem?_eq_getElem inside]
    exact List.getElem_mem inside
  · exact .inl rfl

theorem Models.slotsInOrder (models : Models k j) (agrees : ∀ seekto, SeekAgrees k seekto) :
    SlotsInOrder k.dev.buffer := by
  have length := j.live_length
  have bounds : ∀ c ∈ j.history, c.length ≤ kmallocMax :=
    fun c member => (models.committed.commands c member).2
  apply models.slotsInOrder_iff.mpr
  intro i bound
  have same : ∀ y < 2 ^ 32, y < (j.slot i).length ↔ y < (j.live.getD i []).length := by
    intro y small
    let seekto : Seekto := ⟨UInt32.ofNat i, UInt32.ofNat y⟩
    have cmd : seekto.writeCmd.toNat = i := by simp [seekto]; omega
    have offset : seekto.writeCmdOffset.toNat = y := by simp [seekto]; omega
    obtain ⟨r, result, accepted, _⟩ := agrees seekto 0
    obtain ⟨r', result', refines⟩ := aesdAdjustFileOffset_refines models true seekto 0
    rw [result, Option.some.injEq] at result'
    subst result'
    rw [refines.ret, j.adjust_accepts, models.commands, cmd, offset] at accepted
    constructor
    · exact fun inside => (accepted.mp ⟨bound, inside⟩).2
    · intro inside
      have alive : i < j.live.length := by
        by_contra dead
        rw [List.getD_eq_getElem?_getD, List.getElem?_eq_none (by omega)] at inside
        simp at inside
      exact (accepted.mpr ⟨alive, inside⟩).2
  have slotBound : (j.slot i).length ≤ 2 ^ 32 := by
    rcases j.slot_mem i with empty | member
    · simp [empty]
    · exact bounds _ member
  have liveBound : (j.live.getD i []).length ≤ 2 ^ 32 := by
    by_cases alive : i < j.live.length
    · have member := List.mem_of_mem_drop (List.getElem_mem alive)
      have small := bounds _ member
      simpa [alive, kmallocMax] using small
    · simp [List.getElem?_eq_none (show j.live.length ≤ i by omega)]
  by_contra different
  rcases Nat.lt_or_gt_of_ne different with less | greater
  · have := (same (j.slot i).length (by omega)).mpr less
    omega
  · have := (same (j.live.getD i []).length (by omega)).mp greater
    omega

/-- The seek ioctl and the read agree on every pair exactly when the slots are in order. -/
theorem seek_agrees_iff (reachable : Reachable d) :
    (∀ seekto, SeekAgrees d.kernel seekto) ↔ SlotsInOrder d.kernel.dev.buffer := by
  obtain ⟨l, models, _⟩ := reachable.represents
  exact ⟨models.slotsInOrder, models.seekAgrees⟩

/-- The oldest live command then has two bytes, yet its byte 2 is an accepted target. -/
theorem seek_disagrees_wrapped :
    ∃ d replies, Transition.execute (perform fun _ _ _ _ => 0) (elevenLines.map (writeLine 0))
        Driver.initial = some (d, replies) ∧
      (d.kernel.commands.getD 0 []).length = 2 ∧ ¬SeekAgrees d.kernel ⟨0, 2⟩ := by
  obtain ⟨d, replies, run, models⟩ := lines_run (fun _ _ _ _ => 0) 0 elevenLines elevenLines_whole
    (d := Driver.initial) aesdInitModule_models
  have oldest : (d.kernel.commands.getD 0 []).length = 2 := by
    rw [models.commands]
    decide
  refine ⟨d, replies, run, oldest, ?_⟩
  intro agrees
  obtain ⟨r, result, accepted, _⟩ := agrees 0
  obtain ⟨r', result', refines⟩ := aesdAdjustFileOffset_refines models true ⟨0, 2⟩ 0
  rw [result, Option.some.injEq] at result'
  subst result'
  rw [refines.ret, models.commands] at accepted
  revert accepted
  decide

theorem seek_agrees_iff_wrapped :
    ∃ d, Reachable d ∧ ¬SlotsInOrder d.kernel.dev.buffer ∧
      ((∀ seekto, SeekAgrees d.kernel seekto) ↔ SlotsInOrder d.kernel.dev.buffer) := by
  obtain ⟨d, replies, run, models⟩ := lines_run (fun _ _ _ _ => 0) 0 elevenLines elevenLines_whole
    (d := Driver.initial) aesdInitModule_models
  have reachable : Reachable d := ⟨_, _, replies, run⟩
  refine ⟨d, reachable, ?_, seek_agrees_iff reachable⟩
  intro order
  have sizes := models.slotsInOrder_iff.mp order 0 (by decide)
  revert sizes
  decide

end Aesd
