import Aesd.WriteRefinement
import Aesd.Library.Transition

/-! The other file operations refine their journal counterparts too, so every run of the
driver is a run of the ledger: it meets no fault and gives the same replies. -/
namespace Aesd

variable {h : Heap} {b : CircularBuffer} {history : List (List Byte)} {k : Kernel} {j : Journal}

theorem Models.sizes (models : Models k j) : k.dev.buffer.sizes = j.live.map List.length :=
  models.committed.sizes

theorem Models.sizes_lt (models : Models k j) : k.dev.buffer.sizes.sum < 2 ^ 63 := by
  rw [models.sizes, ← List.length_flatten]
  exact models.content_lt

theorem Models.find (models : Models k j) (charOffset rtn : Nat) (width : charOffset < 2 ^ 64) :
    aesdCircularBufferFindEntryOffsetForFpos k.dev.buffer charOffset rtn =
      k.dev.buffer.located rtn (Locate.locate (j.live.map List.length) charOffset) := by
  have small := models.sizes_lt
  rw [CircularBuffer.find_eq_locate k.dev.buffer models.committed.ring.wellFormed (by omega) _ _ width,
    models.sizes]

/-- Between calls, taking and giving back the lock changes nothing. -/
theorem Models.relock (models : Models k j) : mutexUnlock { k.dev with lock := true } = k.dev := by
  rw [mutexUnlock, ← models.free]

theorem sizeOfLoff_lt (p : Int) : sizeOfLoff p < 2 ^ 64 := by
  unfold sizeOfLoff
  omega

theorem Models.live_entry (models : Models k j) (i : Nat) (bound : i < j.live.length) :
    Stored k.heap (k.dev.buffer.get ((k.dev.buffer.outOffs + i) % 10)) j.live[i] := by
  have count := models.committed.ring.count
  have length := j.live_length
  obtain ⟨_, stored⟩ := models.committed.live_stored i (by omega)
  obtain ⟨_, same⟩ := j.live_getElem i bound
  rw [same]
  exact stored

theorem aesdRead_refines (models : Models k j) (env : ReadEnv) (filp buf : Bool) (count : Nat)
    (fpos : Int) :
    ∃ r, aesdRead env filp buf count fpos k = some r ∧
      r.Refines (j.read env filp buf count fpos) := by
  by_cases given : (filp && buf) = true
  · by_cases locked : env.locked = true
    · have unlocked := models.relock
      have lookup := models.find (sizeOfLoff fpos) 0 (sizeOfLoff_lt fpos)
      cases place : Locate.locate (j.live.map List.length) (sizeOfLoff fpos) with
      | none =>
        rw [place] at lookup
        refine ⟨⟨0, fpos, [], k⟩, ?_, ?_⟩
        · simp only [aesdRead, if_pos given, if_pos locked, mutexLock, models.free,
            Bool.false_eq_true, if_false, Option.bind_eq_bind, Option.bind_some, lookup,
            CircularBuffer.located, unlocked]
        · simp only [Journal.read, if_pos given, if_pos locked, place]
          exact ⟨rfl, rfl, rfl, models⟩
      | some found =>
        obtain ⟨i, o⟩ := found
        rw [place] at lookup
        obtain ⟨bound, inside, _⟩ := Locate.drop_of_locate j.live _ _ _ place
        obtain ⟨a, points, size, held⟩ := models.live_entry i bound
        have small := held.length_le
        have remaining : sizeSub j.live[i].length o = j.live[i].length - o :=
          sizeSub_of_le (Nat.le_of_lt inside) (by unfold kmallocMax at small; omega)
        have taken : ((j.live[i].drop o).take (min (j.live[i].length - o) count)) =
            (j.live[i].drop o).take count := by
          rw [← List.length_drop, Nat.min_comm, ← List.take_take, List.take_length]
        have amount : min (j.live[i].length - o) count = ((j.live[i].drop o).take count).length := by
          simp [Nat.min_comm]
        have command : j.live.getD i [] = j.live[i] := by simp [bound]
        have load : k.heap.load (some a) o ((j.live[i].drop o).take count).length =
            some ((j.live[i].drop o).take count) := by
          rw [← amount, Heap.load_holds held (by omega), taken]
        by_cases copied : env.copied = true
        · refine ⟨⟨((j.live[i].drop o).take count).length,
            fpos + ((j.live[i].drop o).take count).length, (j.live[i].drop o).take count, k⟩, ?_, ?_⟩
          · simp only [aesdRead, if_pos given, if_pos locked, mutexLock, models.free,
              Bool.false_eq_true, if_false, Option.bind_eq_bind, Option.bind_some, lookup,
              CircularBuffer.located, unlocked, points, size, remaining, amount, load, if_pos copied]
          · simp only [Journal.read, if_pos given, if_pos locked, place, if_pos copied, command]
            exact ⟨rfl, rfl, rfl, models⟩
        · refine ⟨⟨-efault, fpos, [], k⟩, ?_, ?_⟩
          · simp only [aesdRead, if_pos given, if_pos locked, mutexLock, models.free,
              Bool.false_eq_true, if_false, Option.bind_eq_bind, Option.bind_some, lookup,
              CircularBuffer.located, unlocked, points, size, remaining, amount, load, if_neg copied]
          · simp only [Journal.read, if_pos given, if_pos locked, place, if_neg copied]
            exact ⟨rfl, rfl, rfl, models⟩
    · refine ⟨⟨-erestartsys, fpos, [], k⟩, ?_, ?_⟩
      · simp only [aesdRead, if_pos given, if_neg locked]
      · simp only [Journal.read, if_pos given, if_neg locked]
        exact ⟨rfl, rfl, rfl, models⟩
  · refine ⟨⟨-einval, fpos, [], k⟩, ?_, ?_⟩
    · simp only [aesdRead, if_neg given]
    · simp only [Journal.read, if_neg given]
      exact ⟨rfl, rfl, rfl, models⟩

theorem aesdLlseek_refines (models : Models k j) (fixedSizeLlseek : Int → Int → Int → Int → Int)
    (locked : Bool) (offset whence fpos : Int) :
    ∃ r, aesdLlseek fixedSizeLlseek locked offset whence fpos k = some r ∧
      r.Refines (j.llseek fixedSizeLlseek locked offset whence fpos) := by
  cases locked with
  | false => exact ⟨_, rfl, rfl, rfl, rfl, models⟩
  | true =>
    simp only [aesdLlseek, Journal.llseek, if_true, mutexLock, models.free, Bool.false_eq_true,
      if_false, Option.bind_eq_bind, Option.bind_some, models.relock, ← models.buffSize]
    exact ⟨_, rfl, rfl, rfl, rfl, models⟩

theorem Models.slot_size (models : Models k j) (slot : i < 10) :
    (k.dev.buffer.get i).size = (j.slot i).length := by
  by_cases below : i < j.history.length
  · obtain ⟨inside, live, same⟩ := commandNumber_spec below slot
    obtain ⟨a, _, size, _⟩ := models.committed.stored _ inside live
    rw [same] at size
    rw [size, Journal.slot, if_pos below]
    simp only [commandNumber] at inside ⊢
    rw [List.getD_eq_getElem?_getD, List.getElem?_eq_getElem inside, Option.getD_some]
  · rw [models.committed.ring.unused i (by omega), Journal.slot, if_neg below]
    rfl

theorem Models.slotSizes (models : Models k j) (n : Nat) (bound : n ≤ 10) :
    slotSizes k.dev.buffer n = j.slotsLength n := by
  induction n with
  | zero => rfl
  | succ n ih =>
    rw [Aesd.slotSizes, Journal.slotsLength, ih (by omega), models.slot_size (by omega)]

theorem aesdAdjustFileOffset_refines (models : Models k j) (locked : Bool) (seekto : Seekto)
    (fpos : Int) :
    ∃ r, aesdAdjustFileOffset locked seekto fpos k = some r ∧
      r.Refines (j.adjust locked seekto fpos) := by
  cases locked with
  | false => exact ⟨_, rfl, rfl, rfl, rfl, models⟩
  | true =>
    simp only [aesdAdjustFileOffset, Journal.adjust, if_true, mutexLock, models.free,
      Bool.false_eq_true, if_false, Option.bind_eq_bind, Option.bind_some, models.relock]
    by_cases slot : maxWriteOperations ≤ seekto.writeCmd.toNat
    · simp only [if_pos slot]
      exact ⟨_, rfl, rfl, rfl, rfl, models⟩
    · have below : seekto.writeCmd.toNat < 10 := Nat.lt_of_not_le slot
      simp only [if_neg slot, models.slot_size below, models.slotSizes _ (Nat.le_of_lt below)]
      split
      · exact ⟨_, rfl, rfl, rfl, rfl, models⟩
      · exact ⟨_, rfl, rfl, rfl, rfl, models⟩

theorem aesdIoctl_refines (models : Models k j) (env : ReadEnv) (cmd : Nat) (arg : Seekto)
    (fpos : Int) :
    ∃ r, aesdIoctl env cmd arg fpos k = some r ∧ r.Refines (j.ioctl env cmd arg fpos) := by
  unfold aesdIoctl Journal.ioctl
  split
  · exact ⟨_, rfl, rfl, rfl, rfl, models⟩
  · split
    · split
      · exact aesdAdjustFileOffset_refines models env.locked arg fpos
      · exact ⟨_, rfl, rfl, rfl, rfl, models⟩
    · exact ⟨_, rfl, rfl, rfl, rfl, models⟩

theorem operate_refines (models : Models k j)
    (fixedSizeLlseek : Int → Int → Int → Int → Int) (c : Call) (fpos : Int) :
    ∃ r, c.operate fixedSizeLlseek fpos k = some r ∧
      r.Refines (j.operate fixedSizeLlseek c fpos) := by
  cases c with
  | write _ env filp buf => exact aesdWrite_refines models env filp buf fpos
  | read _ env filp buf count => exact aesdRead_refines models env filp buf count fpos
  | llseek _ locked offset whence =>
    exact aesdLlseek_refines models fixedSizeLlseek locked offset whence fpos
  | ioctl _ env cmd arg => exact aesdIoctl_refines models env cmd arg fpos

structure Represents (d : Driver) (l : Ledger) : Prop where
  models : Models d.kernel l.journal
  fpos : d.fpos = l.fpos

theorem initial_represents : Represents Driver.initial Ledger.initial :=
  ⟨aesdInitModule_models, rfl⟩

section Runs

variable {seek : Int → Int → Int → Int → Int} {c : Call} {calls : List Call} {d d' : Driver}
  {l l' : Ledger}

/-- One call of the driver is one step of the ledger. -/
theorem perform_refines (seek : Int → Int → Int → Int → Int) (c : Call)
    (represents : Represents d l) :
    ∃ d' l' reply, perform seek c d = some (d', reply) ∧ l.perform seek c = some (l', reply) ∧
      Represents d' l' := by
  obtain ⟨r, result, refines⟩ := operate_refines represents.models seek c (d.fpos c.file)
  have same : d.fpos c.file = l.fpos c.file := by rw [represents.fpos]
  let o := l.journal.operate seek c (d.fpos c.file)
  refine ⟨⟨r.kernel, setFpos d.fpos c.file r.fpos⟩, ⟨o.journal, setFpos l.fpos c.file o.fpos⟩,
    ⟨r.ret, r.delivered⟩, ?_, ?_, refines.models, ?_⟩
  · rw [perform, result, Option.map_some]
  · rw [Ledger.perform, ← same, refines.ret, refines.delivered]
  · change setFpos d.fpos c.file r.fpos = setFpos l.fpos c.file o.fpos
    rw [represents.fpos, refines.fpos]

/-- No call faults, in any state that represents a ledger. -/
theorem run_total (seek : Int → Int → Int → Int → Int) (calls : List Call)
    (represents : Represents d l) :
    ∃ d' l' replies, Transition.execute (perform seek) calls d = some (d', replies) ∧
      Transition.execute (fun c l => Ledger.perform seek c l) calls l = some (l', replies) ∧
      Represents d' l' := by
  apply Transition.execute_lockstep Represents ?_ calls represents
  exact fun c d l before => perform_refines seek c before

/-- Every run of the driver is a run of the ledger with the same replies. -/
theorem run_refines (run : Transition.execute (perform seek) calls d = some (d', replies))
    (represents : Represents d l) :
    ∃ l', Transition.execute (fun c l => Ledger.perform seek c l) calls l = some (l', replies) ∧
      Represents d' l' := by
  obtain ⟨d₁, l', replies', run', abstract, after⟩ := run_total seek calls represents
  rw [run, Option.some.injEq, Prod.mk.injEq] at run'
  obtain ⟨rfl, rfl⟩ := run'
  exact ⟨l', abstract, after⟩

/-- The states after any run of file operations from initialisation. -/
def Reachable (d : Driver) : Prop :=
  ∃ seek calls replies, Transition.execute (perform seek) calls Driver.initial = some (d, replies)

theorem Reachable.represents (reachable : Reachable d) : ∃ l, Represents d l := by
  obtain ⟨seek, calls, replies, run⟩ := reachable
  obtain ⟨l, _, represents⟩ := run_refines run initial_represents
  exact ⟨l, represents⟩

end Runs

end Aesd
