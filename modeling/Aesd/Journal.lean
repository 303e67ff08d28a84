import Aesd.Device

/-! What the device is for, without slots, pointers or blocks: a journal of the commands
committed so far, of which the last ten can be read, and the line being assembled.
`Models` says when a kernel state represents a journal. -/
namespace Aesd

/-- The unfinished line. `lost` is a count without bytes: the buffer that held them is
no longer referenced. -/
inductive Pending where
  | held (bytes : List Byte)
  | lost (count : Nat)
  deriving DecidableEq, Repr

structure Journal where
  history : List (List Byte)
  pending : Pending
  deriving DecidableEq, Repr

def Pending.size : Pending → Nat
  | .held bytes => bytes.length
  | .lost count => count

def Pending.base (fill : Nat → Byte) : Pending → List Byte
  | .held bytes => bytes
  | .lost count => garbage fill count

@[simp] theorem Pending.base_length (fill : Nat → Byte) (p : Pending) :
    (p.base fill).length = p.size := by
  cases p <;> simp [base, size]

def Pending.bytes : Pending → Option (List Byte)
  | .held bytes => some bytes
  | .lost _ => none

def Pending.forget (p : Pending) : Pending :=
  if p.size = 0 then .held [] else .lost p.size

namespace Journal

def empty : Journal := ⟨[], .held []⟩

def live (j : Journal) : List (List Byte) := j.history.drop (j.history.length - 10)

def content (j : Journal) : List Byte := j.live.flatten

def totalSize (j : Journal) : Nat := j.history.flatten.length

/-- A chunk is taken up to its first newline; with one, the line is committed. -/
def accept (j : Journal) (fill : Nat → Byte) (chunk : List Byte) : Journal :=
  let line := j.pending.base fill ++ Delimited.cut newline chunk
  if newline ∈ chunk then ⟨j.history ++ [line], .held []⟩ else ⟨j.history, .held line⟩

def request (j : Journal) (chunk : List Byte) : Nat :=
  if j.pending.size = 0 then chunk.length else appendIndex chunk + j.pending.size

/-- The command in physical slot `i`: the newest one whose number is `i` modulo ten. -/
def slot (j : Journal) (i : Nat) : List Byte :=
  if i < j.history.length then
    j.history.getD (j.history.length - 1 - (j.history.length - 1 - i) % 10) []
  else []

def slotsLength (j : Journal) : Nat → Nat
  | 0 => 0
  | i + 1 => slotsLength j i + (j.slot i).length

structure Outcome where
  ret : Int
  fpos : Int
  delivered : List Byte
  journal : Journal

def write (env : WriteEnv) (filp : Bool) (buf : Option (List Byte)) (fpos : Int)
    (j : Journal) : Outcome :=
  match filp, buf with
  | true, some chunk =>
    if ¬(env.data.ok = true ∧ chunk.length ≤ kmallocMax) then ⟨-enomem, fpos, [], j⟩
    else if ¬env.copied = true then ⟨-efault, fpos, [], j⟩
    else if ¬env.locked = true then ⟨-erestartsys, fpos, [], j⟩
    else if ¬(env.buffer.ok = true ∧ j.request chunk ≤ kmallocMax) then
      ⟨-enomem, fpos, [], { j with pending := j.pending.forget }⟩
    else ⟨appendIndex chunk, fpos + appendIndex chunk, [], j.accept env.buffer.fill chunk⟩
  | _, _ => ⟨-einval, fpos, [], j⟩

/-- The call gets as far as the line assembly. -/
structure Assembles (env : WriteEnv) (filp : Bool) (buf : Option (List Byte))
    (chunk : List Byte) : Prop where
  filp : filp = true
  buf : buf = some chunk
  data : env.data.ok = true
  dataSize : chunk.length ≤ kmallocMax
  copied : env.copied = true
  locked : env.locked = true

/-- All that a write can do: fail before the line is touched, fail to get a buffer for the
line, or take a first part of the chunk. -/
theorem write_cases (env : WriteEnv) (filp : Bool) (buf : Option (List Byte)) (fpos : Int)
    (j : Journal) :
    (∃ ret < 0, (∀ chunk, ¬Assembles env filp buf chunk) ∧
      j.write env filp buf fpos = ⟨ret, fpos, [], j⟩) ∨
    ∃ chunk, Assembles env filp buf chunk ∧
      ((¬(env.buffer.ok = true ∧ j.request chunk ≤ kmallocMax) ∧
          j.write env filp buf fpos = ⟨-enomem, fpos, [], { j with pending := j.pending.forget }⟩) ∨
        (env.buffer.ok = true ∧ j.request chunk ≤ kmallocMax) ∧
          j.write env filp buf fpos =
            ⟨appendIndex chunk, fpos + appendIndex chunk, [], j.accept env.buffer.fill chunk⟩) := by
  cases filp with
  | false => exact .inl ⟨-einval, by decide, fun _ reaches => Bool.noConfusion reaches.filp, rfl⟩
  | true =>
    cases buf with
    | none =>
      refine .inl ⟨-einval, by decide, ?_, rfl⟩
      intro _ reaches
      cases reaches.buf
    | some chunk =>
      have given : ∀ other, Assembles env true (some chunk) other → other = chunk :=
        fun _ reaches => (Option.some.inj reaches.buf).symm
      by_cases data : env.data.ok = true ∧ chunk.length ≤ kmallocMax
      · by_cases copied : env.copied = true
        · by_cases locked : env.locked = true
          · refine .inr ⟨chunk, ⟨rfl, rfl, data.1, data.2, copied, locked⟩, ?_⟩
            by_cases granted : env.buffer.ok = true ∧ j.request chunk ≤ kmallocMax
            · right
              refine ⟨granted, ?_⟩
              simp only [write, data, copied, locked, granted, and_self, not_true_eq_false, if_false]
            · left
              refine ⟨granted, ?_⟩
              simp only [write, data, copied, locked, granted, and_self, not_true_eq_false, if_false,
                not_false_eq_true, if_true]
          · refine .inl ⟨-erestartsys, by decide, fun _ reaches => locked reaches.locked, ?_⟩
            simp only [write, data, copied, locked, and_self, not_true_eq_false, if_false,
              Bool.false_eq_true, not_false_eq_true, if_true]
        · refine .inl ⟨-efault, by decide, fun _ reaches => copied reaches.copied, ?_⟩
          simp only [write, data, copied, and_self, not_true_eq_false, if_false,
            Bool.false_eq_true, not_false_eq_true, if_true]
      · refine .inl ⟨-enomem, by decide, ?_, ?_⟩
        · intro other reaches
          exact data ⟨reaches.data, given other reaches ▸ reaches.dataSize⟩
        · simp only [write, data, not_false_eq_true, if_true]

def read (env : ReadEnv) (filp buf : Bool) (count : Nat) (fpos : Int) (j : Journal) : Outcome :=
  if filp && buf then
    if env.locked then
      match Locate.locate (j.live.map List.length) (sizeOfLoff fpos) with
      | none => ⟨0, fpos, [], j⟩
      | some (k, o) =>
        let bytes := ((j.live.getD k []).drop o).take count
        if env.copied then ⟨bytes.length, fpos + bytes.length, bytes, j⟩
        else ⟨-efault, fpos, [], j⟩
    else ⟨-erestartsys, fpos, [], j⟩
  else ⟨-einval, fpos, [], j⟩

/-- All that a read can do: fail, be at the end, or deliver some of what follows. -/
theorem read_cases (env : ReadEnv) (filp buf : Bool) (count : Nat) (j : Journal) (p : Nat)
    (width : p < 2 ^ 64) :
    (∃ ret < 0, j.read env filp buf count p = ⟨ret, p, [], j⟩) ∨
    (j.content.length ≤ p ∧ j.read env filp buf count p = ⟨0, p, [], j⟩) ∨
    ∃ bytes, (0 < count → bytes ≠ []) ∧ bytes.length ≤ count ∧ bytes <+: j.content.drop p ∧
      j.read env filp buf count p = ⟨bytes.length, p + bytes.length, bytes, j⟩ := by
  by_cases given : (filp && buf) = true
  · by_cases locked : env.locked = true
    · simp only [read, if_pos given, if_pos locked, sizeOfLoff_of_nonneg p width]
      cases place : Locate.locate (j.live.map List.length) p with
      | none => exact .inr (.inl ⟨(Locate.locate_none_length j.live p).mp place, rfl⟩)
      | some found =>
        obtain ⟨i, o⟩ := found
        obtain ⟨bound, inside, tail⟩ := Locate.drop_of_locate j.live p i o place
        have command : j.live.getD i [] = j.live[i] := by simp [bound]
        by_cases copied : env.copied = true
        · refine .inr (.inr ⟨(j.live[i].drop o).take count, ?_, List.length_take_le _ _, ?_, ?_⟩)
          · intro positive empty
            have length := congrArg List.length empty
            simp only [List.length_take, List.length_drop, List.length_nil] at length
            omega
          · rw [content, tail]
            exact (List.take_prefix _ _).trans (List.prefix_append _ _)
          · simp only [command, if_pos copied]
        · exact .inl ⟨-efault, by decide, by simp only [if_neg copied]⟩
    · exact .inl ⟨-erestartsys, by decide, by simp only [read, if_pos given, if_neg locked]⟩
  · exact .inl ⟨-einval, by decide, by simp only [read, if_neg given]⟩

def llseek (fixedSizeLlseek : Int → Int → Int → Int → Int) (locked : Bool)
    (offset whence fpos : Int) (j : Journal) : Outcome :=
  if locked then
    let retval := fixedSizeLlseek fpos offset whence (loffOfSize (sizeT j.totalSize))
    ⟨retval, if retval < 0 then fpos else retval, [], j⟩
  else ⟨-erestartsys, fpos, [], j⟩

def adjust (locked : Bool) (seekto : Seekto) (fpos : Int) (j : Journal) : Outcome :=
  if locked then
    if maxWriteOperations ≤ seekto.writeCmd.toNat then ⟨-einval, fpos, [], j⟩
    else if (j.slot seekto.writeCmd.toNat).length ≤ seekto.writeCmdOffset.toNat then
      ⟨-einval, fpos, [], j⟩
    else ⟨0, j.slotsLength seekto.writeCmd.toNat + seekto.writeCmdOffset.toNat, [], j⟩
  else ⟨-erestartsys, fpos, [], j⟩

def ioctl (env : ReadEnv) (cmd : Nat) (arg : Seekto) (fpos : Int) (j : Journal) : Outcome :=
  if iocType cmd ≠ aesdIocMagic ∨ aesdcharIocMaxnr < iocNr cmd then ⟨-enotty, fpos, [], j⟩
  else if cmd = aesdcharIocseekto then
    if env.copied then j.adjust env.locked arg fpos else ⟨-efault, fpos, [], j⟩
  else ⟨-enotty, fpos, [], j⟩

def operate (fixedSizeLlseek : Int → Int → Int → Int → Int) (c : Call) (fpos : Int)
    (j : Journal) : Outcome :=
  match c with
  | .write _ env filp buf => j.write env filp buf fpos
  | .read _ env filp buf count => j.read env filp buf count fpos
  | .llseek _ locked offset whence => j.llseek fixedSizeLlseek locked offset whence fpos
  | .ioctl _ env cmd arg => j.ioctl env cmd arg fpos

end Journal

structure Ledger where
  journal : Journal
  fpos : Nat → Int

def Ledger.initial : Ledger := ⟨.empty, fun _ => 0⟩

/-- Unlike the code it always has a result. -/
def Ledger.perform (fixedSizeLlseek : Int → Int → Int → Int → Int) (c : Call) (l : Ledger) :
    Option (Ledger × Reply) :=
  let o := l.journal.operate fixedSizeLlseek c (l.fpos c.file)
  some (⟨o.journal, setFpos l.fpos c.file o.fpos⟩, ⟨o.ret, o.delivered⟩)

def Stored (h : Heap) (e : BufferEntry) (command : List Byte) : Prop :=
  ∃ a, e.buffptr = some a ∧ e.size = command.length ∧ h.Holds a command

/-- The ring represents the history: the last ten commands lie in their slots, each in a
block of its own. -/
structure Committed (h : Heap) (b : CircularBuffer) (history : List (List Byte)) : Prop where
  ring : b.Ring history.length
  stored : ∀ m (bound : m < history.length), history.length ≤ m + 10 →
    Stored h (b.get (m % 10)) history[m]
  apart : ∀ i i' a, (b.get i).buffptr = some a → (b.get i').buffptr = some a → i = i'
  commands : ∀ c ∈ history, c ≠ [] ∧ c.length ≤ kmallocMax

def CircularBuffer.Avoids (b : CircularBuffer) (a : Nat) : Prop := ∀ i, (b.get i).buffptr ≠ some a

/-- `write_buffer` represents the unfinished line. With no pending byte nothing is asked of
the pointer, which may still be that of a committed or freed entry. -/
def Assembled (h : Heap) (dev : AesdDev) : Pending → Prop
  | .held bytes => dev.writeBufferSize = bytes.length ∧
      (bytes ≠ [] → ∃ w, dev.writeBuffer = some w ∧ h.Holds w bytes ∧ dev.buffer.Avoids w)
  | .lost count => 0 < count ∧ count ≤ kmallocMax ∧ dev.writeBufferSize = count ∧
      dev.writeBuffer = none

structure Models (k : Kernel) (j : Journal) : Prop where
  free : k.dev.lock = false
  committed : Committed k.heap k.dev.buffer j.history
  assembled : Assembled k.heap k.dev j.pending
  buffSize : k.dev.buffSize = sizeT j.totalSize

def Kernel.commands (k : Kernel) : List (List Byte) :=
  k.dev.buffer.live.map fun e => (k.heap.load e.buffptr 0 e.size).getD []

/-- The first `write_buffer_size` bytes of `write_buffer`, if it has them. -/
def Kernel.pending (k : Kernel) : Option (List Byte) :=
  k.heap.load k.dev.writeBuffer 0 k.dev.writeBufferSize

theorem Journal.live_length (j : Journal) : j.live.length = min j.history.length 10 := by
  simp only [Journal.live, List.length_drop]
  omega

theorem Journal.live_getElem (j : Journal) (k : Nat) (bound : k < j.live.length) :
    ∃ inside : j.history.length - 10 + k < j.history.length,
      j.live[k] = j.history[j.history.length - 10 + k] := by
  have length := j.live_length
  exact ⟨by omega, by simp [Journal.live]⟩

theorem aesdInitModule_models : Models aesdInitModule .empty where
  free := rfl
  committed :=
    { ring := CircularBuffer.ring_init
      stored := by intro m bound; simp [Journal.empty] at bound
      apart := by
        intro i i' a points
        simp [CircularBuffer.ring_init.unused i (Nat.zero_le _), aesdInitModule] at points
      commands := by simp [Journal.empty] }
  assembled := ⟨rfl, by simp⟩
  buffSize := rfl

section Views

variable {h : Heap} {b : CircularBuffer} {history : List (List Byte)} {k : Kernel} {j : Journal}

theorem Committed.live_stored (committed : Committed h b history) (i : Nat)
    (bound : i < b.count) :
    ∃ inside : history.length - 10 + i < history.length,
      Stored h (b.get ((b.outOffs + i) % 10)) history[history.length - 10 + i] := by
  have count := committed.ring.count
  have slot := committed.ring.slot i
  have inside : history.length - 10 + i < history.length := by omega
  have index : (history.length - min history.length 10 + i) % 10 =
      (history.length - 10 + i) % 10 := by omega
  refine ⟨inside, ?_⟩
  rw [slot, index]
  exact committed.stored _ inside (by omega)

theorem Stored.load (stored : Stored h e command) : h.load e.buffptr 0 e.size = some command := by
  obtain ⟨a, points, size, held⟩ := stored
  rw [points, size]
  exact Heap.load_all held

theorem Models.commands (models : Models k j) : k.commands = j.live := by
  have count := models.committed.ring.count
  apply List.ext_getElem
  · simp [Kernel.commands, count, j.live_length]
  · intro i bound bound'
    have alive : i < k.dev.buffer.count := by simpa [Kernel.commands] using bound
    obtain ⟨_, stored⟩ := models.committed.live_stored i alive
    obtain ⟨_, same⟩ := j.live_getElem i bound'
    rw [same]
    simp [Kernel.commands, CircularBuffer.live_getElem, stored.load]

theorem Committed.sizes (committed : Committed h b history) :
    b.sizes = (history.drop (history.length - 10)).map List.length := by
  have count := committed.ring.count
  apply List.ext_getElem
  · simp [count]
    omega
  · intro i bound _
    obtain ⟨_, a, _, size, _⟩ := committed.live_stored i (by simpa using bound)
    simp [CircularBuffer.sizes_getElem, size]

theorem Models.pending (models : Models k j) :
    k.pending = j.pending.bytes := by
  have assembled := models.assembled
  cases kind : j.pending with
  | held bytes =>
    rw [kind] at assembled
    obtain ⟨size, held⟩ := assembled
    rw [Kernel.pending, size]
    by_cases none : bytes = []
    · simp [none, Pending.bytes]
    · obtain ⟨w, points, held, _⟩ := held none
      rw [points]
      exact Heap.load_all held
  | lost count =>
    rw [kind] at assembled
    obtain ⟨positive, _, size, points⟩ := assembled
    simp [Kernel.pending, Heap.load, size, points, Nat.ne_of_gt positive, Pending.bytes]

theorem Models.writeBufferSize (models : Models k j) : k.dev.writeBufferSize = j.pending.size := by
  have assembled := models.assembled
  cases kind : j.pending <;> rw [kind] at assembled
  · exact assembled.1
  · exact assembled.2.2.1

theorem Models.pending_le (models : Models k j) : j.pending.size ≤ kmallocMax := by
  have assembled := models.assembled
  cases kind : j.pending with
  | held bytes =>
    rw [kind] at assembled
    by_cases none : bytes = []
    · simp [none, Pending.size]
    · obtain ⟨w, _, held, _⟩ := assembled.2 none
      exact held.length_le
  | lost count =>
    rw [kind] at assembled
    exact assembled.2.1

/-- At most ten live commands, each of at most `kmallocMax` bytes. -/
theorem Models.content_lt (models : Models k j) : j.content.length < 2 ^ 63 := by
  have bound : ∀ c ∈ j.live, c.length ≤ kmallocMax :=
    fun c member => (models.committed.commands c (List.mem_of_mem_drop member)).2
  have count := j.live_length
  have := Locate.flatten_length_le j.live kmallocMax bound
  have : j.live.length * kmallocMax ≤ 10 * kmallocMax := Nat.mul_le_mul_right _ (by omega)
  simp only [Journal.content, kmallocMax] at *
  omega

end Views

end Aesd
