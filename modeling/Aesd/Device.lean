import Aesd.CircularBuffer
import Aesd.Library.Delimited

/-! The character device: `aesd_read`, `aesd_write`, `aesd_llseek`, the seek ioctl and
the module's start and end. The outcomes of the kernel calls they make are arguments.
A result of `none` is a fault: a bad pointer, or a lock taken twice. -/
namespace Aesd

def newline : Byte := 10

def einval : Int := 22
def enomem : Int := 12
def efault : Int := 14
def enotty : Int := 25
def erestartsys : Int := 512

structure AesdDev where
  lock : Bool
  buffer : CircularBuffer
  writeBuffer : Pointer
  writeBufferSize : Nat
  buffSize : Nat

structure Kernel where
  heap : Heap
  dev : AesdDev

/-- What a file operation returns, the file position after it, and the bytes that
`copy_to_user` delivered. -/
structure Return where
  ret : Int
  fpos : Int
  delivered : List Byte
  kernel : Kernel

def mutexLock (dev : AesdDev) : Option AesdDev :=
  if dev.lock then none else some { dev with lock := true }

def mutexUnlock (dev : AesdDev) : AesdDev := { dev with lock := false }

structure ReadEnv where
  locked : Bool
  copied : Bool

structure WriteEnv where
  data : Grant
  copied : Bool
  locked : Bool
  buffer : Grant

/-! Environments in which nothing fails. -/

def ReadEnv.success : ReadEnv := ⟨true, true⟩

def WriteEnv.success : WriteEnv := ⟨⟨true, 0, fun _ => 0⟩, true, true, ⟨true, 0, fun _ => 0⟩⟩

def sizeOfLoff (p : Int) : Nat := (p % 2 ^ 64).toNat

def loffOfSize (n : Nat) : Int := if n < 2 ^ 63 then n else n - 2 ^ 64

theorem sizeOfLoff_of_nonneg (p : Nat) (small : p < 2 ^ 64) : sizeOfLoff p = p := by
  unfold sizeOfLoff
  omega

/-- `filp` and `buf` say whether the pointer is not NULL. -/
def aesdRead (env : ReadEnv) (filp buf : Bool) (count : Nat) (fpos : Int) (k : Kernel) :
    Option Return :=
  if filp && buf then
    if env.locked then do
      let dev ← mutexLock k.dev
      match aesdCircularBufferFindEntryOffsetForFpos dev.buffer (sizeOfLoff fpos) 0 with
      | (none, _) => some ⟨0, fpos, [], { k with dev := mutexUnlock dev }⟩
      | (some i, byteOffset) =>
        let newEntry := dev.buffer.get i
        let bytesToCopy := min (sizeSub newEntry.size byteOffset) count
        let bytes ← k.heap.load newEntry.buffptr byteOffset bytesToCopy
        if env.copied then
          some ⟨bytesToCopy, fpos + bytesToCopy, bytes, { k with dev := mutexUnlock dev }⟩
        else some ⟨-efault, fpos, [], { k with dev := mutexUnlock dev }⟩
    else some ⟨-erestartsys, fpos, [], k⟩
  else some ⟨-einval, fpos, [], k⟩

/-- The newline scan: the index where it stops, and whether it found one. -/
def scanNewline : List Byte → Nat → Nat × Bool
  | [], writeIndex => (writeIndex, false)
  | b :: rest, writeIndex =>
    if b = newline then (writeIndex, true) else scanNewline rest (writeIndex + 1)

def appendIndex (data : List Byte) : Nat :=
  let (writeIndex, newlineFound) := scanNewline data 0
  if newlineFound then writeIndex + 1 else data.length

/-- A new `write_buffer` for the first piece of a line, a longer one for the next pieces. -/
def reserve (env : WriteEnv) (dev : AesdDev) (count append : Nat) (heap : Heap) :
    Option (Pointer × Heap) :=
  if dev.writeBufferSize = 0 then some (kmalloc env.buffer count heap)
  else krealloc env.buffer dev.writeBuffer (append + dev.writeBufferSize) heap

/-- A full ring gives up its oldest entry. (`kfree(NULL)` does nothing, which also covers
the test on `buffptr`.) -/
def freeOldest (b : CircularBuffer) (heap : Heap) : Option Heap :=
  if b.full then kfree (b.get b.inOffs).buffptr heap else some heap

def clearOldest (b : CircularBuffer) : CircularBuffer :=
  if b.full then b.set b.inOffs ⟨none, 0⟩ else b

def commit (k : Kernel) : Option Kernel := do
  let addEntry : BufferEntry := ⟨k.dev.writeBuffer, k.dev.writeBufferSize⟩
  let heap ← freeOldest k.dev.buffer k.heap
  some ⟨heap, { k.dev with
    buffer := aesdCircularBufferAddEntry (clearOldest k.dev.buffer) (some addEntry)
    buffSize := sizeT (k.dev.buffSize + addEntry.size)
    writeBufferSize := 0 }⟩

def commitIf (newlineFound : Bool) (k : Kernel) : Option Kernel :=
  if newlineFound then commit k else some k

/-- `aesd_write` from its lock on; `writeData` is the private copy of the user's bytes. -/
def aesdWriteLocked (env : WriteEnv) (writeData : Pointer) (count : Nat) (fpos : Int)
    (k : Kernel) : Option Return := do
  let dev ← mutexLock k.dev
  let data ← k.heap.load writeData 0 count
  let newlineFound := (scanNewline data 0).2
  let append := appendIndex data
  let (writeBuffer, heap) ← reserve env dev count append k.heap
  let dev := { dev with writeBuffer := writeBuffer }
  match writeBuffer with
  | none => do
    let heap ← kfree writeData heap
    some ⟨-enomem, fpos, [], ⟨heap, mutexUnlock dev⟩⟩
  | some _ => do
    let source ← heap.load writeData 0 append
    let heap ← memcpy dev.writeBuffer dev.writeBufferSize source heap
    let k : Kernel := ⟨heap, { dev with writeBufferSize := dev.writeBufferSize + append }⟩
    let k ← commitIf newlineFound k
    let heap ← kfree writeData k.heap
    some ⟨append, fpos + append, [], ⟨heap, mutexUnlock k.dev⟩⟩

/-- `buf` is NULL or the `count` bytes the user passes. -/
def aesdWrite (env : WriteEnv) (filp : Bool) (buf : Option (List Byte)) (fpos : Int)
    (k : Kernel) : Option Return :=
  match filp, buf with
  | true, some bytes =>
    match kmalloc env.data bytes.length k.heap with
    | (none, heap) => some ⟨-enomem, fpos, [], { k with heap }⟩
    | (writeData, heap) =>
      if env.copied then do
        let heap ← memcpy writeData 0 bytes heap
        if env.locked then aesdWriteLocked env writeData bytes.length fpos { k with heap }
        -- this return keeps `write_data` allocated
        else some ⟨-erestartsys, fpos, [], { k with heap }⟩
      else do
        let heap ← kfree writeData heap
        some ⟨-efault, fpos, [], { k with heap }⟩
  | _, _ => some ⟨-einval, fpos, [], k⟩

/-- `fixedSizeLlseek` is the kernel's function: current position, offset, whence and size
give the return value, which is the new position unless it is negative. -/
def aesdLlseek (fixedSizeLlseek : Int → Int → Int → Int → Int) (locked : Bool)
    (offset whence fpos : Int) (k : Kernel) : Option Return :=
  if locked then do
    let dev ← mutexLock k.dev
    let retval := fixedSizeLlseek fpos offset whence (loffOfSize dev.buffSize)
    some ⟨retval, if retval < 0 then fpos else retval, [], { k with dev := mutexUnlock dev }⟩
  else some ⟨-erestartsys, fpos, [], k⟩

structure Seekto where
  writeCmd : UInt32
  writeCmdOffset : UInt32
  deriving DecidableEq, Repr

def slotSizes (b : CircularBuffer) : Nat → Nat
  | 0 => 0
  | i + 1 => slotSizes b i + (b.get i).size

def aesdAdjustFileOffset (locked : Bool) (seekto : Seekto) (fpos : Int) (k : Kernel) :
    Option Return :=
  if locked then do
    let dev ← mutexLock k.dev
    let writeCmd := seekto.writeCmd.toNat
    let writeCmdOffset := seekto.writeCmdOffset.toNat
    if maxWriteOperations ≤ writeCmd then
      some ⟨-einval, fpos, [], { k with dev := mutexUnlock dev }⟩
    else if (dev.buffer.get writeCmd).size ≤ writeCmdOffset then
      some ⟨-einval, fpos, [], { k with dev := mutexUnlock dev }⟩
    else
      some ⟨0, slotSizes dev.buffer writeCmd + writeCmdOffset, [],
        { k with dev := mutexUnlock dev }⟩
  else some ⟨-erestartsys, fpos, [], k⟩

def aesdIocMagic : Nat := 0x16
def aesdcharIocMaxnr : Nat := 1

def aesdcharIocseekto : Nat := 3 * 2 ^ 30 + 8 * 2 ^ 16 + aesdIocMagic * 2 ^ 8 + 1

def iocType (cmd : Nat) : Nat := cmd / 2 ^ 8 % 2 ^ 8
def iocNr (cmd : Nat) : Nat := cmd % 2 ^ 8

/-- `arg` is what the user's pointer holds. -/
def aesdIoctl (env : ReadEnv) (cmd : Nat) (arg : Seekto) (fpos : Int) (k : Kernel) :
    Option Return :=
  if iocType cmd ≠ aesdIocMagic ∨ aesdcharIocMaxnr < iocNr cmd then some ⟨-enotty, fpos, [], k⟩
  else if cmd = aesdcharIocseekto then
    if env.copied then aesdAdjustFileOffset env.locked arg fpos k
    else some ⟨-efault, fpos, [], k⟩
  else some ⟨-enotty, fpos, [], k⟩

/-- The device is zeroed; the ledger starts without a block. -/
def aesdInitModule : Kernel := ⟨.empty, ⟨false, aesdCircularBufferInit, none, 0, 0⟩⟩

/-- `AESD_CIRCULAR_BUFFER_FOREACH` with `kfree`, from slot `index` on. -/
def freeEntries (b : CircularBuffer) : Nat → Nat → Heap → Option Heap
  | 0, _, heap => some heap
  | rounds + 1, index, heap => do
    let heap ← kfree (b.get index).buffptr heap
    freeEntries b rounds (index + 1) heap

def aesdCleanupModule (k : Kernel) : Option Kernel := do
  let heap ← freeEntries k.dev.buffer maxWriteOperations 0 k.heap
  some { k with heap }

/-! Runs of file operations by any number of open files. -/

structure Driver where
  kernel : Kernel
  fpos : Nat → Int

/-- One file operation with everything its environment decides. -/
inductive Call where
  | write (file : Nat) (env : WriteEnv) (filp : Bool) (buf : Option (List Byte))
  | read (file : Nat) (env : ReadEnv) (filp buf : Bool) (count : Nat)
  | llseek (file : Nat) (locked : Bool) (offset whence : Int)
  | ioctl (file : Nat) (env : ReadEnv) (cmd : Nat) (arg : Seekto)

structure Reply where
  ret : Int
  delivered : List Byte
  deriving DecidableEq, Repr

def Call.file : Call → Nat
  | .write file .. | .read file .. | .llseek file .. | .ioctl file .. => file

def Call.operate (fixedSizeLlseek : Int → Int → Int → Int → Int) (c : Call) (fpos : Int)
    (k : Kernel) : Option Return :=
  match c with
  | .write _ env filp buf => aesdWrite env filp buf fpos k
  | .read _ env filp buf count => aesdRead env filp buf count fpos k
  | .llseek _ locked offset whence => aesdLlseek fixedSizeLlseek locked offset whence fpos k
  | .ioctl _ env cmd arg => aesdIoctl env cmd arg fpos k

def setFpos (fpos : Nat → Int) (file : Nat) (p : Int) : Nat → Int :=
  fun other => if other = file then p else fpos other

@[simp] theorem setFpos_same : setFpos fpos file p file = p := by simp [setFpos]

@[simp] theorem setFpos_other (h : other ≠ file) : setFpos fpos file p other = fpos other := by
  simp [setFpos, h]

def perform (fixedSizeLlseek : Int → Int → Int → Int → Int) (c : Call) (d : Driver) :
    Option (Driver × Reply) :=
  (c.operate fixedSizeLlseek (d.fpos c.file) d.kernel).map fun r =>
    (⟨r.kernel, setFpos d.fpos c.file r.fpos⟩, ⟨r.ret, r.delivered⟩)

/-- After `insmod`, every file is still at position 0. -/
def Driver.initial : Driver := ⟨aesdInitModule, fun _ => 0⟩

theorem scanNewline_eq (data : List Byte) (i : Nat) :
    (scanNewline data i).2 = decide (newline ∈ data) ∧
    (newline ∈ data → (scanNewline data i).1 + 1 = i + (Delimited.cut newline data).length) := by
  induction data generalizing i with
  | nil => simp [scanNewline]
  | cons b rest ih =>
    by_cases isNewline : b = newline
    · simp [scanNewline, Delimited.cut, isNewline]
    · obtain ⟨found, index⟩ := ih (i + 1)
      refine ⟨by simp [scanNewline, isNewline, found, Ne.symm isNewline], ?_⟩
      intro member
      have later : newline ∈ rest := by simpa [Ne.symm isNewline] using member
      simp only [scanNewline, Delimited.cut, if_neg isNewline, List.length_cons]
      rw [index later]
      omega

@[simp] theorem scanNewline_found (data : List Byte) :
    (scanNewline data 0).2 = decide (newline ∈ data) := (scanNewline_eq data 0).1

/-- The driver takes a chunk up to and including its first newline. -/
theorem appendIndex_eq (data : List Byte) :
    appendIndex data = (Delimited.cut newline data).length := by
  by_cases member : newline ∈ data
  · have index := (scanNewline_eq data 0).2 member
    simp only [appendIndex, scanNewline_found, member, decide_true, if_true]
    omega
  · simp [appendIndex, member, Delimited.cut_of_not_mem data member]

theorem appendIndex_le (data : List Byte) : appendIndex data ≤ data.length := by
  rw [appendIndex_eq]
  exact Delimited.cut_length_le data

theorem take_appendIndex (data : List Byte) :
    data.take (appendIndex data) = Delimited.cut newline data := by
  rw [appendIndex_eq, ← Delimited.cut_eq_take]

end Aesd
