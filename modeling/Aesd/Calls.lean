import Aesd.DeviceRefinement
import Aesd.Library.Linearization

/-! File operations of several threads at once, on any files. Each call runs in the steps of the
source, one at a time; between two steps of a call any other call can make one. The lock is a bit
that a call takes or waits for. `AtomicSystem` is the same with a driver whose functions are one
step each. -/
namespace Aesd

structure Result where
  ret : Int
  fpos : Int
  delivered : List Byte
  deriving DecidableEq, Repr

/-- Where a running call is, with its local variables. -/
inductive Place where
  | enter
  | filling (writeData : Nat)
  | waiting (writeData : Pointer)
  | locked (writeData : Pointer)
  | located (slot byteOffset : Nat)
  | reserved (writeData : Nat) (newlineFound : Bool) (appendIndex : Nat)
  | appended (writeData : Nat) (newlineFound : Bool) (appendIndex : Nat)
  | releasing (writeData : Nat) (result : Result)
  | unlocking (result : Result)
  | returning (result : Result)
  | faulted
  deriving DecidableEq, Repr

/-- `aesd_read` but for its lock; `none` is a fault. -/
def aesdReadStep (env : ReadEnv) (filp buf : Bool) (count : Nat) (fpos : Int) (k : Kernel) :
    Place → Option (Kernel × Place)
  | .enter => some (k, if filp && buf then .waiting none else .returning ⟨-einval, fpos, []⟩)
  | .locked _ =>
    match aesdCircularBufferFindEntryOffsetForFpos k.dev.buffer (sizeOfLoff fpos) 0 with
    | (none, _) => some (k, .unlocking ⟨0, fpos, []⟩)
    | (some i, byteOffset) => some (k, .located i byteOffset)
  | .located i byteOffset => do
    let newEntry := k.dev.buffer.get i
    let bytesToCopy := min (sizeSub newEntry.size byteOffset) count
    let bytes ← k.heap.load newEntry.buffptr byteOffset bytesToCopy
    some (k, .unlocking (if env.copied then ⟨bytesToCopy, fpos + bytesToCopy, bytes⟩
      else ⟨-efault, fpos, []⟩))
  | _ => none

def aesdWriteStep (env : WriteEnv) (filp : Bool) (buf : Option (List Byte)) (fpos : Int)
    (k : Kernel) (place : Place) : Option (Kernel × Place) :=
  match filp, buf with
  | true, some bytes =>
    match place with
    | .enter =>
      match kmalloc env.data bytes.length k.heap with
      | (none, heap) => some ({ k with heap }, .returning ⟨-enomem, fpos, []⟩)
      | (some writeData, heap) => some ({ k with heap }, .filling writeData)
    | .filling writeData =>
      if env.copied then
        (memcpy (some writeData) 0 bytes k.heap).map fun heap =>
          ({ k with heap }, .waiting (some writeData))
      else
        (kfree (some writeData) k.heap).map fun heap =>
          ({ k with heap }, .returning ⟨-efault, fpos, []⟩)
    | .locked (some writeData) => do
      let data ← k.heap.load (some writeData) 0 bytes.length
      let newlineFound := (scanNewline data 0).2
      let append := appendIndex data
      let (writeBuffer, heap) ← reserve env k.dev bytes.length append k.heap
      let k : Kernel := ⟨heap, { k.dev with writeBuffer := writeBuffer }⟩
      match writeBuffer with
      | none => some (k, .releasing writeData ⟨-enomem, fpos, []⟩)
      | some _ => some (k, .reserved writeData newlineFound append)
    | .reserved writeData newlineFound append => do
      let source ← k.heap.load (some writeData) 0 append
      let heap ← memcpy k.dev.writeBuffer k.dev.writeBufferSize source k.heap
      some (⟨heap, { k.dev with writeBufferSize := k.dev.writeBufferSize + append }⟩,
        .appended writeData newlineFound append)
    | .appended writeData newlineFound append =>
      (commitIf newlineFound k).map fun k =>
        (k, .releasing writeData ⟨append, fpos + append, []⟩)
    | .releasing writeData result =>
      (kfree (some writeData) k.heap).map fun heap => ({ k with heap }, .unlocking result)
    | _ => none
  | _, _ =>
    match place with
    | .enter => some (k, .returning ⟨-einval, fpos, []⟩)
    | _ => none

def aesdLlseekStep (fixedSizeLlseek : Int → Int → Int → Int → Int) (offset whence fpos : Int)
    (k : Kernel) : Place → Option (Kernel × Place)
  | .enter => some (k, .waiting none)
  | .locked _ =>
    let retval := fixedSizeLlseek fpos offset whence (loffOfSize k.dev.buffSize)
    some (k, .unlocking ⟨retval, if retval < 0 then fpos else retval, []⟩)
  | _ => none

def aesdAdjustFileOffsetStep (seekto : Seekto) (fpos : Int) (k : Kernel) : Result :=
  let writeCmd := seekto.writeCmd.toNat
  let writeCmdOffset := seekto.writeCmdOffset.toNat
  if maxWriteOperations ≤ writeCmd then ⟨-einval, fpos, []⟩
  else if (k.dev.buffer.get writeCmd).size ≤ writeCmdOffset then ⟨-einval, fpos, []⟩
  else ⟨0, slotSizes k.dev.buffer writeCmd + writeCmdOffset, []⟩

def aesdIoctlStep (env : ReadEnv) (cmd : Nat) (arg : Seekto) (fpos : Int) (k : Kernel) :
    Place → Option (Kernel × Place)
  | .enter =>
    if iocType cmd ≠ aesdIocMagic ∨ aesdcharIocMaxnr < iocNr cmd then
      some (k, .returning ⟨-enotty, fpos, []⟩)
    else if cmd = aesdcharIocseekto then
      some (k, if env.copied then .waiting none else .returning ⟨-efault, fpos, []⟩)
    else some (k, .returning ⟨-enotty, fpos, []⟩)
  | .locked _ => some (k, .unlocking (aesdAdjustFileOffsetStep arg fpos k))
  | _ => none

/-- One step of a call that neither takes nor gives back the lock. -/
def Call.advance (fixedSizeLlseek : Int → Int → Int → Int → Int) (c : Call) (fpos : Int)
    (place : Place) (k : Kernel) : Option (Kernel × Place) :=
  match c with
  | .write _ env filp buf => aesdWriteStep env filp buf fpos k place
  | .read _ env filp buf count => aesdReadStep env filp buf count fpos k place
  | .llseek _ _ offset whence => aesdLlseekStep fixedSizeLlseek offset whence fpos k place
  | .ioctl _ env cmd arg => aesdIoctlStep env cmd arg fpos k place

def Call.locked : Call → Bool
  | .write _ env _ _ => env.locked
  | .read _ env .. => env.locked
  | .llseek _ locked .. => locked
  | .ioctl _ env .. => env.locked

/-- `aesd_llseek` and `aesd_ioctl` work on the file's `f_pos` itself, `aesd_read` and `aesd_write`
on a copy that the kernel makes for them. -/
def Call.seeks : Call → Bool
  | .llseek .. | .ioctl .. => true
  | .write .. | .read .. => false

def Call.position (c : Call) (fpos : Nat → Int) (copy : Int) : Int :=
  if c.seeks then fpos c.file else copy

/-- The kernel stores the copy when the call returns, unless the call failed. -/
def Call.storeBack (c : Call) (result : Result) (fpos : Nat → Int) : Nat → Int :=
  if c.seeks = false ∧ 0 ≤ result.ret then setFpos fpos c.file result.fpos else fpos

structure Task where
  call : Call
  copy : Int
  place : Place

/-- The driver with the running calls, at most one of each thread. -/
structure System where
  kernel : Kernel
  fpos : Nat → Int
  task : Nat → Option Task

def System.initial : System := ⟨aesdInitModule, fun _ => 0, fun _ => none⟩

/-- The call of the thread is at another place. A seek stores the position under the lock. -/
def System.move (s : System) (thread : Nat) (task : Task) (place : Place) (kernel : Kernel) :
    System where
  kernel := kernel
  fpos := match place with
    | .unlocking result =>
      if task.call.seeks then setFpos s.fpos task.call.file result.fpos else s.fpos
    | _ => s.fpos
  task := Function.update s.task thread (some { task with place })

inductive Move where
  | call (thread : Nat) (c : Call)
  | step (thread : Nat)

/-- A call that waits for the lock has no step while another one holds it, unless a signal
interrupts it. -/
def System.step (fixedSizeLlseek : Int → Int → Int → Int → Int) :
    Move → System → Option (System × Option (Linearization.Event Nat Call Reply))
  | .call thread c, s =>
    match s.task thread with
    | none => some ({ s with
        task := Function.update s.task thread (some ⟨c, s.fpos c.file, .enter⟩) },
        some (.call thread c))
    | some _ => none
  | .step thread, s => do
    let task ← s.task thread
    let position := task.call.position s.fpos task.copy
    match task.place with
    | .waiting writeData =>
      if task.call.locked then do
        let dev ← mutexLock s.kernel.dev
        some (s.move thread task (.locked writeData) { s.kernel with dev }, none)
      else
        some (s.move thread task (.returning ⟨-erestartsys, position, []⟩) s.kernel, none)
    | .unlocking result =>
      some (s.move thread task (.returning result)
        { s.kernel with dev := mutexUnlock s.kernel.dev }, none)
    | .returning result =>
      some ({ s with
        fpos := task.call.storeBack result s.fpos
        task := Function.update s.task thread none },
        some (.ret thread ⟨result.ret, result.delivered⟩))
    | .faulted => none
    | place =>
      match task.call.advance fixedSizeLlseek position place s.kernel with
      | none => some (s.move thread task .faulted s.kernel, none)
      | some (kernel, next) => some (s.move thread task next kernel, none)

/-- A running call of which only its moment matters. -/
inductive Progress where
  | begun (c : Call) (copy : Int)
  | done (c : Call) (result : Result)

/-- The driver's functions in one step each, between the kernel's copying and storing of the file
position. -/
structure AtomicSystem where
  kernel : Kernel
  fpos : Nat → Int
  progress : Nat → Option Progress

def AtomicSystem.initial : AtomicSystem := ⟨aesdInitModule, fun _ => 0, fun _ => none⟩

inductive AtomicMove where
  | call (thread : Nat) (c : Call)
  | operate (thread : Nat)
  | ret (thread : Nat)

def AtomicSystem.step (fixedSizeLlseek : Int → Int → Int → Int → Int) :
    AtomicMove → AtomicSystem →
      Option (AtomicSystem × Option (Linearization.Event Nat Call Reply))
  | .call thread c, o =>
    match o.progress thread with
    | none => some ({ o with
        progress := Function.update o.progress thread (some (.begun c (o.fpos c.file))) },
        some (.call thread c))
    | some _ => none
  | .operate thread, o =>
    match o.progress thread with
    | some (.begun c copy) =>
      (c.operate fixedSizeLlseek (c.position o.fpos copy) o.kernel).map fun r =>
        ({ kernel := r.kernel
           fpos := if c.seeks then setFpos o.fpos c.file r.fpos else o.fpos
           progress := Function.update o.progress thread
            (some (.done c ⟨r.ret, r.fpos, r.delivered⟩)) }, none)
    | _ => none
  | .ret thread, o =>
    match o.progress thread with
    | some (.done c result) => some ({ o with
        fpos := c.storeBack result o.fpos
        progress := Function.update o.progress thread none },
        some (.ret thread ⟨result.ret, result.delivered⟩))
    | _ => none

end Aesd
