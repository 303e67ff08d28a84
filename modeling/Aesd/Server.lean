import Aesd.Chunking
import Aesd.Library.Transition

/-! The socket server with the character device as its data file: `client_data_handler` as
a state machine, one system call or one access to the global `dataFileDescriptor` a step.
The handlers share the process: descriptors, the global and one mutex. What the outside
decides (results of system calls, arrival of bytes) comes with each step. -/
namespace Aesd

def bufLen : Nat := 1024

def ioctlStr : List Byte := "AESDCHAR_IOCSEEKTO:".toList.map fun c => UInt8.ofNat c.toNat

def overlay (buffer bytes : List Byte) : List Byte := bytes ++ buffer.drop bytes.length

/-- `strncmp(receive_buffer, ioctl_str, strlen(ioctl_str)) == 0` -/
def isSeek (buffer : List Byte) : Bool := buffer.take ioctlStr.length == ioctlStr

def isSpace (b : Byte) : Bool := b == 32 || (9 ≤ b && b ≤ 13)

def isDigit (b : Byte) : Bool := 48 ≤ b && b ≤ 57

def scanSign : List Byte → Bool × List Byte
  | 45 :: rest => (true, rest)
  | 43 :: rest => (false, rest)
  | text => (false, text)

def longValue (negative : Bool) (digits : List Byte) : Int :=
  let magnitude : Nat := digits.foldl (fun n d => 10 * n + (d.toNat - 48)) 0
  if negative then max (-2 ^ 63) (-magnitude) else min (2 ^ 63 - 1) magnitude

/-- The conversion `%d`: its value and the text after it. -/
def scanInt (text : List Byte) : Option (Int × List Byte) :=
  let (negative, text) := scanSign (text.dropWhile isSpace)
  let digits := text.takeWhile isDigit
  if digits.isEmpty then none else some (longValue negative digits, text.dropWhile isDigit)

def storeInt (value : Int) : UInt32 := UInt32.ofNat (value % 2 ^ 32).toNat

/-- `sscanf(text, "AESDCHAR_IOCSEEKTO:%d,%d", ...)`; a target that no conversion reaches keeps
what the stack held there. -/
def sscanfSeekto (text : List Byte) (stack : Seekto) : Seekto :=
  if isSeek text then
    match scanInt (text.drop ioctlStr.length) with
    | none => stack
    | some (writeCmd, rest) =>
      let seekto := { stack with writeCmd := storeInt writeCmd }
      match rest with
      | 44 :: rest =>
        match scanInt rest with
        | none => seekto
        | some (writeCmdOffset, _) => { seekto with writeCmdOffset := storeInt writeCmdOffset }
      | _ => seekto
  else stack

def cString (memory : List Byte) : List Byte := memory.takeWhile (· ≠ 0)

inductive Description where
  | data (fpos : Int) (writable : Bool)
  | socket
  deriving DecidableEq, Repr

/-- Why the data file is opened: for a seek request, for received data, for the reply. -/
inductive Phase where
  | seek
  | data
  | reply
  deriving DecidableEq, Repr

/-- The calls on `dataFileDescriptor`; `closeData` follows a write, `closeEnd` the reply. -/
inductive Use where
  | ioctl
  | write
  | closeData
  | read
  | closeEnd
  deriving DecidableEq, Repr

inductive Pc where
  | idle
  | recv
  | opening (phase : Phase)
  | assign (phase : Phase) (fd : Option Nat)
  | check (phase : Phase)
  | lock (phase : Phase)
  | load (use : Use)
  | use (use : Use) (fd : Option Nat)
  | unlock (phase : Phase)
  | send
  | closeSocket
  | complete
  | returned (ok : Bool)
  deriving DecidableEq, Repr

/-- `seeks` says that `ioctl_check` is 0. -/
structure Handler where
  pc : Pc
  clientSocketFd : Nat
  receiveBuffer : List Byte
  bytesReceived : Nat
  seeks : Bool
  seekto : Seekto
  sendBuffer : List Byte
  bytesFromFile : Nat
  isThreadComplete : Bool

structure Shared where
  kernel : Kernel
  files : Nat → Option Description
  dataFileDescriptor : Option Nat
  lock : Option Nat

structure Server where
  shared : Shared
  handler : Nat → Handler

/-- What the outside decides in one step. `stack` is what an uninitialised local holds,
`beyond` the memory after `receive_buffer`; the `socket` fields are for calls that meet a
socket instead of the data file. -/
inductive Answer where
  | recv (bytes : Option (List Byte)) (stack : Seekto) (beyond : List Byte)
  | opened (fd : Option Nat)
  | ioctl (env : ReadEnv)
  | write (env : WriteEnv) (socket : Bool)
  | read (env : ReadEnv) (socket : Option (List Byte))
  | send (sent : Option Nat)
  | quiet

/-- What a step did. `consumed` and `committed` are the bytes the device took and the command
it completed. -/
inductive Event where
  | accepted (id fd : Nat)
  | received (id : Nat) (bytes : Option (List Byte)) (seek : Option Seekto)
  | opened (id : Nat) (fd : Option Nat)
  | assigned (id : Nat) (fd : Option Nat)
  | checked (id : Nat)
  | locked (id : Nat)
  | unlocked (id : Nat)
  | loaded (id : Nat) (fd : Option Nat)
  | sought (id : Nat) (fd : Option Nat) (seekto : Seekto)
  | wrote (id : Nat) (fd : Option Nat) (ok : Bool) (consumed : List Byte)
      (committed : List (List Byte))
  | fetched (id : Nat) (fd : Option Nat) (ok : Bool)
  | closed (id : Nat) (fd : Option Nat)
  | sent (id : Nat) (bytes : List Byte) (sent : Option Nat)
  | socketClosed (id fd : Nat)
  | completed (id : Nat)
  deriving DecidableEq, Repr

def Handler.fresh (fd : Nat) : Handler where
  pc := .recv
  clientSocketFd := fd
  receiveBuffer := List.replicate bufLen 0
  bytesReceived := 0
  seeks := false
  seekto := ⟨0, 0⟩
  sendBuffer := List.replicate bufLen 0
  bytesFromFile := 1
  isThreadComplete := false

def Handler.idle : Handler := { Handler.fresh 0 with pc := .idle }

def Handler.chunk (h : Handler) : List Byte := h.receiveBuffer.take h.bytesReceived

/-- A successful `recv`, the prefix test and, for a seek request, the parse. -/
def Handler.receive (h : Handler) (bytes : List Byte) (stack : Seekto) (beyond : List Byte) :
    Handler :=
  let receiveBuffer := overlay h.receiveBuffer bytes
  let seeks := isSeek receiveBuffer
  { h with
    receiveBuffer := receiveBuffer
    bytesReceived := bytes.length
    seeks := seeks
    seekto := if seeks then sscanfSeekto (cString (receiveBuffer ++ beyond)) stack else h.seekto
    pc := .opening (if seeks then .seek else .data) }

/-- The end of an iteration of the receive loop: the loop ends with a newline. -/
def Handler.nextIteration (h : Handler) : Handler :=
  { h with
    pc := if newline ∈ h.chunk then if h.seeks then .lock .reply else .opening .reply else .recv }

def Phase.writable : Phase → Bool
  | .reply => false
  | _ => true

def setFile (files : Nat → Option Description) (fd : Nat) (d : Option Description) :
    Nat → Option Description :=
  fun other => if other = fd then d else files other

def Shared.lookup (s : Shared) (fd : Option Nat) : Option (Nat × Description) :=
  fd.bind fun n => (s.files n).map fun d => (n, d)

/-- A driver call through descriptor `n` that returned: its effects and whether it succeeded. -/
def Shared.returned (s : Shared) (n : Nat) (writable : Bool) (r : Return) : Bool × Shared :=
  (decide (0 ≤ r.ret),
    { s with kernel := r.kernel, files := setFile s.files n (some (.data r.fpos writable)) })

/-- `write`; the count that it returns is not looked at. -/
def Shared.write (env : WriteEnv) (socket : Bool) (fd : Option Nat) (bytes : List Byte)
    (s : Shared) : Option (Bool × Shared) :=
  match s.lookup fd with
  | some (n, .data fpos true) =>
    (aesdWrite env true (some bytes) fpos s.kernel).map (s.returned n true)
  | some (_, .socket) => some (socket, s)
  | _ => some (false, s)

/-- `read` into a buffer of `bufLen` bytes: what it delivers, or `none` for an error. -/
def Shared.read (env : ReadEnv) (socket : Option (List Byte)) (fd : Option Nat) (s : Shared) :
    Option (Option (List Byte) × Shared) :=
  match s.lookup fd with
  | some (n, .data fpos writable) =>
    (aesdRead env true true bufLen fpos s.kernel).map fun r =>
      let (ok, s) := s.returned n writable r
      (if ok then some r.delivered else none, s)
  | some (_, .socket) => some (socket.map (·.take bufLen), s)
  | none => some (none, s)

/-- `ioctl(fd, AESDCHAR_IOCSEEKTO, &seekto)`; a failure is only logged. -/
def Shared.ioctl (env : ReadEnv) (fd : Option Nat) (seekto : Seekto) (s : Shared) : Option Shared :=
  match s.lookup fd with
  | some (n, .data fpos writable) =>
    (aesdIoctl env aesdcharIocseekto seekto fpos s.kernel).map fun r => (s.returned n writable r).2
  | _ => some s

def Shared.close (fd : Option Nat) (s : Shared) : Shared :=
  match fd with
  | some n => { s with files := setFile s.files n none }
  | none => s

/-- Where a test of `dataFileDescriptor` against ERROR leads. A failed open for writing is
logged, and the handler goes on. -/
def Phase.checked (phase : Phase) (fd : Option Nat) : Pc :=
  match phase, fd with
  | .data, _ => .lock .data
  | _, none => .returned false
  | .seek, some _ => .load .ioctl
  | .reply, some _ => .lock .reply

/-- One step of the handler `id`. `pthread_mutex_lock` waits: with the mutex taken it is no
step. -/
def advance (id : Nat) (answer : Answer) (h : Handler) (s : Shared) :
    Option (Handler × Shared × Event) :=
  match h.pc, answer with
  | .recv, .recv none _ _ => some ({ h with pc := .returned false }, s, .received id none none)
  | .recv, .recv (some bytes) stack beyond =>
    if bytes.length ≤ bufLen then
      let h := h.receive bytes stack beyond
      some (h, s, .received id (some bytes) (if h.seeks then some h.seekto else none))
    else none
  | .opening phase, .opened none => some ({ h with pc := .assign phase none }, s, .opened id none)
  | .opening phase, .opened (some fd) =>
    if (s.files fd).isNone then
      some ({ h with pc := .assign phase (some fd) },
        { s with files := setFile s.files fd (some (.data 0 phase.writable)) }, .opened id (some fd))
    else none
  | .assign phase fd, .quiet =>
    some ({ h with pc := .check phase }, { s with dataFileDescriptor := fd }, .assigned id fd)
  | .check phase, .quiet =>
    some ({ h with pc := phase.checked s.dataFileDescriptor }, s, .checked id)
  | .lock phase, .quiet =>
    if s.lock.isNone then
      some ({ h with pc := .load (if phase = .data then .write else .read) },
        { s with lock := some id }, .locked id)
    else none
  | .load use, .quiet =>
    some ({ h with pc := .use use s.dataFileDescriptor }, s, .loaded id s.dataFileDescriptor)
  | .use .ioctl fd, .ioctl env =>
    (s.ioctl env fd h.seekto).map fun s => (h.nextIteration, s, .sought id fd h.seekto)
  | .use .write fd, .write env socket =>
    (s.write env socket fd h.chunk).map fun (ok, s') =>
      ({ h with pc := if ok then .unlock .data else .returned false }, s',
        .wrote id fd ok (s.kernel.consumed s'.kernel) (s.kernel.committed s'.kernel))
  | .use .closeData fd, .quiet => some (h.nextIteration, s.close fd, .closed id fd)
  | .use .read fd, .read env socket =>
    (s.read env socket fd).map fun (delivered, s') =>
      match delivered with
      | none => ({ h with pc := .returned false }, s', .fetched id fd false)
      | some bytes =>
        ({ h with
            pc := .unlock .reply
            sendBuffer := overlay h.sendBuffer bytes
            bytesFromFile := bytes.length }, s', .fetched id fd true)
  | .use .closeEnd fd, .quiet => some ({ h with pc := .returned true }, s.close fd, .closed id fd)
  | .unlock phase, .quiet =>
    some ({ h with pc := if phase = .data then .load .closeData else .send },
      { s with lock := none }, .unlocked id)
  | .send, .send none =>
    some ({ h with pc := .returned false }, s, .sent id (h.sendBuffer.take h.bytesFromFile) none)
  | .send, .send (some count) =>
    some ({ h with pc := if 0 < h.bytesFromFile then .lock .reply else .closeSocket }, s,
      .sent id (h.sendBuffer.take h.bytesFromFile) (some count))
  | .closeSocket, .quiet =>
    some ({ h with pc := .complete }, s.close (some h.clientSocketFd),
      .socketClosed id h.clientSocketFd)
  | .complete, .quiet =>
    some ({ h with pc := .load .closeEnd, isThreadComplete := true }, s, .completed id)
  | _, _ => none

inductive Action where
  | accept (id fd : Nat)
  | run (id : Nat) (answer : Answer)

def setHandler (handler : Nat → Handler) (id : Nat) (h : Handler) : Nat → Handler :=
  fun other => if other = id then h else handler other

def Server.update (s : Server) (id : Nat) (h : Handler) (shared : Shared) : Server :=
  ⟨shared, setHandler s.handler id h⟩

def Server.step (action : Action) (s : Server) : Option (Server × Event) :=
  match action with
  | .accept id fd =>
    if (s.handler id).pc = .idle ∧ (s.shared.files fd).isNone then
      some (s.update id (.fresh fd)
        { s.shared with files := setFile s.shared.files fd (some .socket) }, .accepted id fd)
    else none
  | .run id answer =>
    (advance id answer (s.handler id) s.shared).map fun (h, shared, event) =>
      (s.update id h shared, event)

def Server.initial : Server := ⟨⟨aesdInitModule, fun _ => none, some 0, none⟩, fun _ => .idle⟩

end Aesd
