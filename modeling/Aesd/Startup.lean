import Mathlib.Data.List.Infix
import Mathlib.Logic.Function.Basic

/-! The server's process from `main` to its end: `main_socket_application` with `run_daemon` and
`cleanup_on_exit`, and `handle_termination`, which a signal can start between any two statements.
SIGINT and SIGTERM are taken by the main thread; other signals, SIGPIPE among them, do not come. A
call of the library is one statement, also `syslog`, and so is one round of a loop.
`accept_and_log_client` is one statement for each new length of the client list; while it runs, it
and the threads may change the descriptors. -/
namespace Aesd

inductive Signal where
  | sigint
  | sigterm
  deriving DecidableEq, Repr

structure StatusFlags where
  fileOpen : Bool
  logOpen : Bool
  socketOpen : Bool
  clientFdOpen : Bool
  signalCaught : Bool
  daemonMode : Bool
  commandStatusSuccess : Bool
  deriving DecidableEq, Repr

inductive OpenedAs where
  | inherited
  | socket (bound listening : Bool)
  | devNull
  | log
  | other
  deriving DecidableEq, Repr

inductive Stmt where
  | mutexInit
  | openlog
  | getopt
  | signal (sig : Signal)
  | syslog
  | logDaemon
  | getaddrinfo
  | resultNull
  | socket
  | setsockopt
  | bind
  | daemonMode
  | fork
  | setsid
  | chdir
  | close (fd : Nat)
  | openNull
  | dup2 (fd newfd : Nat)
  | listen
  | serve
  | exit
  | exitWith (status : Int)
  | closeData
  | freeNodes
  | mutexDestroy
  | closeSocket
  | closeClient
  | testResult
  | freeaddrinfo
  | nullify
  | closelog
  | testFatal (sig : Signal)
  | setFatal
  | shutdown
  | setCaught
  | signalDefault (sig : Signal)
  | raise (sig : Signal)
  deriving DecidableEq, Repr

/-- `testResult` puts in `freeaddrinfo` and `nullify` unless `result` is NULL. -/
def freeAndNullifyResult : List Stmt := [.testResult]

def cleanupOnExit : List Stmt :=
  [.syslog, .closeData, .freeNodes, .mutexDestroy, .closeSocket, .closeClient] ++
    freeAndNullifyResult ++ [.syslog, .closelog]

/-- What `handle_termination` does in a process that it ends. -/
def gracefulShutdown (sig : Signal) : List Stmt :=
  [.syslog, .shutdown, .setCaught] ++ cleanupOnExit ++ [.signalDefault sig, .raise sig]

def handleTermination (sig : Signal) : List Stmt :=
  .testFatal sig :: .setFatal :: gracefulShutdown sig

def runDaemon : List Stmt := [.fork, .setsid, .chdir, .close 0, .close 1, .close 2, .openNull]

/-- `logDaemon` puts in a `syslog`, and `daemonMode` what `run_daemon` does, when `daemon_mode` is
set. -/
def mainSocketApplication : List Stmt :=
  [.signal .sigint, .signal .sigterm, .syslog, .logDaemon, .getaddrinfo, .resultNull, .socket,
      .setsockopt, .bind] ++
    freeAndNullifyResult ++ [.daemonMode, .listen, .serve] ++ cleanupOnExit

def main : List Stmt := [.mutexInit, .openlog, .getopt] ++ mainSocketApplication ++ [.exit]

/-- Where an error in `main_socket_application` leads. -/
def onError : List Stmt := .syslog :: cleanupOnExit ++ [.exit]

inductive Ending where
  | exited (status : Int)
  | killed (sig : Signal)
  deriving DecidableEq, Repr

/-- The globals, and what the kernel and the library keep: `addrinfo` is whether the list that
`getaddrinfo` allocated is still there, `handled` whether a signal goes to `handle_termination`,
`logFile` the descriptor that `syslog` keeps, `clients` the length of the list `head`, `serving`
whether there can be clients. -/
structure Globals where
  fatalErrorInProgress : Bool
  sFlags : StatusFlags
  result : Bool
  addrinfo : Bool
  lock : Bool
  sockFd : Option Nat
  dataFileDescriptor : Nat
  clientSocketFd : Nat
  files : Nat → Option OpenedAs
  logFile : Option Nat
  clients : Nat
  handled : Signal → Bool
  serving : Bool

/-- The statements still to be executed, by `main` and by the handlers that interrupt it, the
innermost first. -/
structure Startup where
  globals : Globals
  code : List Stmt
  frames : List (Signal × List Stmt)
  pending : Signal → Bool
  ended : Option Ending

inductive StartAnswer where
  | quiet
  | ret (value : Int)
  | fd (fd : Option Nat)
  | addrinfo (ret : Int) (list : Bool)
  | options (opts : List Char)
  | clients (n : Nat)
  deriving DecidableEq, Repr

inductive StartAction where
  | run (answer : StartAnswer)
  | signal (sig : Signal)
  | threads (files : Nat → Option OpenedAs) (logFile : Option Nat)
      (dataFileDescriptor clientSocketFd : Nat)

inductive StartEvent where
  | internal
  | freeaddrinfo (allocated : Bool)
  | caught (sig : Signal)
  | interrupted (sig : Signal)
  | blocked (sig : Signal)
  | ended (ending : Ending)
  deriving DecidableEq, Repr

structure Executed where
  globals : Globals
  next : List Stmt
  event : StartEvent
  raised : Option Signal
  ending : Option Ending

def Globals.then (g : Globals) (next : List Stmt) : Executed := ⟨g, next, .internal, none, none⟩

def Lowest (files : Nat → Option OpenedAs) (fd : Nat) : Prop :=
  files fd = none ∧ ∀ n < fd, files n ≠ none

instance (files : Nat → Option OpenedAs) (fd : Nat) : Decidable (Lowest files fd) :=
  inferInstanceAs (Decidable (_ ∧ _))

def Globals.setFile (g : Globals) (fd : Nat) (opened : Option OpenedAs) : Globals :=
  { g with files := Function.update g.files fd opened }

@[simp] theorem Globals.setFile_same (g : Globals) (fd : Nat) (opened : Option OpenedAs) :
    (g.setFile fd opened).files fd = opened := Function.update_self ..

theorem Globals.setFile_other {n fd : Nat} (g : Globals) (opened : Option OpenedAs)
    (other : n ≠ fd) : (g.setFile fd opened).files n = g.files n := Function.update_of_ne other ..

/-- What the library does when it cannot send: it closes the descriptor of the log. -/
def Globals.dropLog (g : Globals) : Globals :=
  { g with
    files := match g.logFile with
      | some fd => Function.update g.files fd none
      | none => g.files
    logFile := none }

/-- One statement, in front of the statements `rest`. The answer to `syslog` is the descriptor that
it keeps: the one that it could send to, or else the one of a new connection, if there is one. -/
def Stmt.exec (stmt : Stmt) (answer : StartAnswer) (rest : List Stmt) (g : Globals) :
    Option Executed :=
  match stmt, answer with
  | .mutexInit, .ret value =>
    if value = 0 then some ({ g with lock := true }.then rest)
    else some (g.then [.syslog, .exitWith (-1)])
  | .openlog, .quiet => some (g.then rest)
  | .getopt, .options opts =>
    some ({ g with sFlags.daemonMode := g.sFlags.daemonMode || opts.contains 'd' }.then rest)
  | .signal sig, .quiet =>
    some ({ g with handled := Function.update g.handled sig true }.then rest)
  | .syslog, .fd none => some (g.dropLog.then rest)
  | .syslog, .fd (some fd) =>
    if g.logFile = some fd ∧ g.files fd ≠ none then some (g.then rest)
    else if Lowest g.dropLog.files fd then
      some ({ g.dropLog.setFile fd (some .log) with logFile := some fd }.then rest)
    else none
  | .logDaemon, .quiet =>
    if g.sFlags.daemonMode then some (g.then (.syslog :: rest)) else some (g.then rest)
  | .getaddrinfo, .addrinfo ret list =>
    if ret = 0 then some ({ g with result := list, addrinfo := list }.then rest)
    else some (g.then onError)
  | .resultNull, .quiet => if g.result then some (g.then rest) else some (g.then onError)
  | .socket, .fd none => some ({ g with sockFd := none }.then onError)
  | .socket, .fd (some fd) =>
    if Lowest g.files fd then
      some ({ g.setFile fd (some (.socket false false)) with sockFd := some fd }.then rest)
    else none
  | .setsockopt, .ret value => if value = -1 then some (g.then onError) else some (g.then rest)
  | .bind, .ret value =>
    if value = -1 then some (g.then onError)
    else
      match g.sockFd with
      | some fd => some ((g.setFile fd (some (.socket true false))).then rest)
      | none => none
  | .daemonMode, .quiet =>
    if g.sFlags.daemonMode then some (g.then (runDaemon ++ rest)) else some (g.then rest)
  | .fork, .ret pid =>
    if pid < 0 then some (g.then (.syslog :: onError))
    else if 0 < pid then some (g.then [.syslog, .exitWith 0])
    else some (g.then rest)
  | .setsid, .ret value =>
    if value < 0 then some (g.then (.syslog :: onError)) else some (g.then rest)
  | .chdir, .ret value =>
    if value = -1 then some (g.then (.syslog :: onError)) else some (g.then rest)
  | .close fd, .quiet => some ((g.setFile fd none).then rest)
  | .openNull, .fd none => some (g.then (.syslog :: onError))
  | .openNull, .fd (some fd) =>
    if Lowest g.files fd then
      some ((g.setFile fd (some .devNull)).then
        ([.dup2 fd 0, .dup2 fd 1, .dup2 fd 2, .close fd] ++ rest))
    else none
  | .dup2 fd newfd, .ret value =>
    if value = -1 then some (g.then (.syslog :: onError))
    else
      match g.files fd with
      | some opened => some ((g.setFile newfd (some opened)).then rest)
      | none => none
  | .listen, .ret value =>
    if value = -1 then some (g.then onError)
    else
      match g.sockFd with
      | some fd =>
        match g.files fd with
        | some (.socket bound _) =>
          some ({ g.setFile fd (some (.socket bound true)) with serving := true }.then rest)
        | _ => none
      | none => none
  -- `accept_and_log_client` inserts a node and goes on, or it returns
  | .serve, .clients n => some ({ g with clients := n }.then (.serve :: rest))
  | .serve, .ret value => if value = -1 then some (g.then onError) else some (g.then rest)
  | .exit, .quiet =>
    let status := if g.sFlags.commandStatusSuccess then 0 else -1
    some { g.then [] with event := .ended (.exited status), ending := some (.exited status) }
  | .exitWith status, .quiet =>
    some { g.then [] with event := .ended (.exited status), ending := some (.exited status) }
  | .closeData, .quiet =>
    if g.files g.dataFileDescriptor = none then
      some ({ g with sFlags.commandStatusSuccess := false }.then (.syslog :: rest))
    else some ((g.setFile g.dataFileDescriptor none).then rest)
  | .freeNodes, .quiet =>
    match g.clients with
    | 0 => some (g.then rest)
    | n + 1 => some ({ g with clients := n }.then (.freeNodes :: rest))
  | .mutexDestroy, .quiet =>
    if g.sFlags.signalCaught then some (g.then rest)
    else some ({ g with lock := false }.then rest)
  | .closeSocket, .quiet =>
    if g.sFlags.socketOpen then
      some ({ g.setFile (g.sockFd.getD 0) none with sFlags.socketOpen := false }.then rest)
    else some (g.then rest)
  | .closeClient, .quiet =>
    if g.sFlags.clientFdOpen then
      some ({ g.setFile g.clientSocketFd none with sFlags.clientFdOpen := false }.then rest)
    else some (g.then rest)
  | .testResult, .quiet =>
    if g.result then some (g.then (.freeaddrinfo :: .nullify :: rest)) else some (g.then rest)
  | .freeaddrinfo, .quiet =>
    some { { g with addrinfo := false }.then rest with event := .freeaddrinfo g.addrinfo }
  | .nullify, .quiet => some ({ g with result := false }.then rest)
  | .closelog, .quiet =>
    if g.sFlags.logOpen then some ({ g.dropLog with sFlags.logOpen := false }.then rest)
    else some (g.then rest)
  | .testFatal sig, .quiet =>
    if g.fatalErrorInProgress then some (g.then [.raise sig]) else some (g.then rest)
  | .setFatal, .quiet => some ({ g with fatalErrorInProgress := true }.then rest)
  | .shutdown, .ret value =>
    if value = -1 then some (g.then (.syslog :: rest)) else some (g.then rest)
  | .setCaught, .quiet => some ({ g with sFlags.signalCaught := true }.then rest)
  | .signalDefault sig, .quiet =>
    some ({ g with handled := Function.update g.handled sig false }.then rest)
  | .raise sig, .quiet => some { g.then rest with raised := some sig }
  | _, _ => none

def Startup.blocks (s : Startup) (sig : Signal) : Bool := s.frames.any (·.1 = sig)

def Startup.deliver (s : Startup) (frames : List (Signal × List Stmt)) (sig : Signal) :
    Startup × StartEvent :=
  if s.globals.handled sig then
    ({ s with
      frames := (sig, handleTermination sig) :: frames
      pending := Function.update s.pending sig false },
      if s.globals.fatalErrorInProgress then .interrupted sig else .caught sig)
  else ({ s with ended := some (.killed sig) }, .ended (.killed sig))

/-- A signal comes, or is raised. -/
def Startup.notify (s : Startup) (sig : Signal) : Startup × StartEvent :=
  if s.blocks sig then
    ({ s with pending := Function.update s.pending sig true }, .blocked sig)
  else s.deliver s.frames sig

def Startup.executed (s : Startup) (e : Executed) : Startup × StartEvent :=
  let s' := { s with globals := e.globals, ended := e.ending }
  match e.raised with
  | some sig => s'.notify sig
  | none => (s', e.event)

/-- The next statement of the innermost handler, its return, or the next statement of `main`. -/
def Startup.run (s : Startup) (answer : StartAnswer) : Option (Startup × StartEvent) :=
  match s.frames with
  | [] =>
    match s.code with
    | [] => none
    | stmt :: rest =>
      (stmt.exec answer rest s.globals).map fun e => { s with code := e.next }.executed e
  | (sig, []) :: frames =>
    if s.pending sig then some (s.deliver frames sig)
    else some ({ s with frames }, .internal)
  | (sig, stmt :: rest) :: frames =>
    (stmt.exec answer rest s.globals).map fun e =>
      { s with frames := (sig, e.next) :: frames }.executed e

def Startup.step (action : StartAction) (s : Startup) : Option (Startup × StartEvent) :=
  if s.ended.isSome then none
  else match action with
  | .run answer => s.run answer
  | .signal sig => some (s.notify sig)
  | .threads files logFile dataFileDescriptor clientSocketFd =>
    if s.globals.serving then
      some ({ s with
        globals := { s.globals with files, logFile, dataFileDescriptor, clientSocketFd } },
        .internal)
    else none

def StatusFlags.initial : StatusFlags := ⟨false, false, false, false, false, false, false⟩

def Startup.initial (files : Nat → Option OpenedAs) : Startup where
  globals :=
    { fatalErrorInProgress := false
      sFlags := .initial
      result := false
      addrinfo := false
      lock := false
      sockFd := some 0
      dataFileDescriptor := 0
      clientSocketFd := 0
      files := files
      logFile := none
      clients := 0
      handled := fun _ => false
      serving := false }
  code := main
  frames := []
  pending _ := false
  ended := none

end Aesd
