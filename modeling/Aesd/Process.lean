import Aesd.Mutex

/-! The whole process: the main thread in `accept_and_log_client` and `cleanup_on_exit`, and
the threads it creates, which run `client_data_handler`. The main thread keeps its clients in
the list `head`; a node is named by the thread that its `thread_data` is for. A signal is
handled in the main thread, in `accept_and_log_client` or in its clean-up. -/
namespace Aesd

/-- The next step of the main thread: `accept_and_log_client` up to `join`, then its error path
that frees the new node, then `cleanup_on_exit`. -/
inductive MainPc where
  | loop
  | accept
  | malloc (fd : Nat)
  | create (freshNode fd : Nat)
  | insert (freshNode : Nat)
  | foreach (rest : List Nat)
  | join (freshNode : Nat) (rest : List Nat)
  | abandon (freshNode : Nat)
  | cleanup
  | remove
  | free (node : Nat)
  | exited
  deriving DecidableEq, Repr

/-- `head` is the list, newest client first; `threadRetVal` says that it is not NULL, and
`joined` lists the threads that `pthread_join` has returned from. `caught` is set when a handler
in this thread has set `fatal_error_in_progress`. -/
structure Main where
  pc : MainPc
  head : List Nat
  threadRetVal : Bool
  joined : List Nat
  caught : Bool
  deriving DecidableEq, Repr

structure Process where
  server : Server
  main : Main

/-- What the outside decides in a step of the main thread. `joined` is for a thread that has
been joined before, where `pthread_join` may return anything. -/
inductive MainAnswer where
  | fatalErrorInProgress (set : Bool)
  | accepted (fd : Option Nat)
  | allocated (node : Option Nat)
  | created (ret : Int)
  | joined (ret : Int) (value : Bool)
  | quiet

inductive ProcessAction where
  | main (answer : MainAnswer)
  | signal
  | run (id : Nat) (answer : Answer)

/-- `passed` is a step of SLIST_FOREACH; it says whether the thread is passed to
`pthread_join`. -/
inductive ProcessEvent where
  | main
  | created (node : Nat)
  | passed (node : Nat) (joins : Bool)
  | joined (node : Nat)
  | freed (node : Nat)
  | signalled
  | handler (event : Event)
  deriving DecidableEq, Repr

def error : Int := -1

def Process.goto (p : Process) (pc : MainPc) : Process := { p with main := { p.main with pc := pc } }

/-- `pthread_join` returned `ret`, with a value that is NULL or not. -/
def Process.afterJoin (p : Process) (node : Nat) (rest : List Nat) (ret : Int) (value : Bool) :
    Process :=
  let threadRetVal := if ret = 0 then value else p.main.threadRetVal
  { p with
    main :=
      { p.main with
        pc := if ret = error then .cleanup else if threadRetVal then .foreach rest else .cleanup
        threadRetVal := threadRetVal
        joined := node :: p.main.joined } }

/-- One step of the main thread. All ways out of `accept_and_log_client` lead to
`cleanup_on_exit`. `pthread_create` and `pthread_join` report failures by positive numbers,
which the code does not look for; `pthread_join` waits for the thread to return. -/
def Process.mainStep (answer : MainAnswer) (p : Process) : Option (Process × ProcessEvent) :=
  match p.main.pc, answer with
  | .loop, .fatalErrorInProgress set => some (p.goto (if set then .cleanup else .accept), .main)
  | .accept, .accepted none => some (p.goto .cleanup, .main)
  | .accept, .accepted (some fd) =>
    if (p.server.shared.files fd).isNone then
      let shared := { p.server.shared with files := setFile p.server.shared.files fd (some .socket) }
      some ({ p.goto (.malloc fd) with server := { p.server with shared := shared } }, .main)
    else none
  | .malloc _, .allocated none => some (p.goto .cleanup, .main)
  | .malloc fd, .allocated (some freshNode) =>
    if (p.server.handler freshNode).pc = .idle ∧ freshNode ∉ p.main.head then
      some (p.goto (.create freshNode fd), .main)
    else none
  | .create freshNode fd, .created ret =>
    if ret = error then some (p.goto (.abandon freshNode), .main)
    else if ret = 0 then
      some ({ p.goto (.insert freshNode) with
        server := p.server.update freshNode (.fresh fd) p.server.shared }, .created freshNode)
    else some (p.goto (.insert freshNode), .main)
  | .insert freshNode, .quiet =>
    let head := freshNode :: p.main.head
    some ({ p with main := { p.main with pc := .foreach head, head := head } }, .main)
  | .foreach [], .quiet => some (p.goto .loop, .main)
  | .foreach (freshNode :: rest), .quiet =>
    if (p.server.handler freshNode).isThreadComplete then
      some (p.goto (.join freshNode rest), .passed freshNode true)
    else some (p.goto (.foreach rest), .passed freshNode false)
  | .join freshNode rest, .joined ret value =>
    match (p.server.handler freshNode).pc with
    | .returned ok =>
      if freshNode ∈ p.main.joined then
        some (p.afterJoin freshNode rest ret value, .joined freshNode)
      else some (p.afterJoin freshNode rest 0 ok, .joined freshNode)
    | _ => none
  | .abandon freshNode, .quiet => some (p.goto .cleanup, .freed freshNode)
  | .cleanup, .quiet =>
    let shared := p.server.shared.close p.server.shared.dataFileDescriptor
    some ({ p.goto .remove with server := { p.server with shared := shared } }, .main)
  | .remove, .quiet =>
    match p.main.head with
    | [] => some (p.goto .exited, .main)
    | node :: rest =>
      some ({ p with main := { p.main with pc := .free node, head := rest } }, .main)
  | .free node, .quiet => some (p.goto .remove, .freed node)
  | _, _ => none

def MainPc.accepting : MainPc → Bool
  | .cleanup | .remove | .free _ | .exited => false
  | _ => true

/-- The handler cleans up, from the start, and ends the process: whatever it interrupted, also a
clean-up, is not gone on with. -/
def Process.handleTermination (p : Process) : Process :=
  { p with main := { p.main with pc := .cleanup, caught := true } }

/-- A step of the main thread, a signal there, or a step of a client's thread. With the main thread
the process ends. A second signal is no step: it is held back, its handler cleans up in the place of
the first one, which has not begun, or it finds the flag set and keeps the main thread from all
further steps. -/
def Process.step (action : ProcessAction) (p : Process) : Option (Process × ProcessEvent) :=
  match action with
  | .main answer => p.mainStep answer
  | .signal =>
    if p.main.caught ∨ p.main.pc = .exited then none else some (p.handleTermination, .signalled)
  | .run id answer =>
    if p.main.pc = .exited then none
    else
      (advance id answer (p.server.handler id) p.server.shared).map fun (h, shared, event) =>
        ({ p with server := p.server.update id h shared }, .handler event)

def Process.initial : Process := ⟨.initial, ⟨.loop, [], false, [], false⟩⟩

end Aesd
