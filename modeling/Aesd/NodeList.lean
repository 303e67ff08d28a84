import Aesd.Library.LinkedList
import Aesd.Process

/-! The client list of the main thread as it is in memory: nodes that point to each other, handled
by the macros of `queue.h`. A statement that reads or writes a node or `head` is a step of its own,
and a signal may come before each, also in the clean-up. The pointer `node` is part of the control
point: the handler, which sets the global of that name anew, does not return to a clean-up that it
interrupts. Allocated memory holds anything at first; an access to memory that is not allocated
leads to `undefined`, from where there is no step. -/
namespace Aesd

/-- `struct node`: what the code looks at in `thread_data`, and `nodes.sle_next`. -/
structure Node where
  isThreadComplete : Bool
  clientSocketFd : Nat
  sleNext : Option Nat
  deriving DecidableEq, Repr

/-- The next step of the main thread. `freshNode` and `node` are the pointers of these names. -/
inductive NodePc where
  | loop
  | accept
  | malloc (fd : Nat)
  | populate (freshNode fd : Nat)
  | create (freshNode : Nat)
  | linkNext (freshNode : Nat)
  | linkFirst (freshNode : Nat)
  | forInit
  | forTest (freshNode : Option Nat)
  | forNext (freshNode : Nat)
  | join (freshNode : Nat)
  | abandon (freshNode : Nat)
  | cleanup
  | empty
  | remove (node : Nat)
  | search (node curelm : Nat)
  | removeAfter (node curelm : Nat)
  | free (node : Nat)
  | exited
  | undefined
  deriving DecidableEq, Repr

/-- The process, with `thread_data` of a handler in its node. -/
structure Linked where
  shared : Shared
  handler : Nat → Handler
  nodes : Nat → Option Node
  slhFirst : Option Nat
  pc : NodePc
  threadRetVal : Bool
  joined : List Nat
  caught : Bool

/-- `silent` is a step between two events of the process. `fault` is an access of the main thread
to memory that is not allocated, `dangling` a step of a thread whose node was freed. -/
inductive NodeEvent where
  | seen (event : ProcessEvent)
  | silent
  | fault
  | dangling (id : Nat)
  deriving DecidableEq, Repr

def NodeEvent.visible : NodeEvent → List ProcessEvent
  | .seen event => [event]
  | _ => []

def NodePc.accepting : NodePc → Bool
  | .cleanup | .empty | .remove _ | .search _ _ | .removeAfter _ _ | .free _ | .exited
  | .undefined => false
  | _ => true

def Linked.goto (c : Linked) (pc : NodePc) : Linked := { c with pc := pc }

def Linked.store (c : Linked) (a : Nat) (node : Option Node) : Linked :=
  { c with nodes := Function.update c.nodes a node }

def Linked.access (c : Linked) (a : Nat) (statement : Node → Option (Linked × NodeEvent)) :
    Option (Linked × NodeEvent) :=
  match c.nodes a with
  | some node => statement node
  | none => some (c.goto .undefined, .fault)

def Linked.afterJoin (c : Linked) (freshNode : Nat) (ret : Int) (value : Bool) : Linked :=
  let threadRetVal := if ret = 0 then value else c.threadRetVal
  { c with
    pc := if ret = error then .cleanup else if threadRetVal then .forNext freshNode else .cleanup
    threadRetVal := threadRetVal
    joined := freshNode :: c.joined }

/-- SLIST_INSERT_HEAD is `linkNext` and `linkFirst`, SLIST_FOREACH is `forInit`, `forTest` and
`forNext`, SLIST_REMOVE is `remove`, `search` and `removeAfter`. The new memory is `garbage`. -/
def Linked.mainStep (garbage : Nat → Node) (answer : MainAnswer) (c : Linked) :
    Option (Linked × NodeEvent) :=
  match c.pc, answer with
  | .loop, .fatalErrorInProgress set =>
    some (c.goto (if set then .cleanup else .accept), .seen .main)
  | .accept, .accepted none => some (c.goto .cleanup, .seen .main)
  | .accept, .accepted (some fd) =>
    if (c.shared.files fd).isNone then
      let shared := { c.shared with files := setFile c.shared.files fd (some .socket) }
      some ({ c.goto (.malloc fd) with shared := shared }, .seen .main)
    else none
  | .malloc _, .allocated none => some (c.goto .cleanup, .seen .main)
  | .malloc fd, .allocated (some freshNode) =>
    if (c.nodes freshNode).isNone then
      some ((c.goto (.populate freshNode fd)).store freshNode (some (garbage freshNode)),
        .seen .main)
    else none
  | .populate freshNode fd, .quiet =>
    c.access freshNode fun node =>
      some ((c.goto (.create freshNode)).store freshNode
        (some { node with isThreadComplete := false, clientSocketFd := fd }), .silent)
  | .create freshNode, .created ret =>
    c.access freshNode fun _ =>
      if ret = error then some (c.goto (.abandon freshNode), .seen .main)
      else if ret = 0 then
        some ({ c.goto (.linkNext freshNode) with
          handler := setHandler c.handler freshNode (.fresh 0) }, .seen (.created freshNode))
      else some (c.goto (.linkNext freshNode), .seen .main)
  | .linkNext freshNode, .quiet =>
    c.access freshNode fun node =>
      some ((c.goto (.linkFirst freshNode)).store freshNode
        (some { node with sleNext := c.slhFirst }), .silent)
  | .linkFirst freshNode, .quiet =>
    some ({ c.goto .forInit with slhFirst := some freshNode }, .seen .main)
  | .forInit, .quiet => some (c.goto (.forTest c.slhFirst), .silent)
  | .forTest none, .quiet => some (c.goto .loop, .seen .main)
  | .forTest (some freshNode), .quiet =>
    c.access freshNode fun node =>
      if node.isThreadComplete then
        some (c.goto (.join freshNode), .seen (.passed freshNode true))
      else some (c.goto (.forNext freshNode), .seen (.passed freshNode false))
  | .forNext freshNode, .quiet =>
    c.access freshNode fun node => some (c.goto (.forTest node.sleNext), .silent)
  | .join freshNode, .joined ret value =>
    c.access freshNode fun _ =>
      match (c.handler freshNode).pc with
      | .returned ok =>
        if freshNode ∈ c.joined then
          some (c.afterJoin freshNode ret value, .seen (.joined freshNode))
        else some (c.afterJoin freshNode 0 ok, .seen (.joined freshNode))
      | _ => none
  | .abandon freshNode, .quiet =>
    c.access freshNode fun _ =>
      some ((c.goto .cleanup).store freshNode none, .seen (.freed freshNode))
  | .cleanup, .quiet =>
    let shared := c.shared.close c.shared.dataFileDescriptor
    some ({ c.goto .empty with shared := shared }, .seen .main)
  | .empty, .quiet =>
    match c.slhFirst with
    | none => some (c.goto .exited, .seen .main)
    | some node => some (c.goto (.remove node), .silent)
  | .remove node, .quiet =>
    if c.slhFirst = some node then
      c.access node fun first =>
        some ({ c.goto (.free node) with slhFirst := first.sleNext }, .seen .main)
    else
      match c.slhFirst with
      | some curelm => some (c.goto (.search node curelm), .silent)
      | none => some (c.goto .undefined, .fault)
  | .search node curelm, .quiet =>
    c.access curelm fun cur =>
      if cur.sleNext = some node then some (c.goto (.removeAfter node curelm), .silent)
      else
        match cur.sleNext with
        | some next => some (c.goto (.search node next), .silent)
        | none => some (c.goto .undefined, .fault)
  | .removeAfter node curelm, .quiet =>
    c.access curelm fun cur =>
      match cur.sleNext with
      | some next =>
        c.access next fun after =>
          some ((c.goto (.free node)).store curelm (some { cur with sleNext := after.sleNext }),
            .seen .main)
      | none => some (c.goto .undefined, .fault)
  | .free node, .quiet =>
    c.access node fun _ => some ((c.goto .empty).store node none, .seen (.freed node))
  | _, _ => none

def Node.handler (node : Node) (h : Handler) : Handler :=
  { h with isThreadComplete := node.isThreadComplete, clientSocketFd := node.clientSocketFd }

/-- The threads read `thread_data` and set `isThreadComplete` in it. -/
def Linked.step (garbage : Nat → Node) (action : ProcessAction) (c : Linked) :
    Option (Linked × NodeEvent) :=
  match action with
  | .main answer => c.mainStep garbage answer
  | .signal =>
    if c.caught ∨ c.pc = .exited ∨ c.pc = .undefined then none
    else some ({ c.goto .cleanup with caught := true }, .seen .signalled)
  | .run id answer =>
    if c.pc = .exited ∨ c.pc = .undefined then none
    else
      match c.nodes id with
      | some node =>
        (advance id answer (node.handler (c.handler id)) c.shared).map fun (h, shared, event) =>
          ({ c.store id (some { node with isThreadComplete := h.isThreadComplete }) with
            handler := setHandler c.handler id h
            shared := shared }, .seen (.handler event))
      | none =>
        match (c.handler id).pc with
        | .idle | .returned _ => none
        | _ => some (c.goto .undefined, .dangling id)

def Linked.initial : Linked where
  shared := Server.initial.shared
  handler := fun _ => .idle
  nodes := fun _ => none
  slhFirst := none
  pc := .loop
  threadRetVal := false
  joined := []
  caught := false

end Aesd
