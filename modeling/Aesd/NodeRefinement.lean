import Aesd.Descriptors
import Aesd.Lifecycle
import Aesd.NodeList

/-! The list in memory refines the list of the process: every run with pointers shows the events of
a run of the process, and its pointers reach the nodes of the list `head`, in its order. -/
namespace Aesd

open LinkedList

variable {garbage : Nat → Node} {action : ProcessAction} {actions : List ProcessAction}
  {answer : MainAnswer} {c c' : Linked} {p : Process} {event : NodeEvent}
  {events : List NodeEvent} {id n : Nat} {node node' : Node} {head rest : List Nat}
  {nodes : Nat → Option Node} {handler : Nat → Handler} {first var lost lost' : Option Nat}

def cells (nodes : Nat → Option Node) : Nat → Option (Option Nat) :=
  fun a => (nodes a).map Node.sleNext

structure Apart (nodes : Nat → Option Node) (head : List Nat) (n : Nat) (node : Node) : Prop where
  cell : nodes n = some node
  outside : n ∉ head

/-- Before the thread of a node runs, it is not complete. -/
def Clear (handler : Nat → Handler) (n : Nat) (node : Node) : Prop :=
  (handler n).pc = .idle → node.isThreadComplete = false

inductive Located (nodes : Nat → Option Node) (handler : Nat → Handler) (first : Option Nat)
    (head : List Nat) : NodePc → MainPc → Prop
  | loop : Located nodes handler first head .loop .loop
  | accept : Located nodes handler first head .accept .accept
  | malloc (fd : Nat) : Located nodes handler first head (.malloc fd) (.malloc fd)
  | populate (n fd : Nat) (node : Node) (apart : Apart nodes head n node)
      (idle : (handler n).pc = .idle) :
      Located nodes handler first head (.populate n fd) (.create n fd)
  | create (n fd : Nat) (next : Option Nat) (apart : Apart nodes head n ⟨false, fd, next⟩)
      (idle : (handler n).pc = .idle) : Located nodes handler first head (.create n) (.create n fd)
  | linkNext (n : Nat) (node : Node) (apart : Apart nodes head n node)
      (clear : Clear handler n node) : Located nodes handler first head (.linkNext n) (.insert n)
  | linkFirst (n : Nat) (node : Node) (apart : Apart nodes head n node)
      (clear : Clear handler n node) (linked : node.sleNext = first) :
      Located nodes handler first head (.linkFirst n) (.insert n)
  | forInit : Located nodes handler first head .forInit (.foreach head)
  | forTest (var : Option Nat) (rest : List Nat) (chain : Chain (cells nodes) var rest)
      (inside : rest ⊆ head) : Located nodes handler first head (.forTest var) (.foreach rest)
  | forNext (n : Nat) (node : Node) (rest : List Nat) (cell : nodes n = some node)
      (chain : Chain (cells nodes) node.sleNext rest) (inside : rest ⊆ head) :
      Located nodes handler first head (.forNext n) (.foreach rest)
  | join (n : Nat) (node : Node) (rest : List Nat) (cell : nodes n = some node)
      (chain : Chain (cells nodes) node.sleNext rest) (inside : rest ⊆ head) :
      Located nodes handler first head (.join n) (.join n rest)
  | abandon (n : Nat) (node : Node) (apart : Apart nodes head n node) :
      Located nodes handler first head (.abandon n) (.abandon n)
  | cleanup : Located nodes handler first head .cleanup .cleanup
  | empty : Located nodes handler first head .empty .remove
  | remove (n : Nat) (same : first = some n) : Located nodes handler first head (.remove n) .remove
  | free (n : Nat) (node : Node) (apart : Apart nodes head n node) :
      Located nodes handler first head (.free n) (.free n)
  | exited (ended : head = []) : Located nodes handler first head .exited .exited
  | undefined (pc : MainPc) : Located nodes handler first head .undefined pc

def NodePc.own : NodePc → Option Nat
  | .populate n _ | .create n | .linkNext n | .linkFirst n | .abandon n | .free n => some n
  | _ => none

/-- The state with pointers stands for this state of the process. A node is in the list, held by
the main thread, or `lost`, as the main thread held it when the signal came. -/
structure Linked.Refines (c : Linked) (lost : Option Nat) (p : Process) : Prop where
  shared : p.server.shared = c.shared
  idle : ∀ id, (c.handler id).pc = .idle → p.server.handler id = .idle
  started : ∀ id node, c.nodes id = some node → (c.handler id).pc ≠ .idle →
    p.server.handler id = node.handler (c.handler id)
  clear : ∀ id ∈ p.main.head, ∀ node, c.nodes id = some node → Clear c.handler id node
  unused : c.pc.accepting = true → ∀ id, c.nodes id = none → (c.handler id).pc = .idle
  chain : Chain (cells c.nodes) c.slhFirst p.main.head
  threadRetVal : p.main.threadRetVal = c.threadRetVal
  joined : p.main.joined = c.joined
  owned : c.pc ≠ .undefined → ∀ a, c.nodes a ≠ none →
    a ∈ p.main.head ∨ c.pc.own = some a ∨ lost = some a
  caught : p.main.caught = c.caught
  kept : c.caught = false → lost = none
  place : Located c.nodes c.handler c.slhFirst p.main.head c.pc p.main.pc

theorem Linked.initial_refines : Linked.initial.Refines none .initial where
  shared := rfl
  idle _ _ := rfl
  started id node cell := by cases cell
  clear id member := by cases member
  unused _ _ _ := rfl
  chain := .nil
  threadRetVal := rfl
  joined := rfl
  owned _ a cell := absurd rfl cell
  caught := rfl
  kept _ := rfl
  place := .loop

theorem cells_update (nodes : Nat → Option Node) (a : Nat) (node : Option Node) :
    cells (Function.update nodes a node) =
      Function.update (cells nodes) a (node.map Node.sleNext) := by
  funext b
  by_cases same : b = a
  · simp [same, cells]
  · simp [same, cells]

/-- A write to a node that keeps its pointer keeps all lists. -/
theorem cells_keep (cell : nodes n = some node) (same : node'.sleNext = node.sleNext) :
    cells (Function.update nodes n (some node')) = cells nodes := by
  rw [cells_update]
  apply Function.update_eq_self_iff.mpr
  rw [cells, cell, Option.map_some, Option.map_some, same]

theorem Linked.store_same (c : Linked) (a : Nat) (node : Option Node) :
    (c.store a node).nodes a = node := Function.update_self ..

theorem Linked.store_other (c : Linked) (node : Option Node) {a b : Nat} (different : b ≠ a) :
    (c.store a node).nodes b = c.nodes b := Function.update_of_ne different ..

theorem Linked.access_of_cell (cell : c.nodes n = some node)
    (statement : Node → Option (Linked × NodeEvent)) : c.access n statement = statement node := by
  rw [Linked.access, cell]

theorem Linked.Refines.pc (refines : c.Refines lost p) (cell : c.nodes id = some node) :
    (p.server.handler id).pc = (c.handler id).pc := by
  by_cases idle : (c.handler id).pc = .idle
  · rw [refines.idle id idle, idle]
    rfl
  · rw [refines.started id node cell idle]
    rfl

theorem Linked.Refines.isThreadComplete (refines : c.Refines lost p) (cell : c.nodes id = some node)
    (member : id ∈ p.main.head) :
    (p.server.handler id).isThreadComplete = node.isThreadComplete := by
  by_cases idle : (c.handler id).pc = .idle
  · rw [refines.idle id idle, refines.clear id member node cell idle]
    rfl
  · rw [refines.started id node cell idle]
    rfl

theorem chain_cell (chain : Chain (cells nodes) (some n) rest) :
    ∃ node tail, nodes n = some node ∧ rest = n :: tail ∧ n ∉ tail ∧
      Chain (cells nodes) node.sleNext tail := by
  obtain ⟨next, tail, cell, rfl, outside, chain⟩ := chain.remove_head
  obtain ⟨node, stored, rfl⟩ := Option.map_eq_some_iff.mp cell
  exact ⟨node, tail, stored, rfl, outside, chain⟩

def Shown (lost : Option Nat) (p : Process) (c' : Linked) (event : NodeEvent) : Prop :=
  ∃ actions p' lost', Transition.execute Process.step actions p = some (p', event.visible) ∧
    c'.Refines lost' p' ∧ event ≠ .fault ∧ (lost' = lost ∨ event = .seen .signalled)

theorem Shown.silent (refines : c'.Refines lost p) : Shown lost p c' .silent :=
  ⟨[], p, lost, rfl, refines, NodeEvent.noConfusion, .inl rfl⟩

theorem Shown.seen {p' : Process} {shown : ProcessEvent}
    (step : Process.step action p = some (p', shown)) (refines : c'.Refines lost p') :
    Shown lost p c' (.seen shown) :=
  ⟨[action], p', lost, Transition.execute_singleton.mpr ⟨shown, step, rfl⟩, refines,
    NodeEvent.noConfusion, .inl rfl⟩

/-- The main thread goes on and keeps the node that it holds. -/
structure NodePc.Goes (before after : NodePc) : Prop where
  accepting : after.accepting = true → before.accepting = true
  own : ∀ a, before.own = some a → after.own = some a
  defined : before ≠ .undefined

theorem NodePc.Goes.of {before pc after : NodePc} (here : before = pc)
    (accepting : pc.accepting = true ∨ after.accepting = false)
    (own : pc.own = none ∨ pc.own = after.own) (defined : pc ≠ .undefined) : before.Goes after := by
  subst here
  refine ⟨fun accepts => ?_, fun a held => ?_, defined⟩
  · rcases accepting with accepting | refuses
    · exact accepting
    · cases refuses.symm.trans accepts
  · rcases own with none | same
    · cases none.symm.trans held
    · exact same.symm.trans held

theorem own_held {pc : NodePc} (here : c.pc = pc) (held : pc.own = none ∨ pc.own = some n)
    (a : Nat) (own : c.pc.own = some a) : a = n := by
  rw [here] at own
  rcases held with none | some
  · cases none.symm.trans own
  · exact Option.some.inj (own.symm.trans some)

theorem defined_of {pc : NodePc} (here : c.pc = pc) (other : pc ≠ .undefined) :
    c.pc ≠ .undefined := here ▸ other

theorem Linked.Refines.owned_goes (refines : c.Refines lost p) {pc : NodePc} (goes : c.pc.Goes pc) :
    ∀ a, c.nodes a ≠ none → a ∈ p.main.head ∨ pc.own = some a ∨ lost = some a := by
  intro a cell
  rcases refines.owned goes.defined a cell with listed | own | gone
  · exact .inl listed
  · exact .inr (.inl (goes.own a own))
  · exact .inr (.inr gone)

theorem Linked.Refines.goto (refines : c.Refines lost p) {pc : NodePc} {pc' : MainPc}
    (place : Located c.nodes c.handler c.slhFirst p.main.head pc pc') (goes : c.pc.Goes pc) :
    (c.goto pc).Refines lost (p.goto pc') :=
  { refines with
    unused := fun accepts => refines.unused (goes.accepting accepts)
    owned := fun _ => refines.owned_goes goes
    place := place }

theorem Linked.Refines.goto_silent (refines : c.Refines lost p) {pc : NodePc}
    (place : Located c.nodes c.handler c.slhFirst p.main.head pc p.main.pc) (goes : c.pc.Goes pc) :
    (c.goto pc).Refines lost p :=
  { refines with
    unused := fun accepts => refines.unused (goes.accepting accepts)
    owned := fun _ => refines.owned_goes goes
    place := place }

/-- The main thread goes on after a write to a node outside the list. -/
theorem Linked.Refines.write (refines : c.Refines lost p) (outside : n ∉ p.main.head)
    {node : Option Node} {pc : NodePc} {pc' : MainPc}
    (started : ∀ node', node = some node' → (c.handler n).pc ≠ .idle →
      p.server.handler n = node'.handler (c.handler n))
    (unused : pc.accepting = true → c.pc.accepting = true ∧
      (node = none → (c.handler n).pc = .idle))
    (own : (∀ a, c.pc.own = some a → a = n) ∧ (node ≠ none → pc.own = some n))
    (defined : c.pc ≠ .undefined)
    (place : Located (Function.update c.nodes n node) c.handler c.slhFirst p.main.head pc pc') :
    ((c.goto pc).store n node).Refines lost (p.goto pc') where
  shared := refines.shared
  idle := refines.idle
  started := by
    intro id node' cell running
    by_cases same : id = n
    · subst same
      exact started node' ((Linked.store_same ..).symm.trans cell) running
    · exact refines.started id node' ((Linked.store_other _ _ same).symm.trans cell) running
  clear := by
    intro id member node' cell
    have different : id ≠ n := by
      rintro rfl
      exact outside member
    exact refines.clear id member node' ((Linked.store_other _ _ different).symm.trans cell)
  unused := by
    intro accepts id gone
    obtain ⟨before, idle⟩ := unused accepts
    by_cases same : id = n
    · subst same
      exact idle ((Linked.store_same ..).symm.trans gone)
    · exact refines.unused before id ((Linked.store_other _ _ same).symm.trans gone)
  chain := by
    have kept := refines.chain.update outside (node.map Node.sleNext)
    rw [← cells_update] at kept
    exact kept
  threadRetVal := refines.threadRetVal
  joined := refines.joined
  owned := by
    intro _ a cell
    by_cases same : a = n
    · subst same
      exact .inr (.inl (own.2 (fun gone => cell ((Linked.store_same ..).trans gone))))
    · have stored : c.nodes a ≠ none :=
        fun gone => cell ((Linked.store_other _ _ same).trans gone)
      rcases refines.owned defined a stored with listed | held | gone
      · exact .inl listed
      · exact absurd (own.1 a held) same
      · exact .inr (.inr gone)
  caught := refines.caught
  kept := refines.kept
  place := place

theorem Linked.Refines.write_silent (refines : c.Refines lost p) (outside : n ∉ p.main.head)
    {node : Option Node} {pc : NodePc} {pc' : MainPc} (there : p.main.pc = pc')
    (started : ∀ node', node = some node' → (c.handler n).pc ≠ .idle →
      p.server.handler n = node'.handler (c.handler n))
    (unused : pc.accepting = true → c.pc.accepting = true ∧
      (node = none → (c.handler n).pc = .idle))
    (own : (∀ a, c.pc.own = some a → a = n) ∧ (node ≠ none → pc.own = some n))
    (defined : c.pc ≠ .undefined)
    (place : Located (Function.update c.nodes n node) c.handler c.slhFirst p.main.head pc pc') :
    ((c.goto pc).store n node).Refines lost p := by
  subst there
  exact refines.write outside started unused own defined place

theorem Linked.Refines.early (refines : c.Refines lost p)
    (step : c.mainStep garbage answer = some (c', event))
    (early : c.pc = .loop ∨ c.pc = .accept ∨ ∃ fd, c.pc = .malloc fd) :
    Shown lost p c' event := by
  have place := refines.place
  generalize there : p.main.pc = pc' at place
  rcases early with here | here | ⟨fd, here⟩
  · rw [here] at place
    cases place
    cases answer with
    | fatalErrorInProgress set =>
      simp only [Linked.mainStep, here, Option.some.injEq, Prod.mk.injEq] at step
      obtain ⟨rfl, rfl⟩ := step
      have one : Process.step (.main (.fatalErrorInProgress set)) p =
          some (p.goto (if set then .cleanup else .accept), .main) := by
        simp only [Process.step, Process.mainStep, there]
      refine .seen one (refines.goto ?_ ?_)
      · cases set
        · exact .accept
        · exact .cleanup
      · cases set
        · exact .of here (.inl rfl) (.inl rfl) NodePc.noConfusion
        · exact .of here (.inr rfl) (.inl rfl) NodePc.noConfusion
    | _ => simp [Linked.mainStep, here] at step
  · rw [here] at place
    cases place
    cases answer with
    | accepted fd =>
      cases fd with
      | none =>
        simp only [Linked.mainStep, here, Option.some.injEq, Prod.mk.injEq] at step
        obtain ⟨rfl, rfl⟩ := step
        have one : Process.step (.main (.accepted none)) p = some (p.goto .cleanup, .main) := by
          simp only [Process.step, Process.mainStep, there]
        exact .seen one (refines.goto .cleanup (.of here (.inr rfl) (.inl rfl) NodePc.noConfusion))
      | some fd =>
        simp only [Linked.mainStep, here] at step
        split at step
        · rename_i free
          cases step
          rw [← refines.shared] at free ⊢
          let shared :=
            { p.server.shared with files := setFile p.server.shared.files fd (some .socket) }
          let server := { p.server with shared := shared }
          have one : Process.step (.main (.accepted (some fd))) p =
              some ({ p.goto (.malloc fd) with server := server }, .main) := by
            simp only [Process.step, Process.mainStep, there, if_pos free, server, shared]
          have goes : c.pc.Goes (.malloc fd) := .of here (.inl rfl) (.inr rfl) NodePc.noConfusion
          have after := refines.goto (.malloc fd) goes
          exact .seen one { after with shared := rfl, place := .malloc fd }
        · cases step
    | _ => simp [Linked.mainStep, here] at step
  · rw [here] at place
    cases place
    cases answer with
    | allocated block =>
      cases block with
      | none =>
        simp only [Linked.mainStep, here, Option.some.injEq, Prod.mk.injEq] at step
        obtain ⟨rfl, rfl⟩ := step
        have one : Process.step (.main (.allocated none)) p = some (p.goto .cleanup, .main) := by
          simp only [Process.step, Process.mainStep, there]
        exact .seen one (refines.goto .cleanup (.of here (.inr rfl) (.inl rfl) NodePc.noConfusion))
      | some n =>
        simp only [Linked.mainStep, here] at step
        split at step
        · rename_i free
          cases step
          have free := Option.isNone_iff_eq_none.mp free
          have idle := refines.unused (by rw [here]; rfl) n free
          have outside : n ∉ p.main.head := by
            intro member
            obtain ⟨next, cell⟩ := refines.chain.allocated member
            rw [cells, free] at cell
            cases cell
          have fresh : (p.server.handler n).pc = .idle ∧ n ∉ p.main.head :=
            ⟨by rw [refines.idle n idle]; rfl, outside⟩
          have one : Process.step (.main (.allocated (some n))) p =
              some (p.goto (.create n fd), .main) := by
            simp only [Process.step, Process.mainStep, there, if_pos fresh]
          refine .seen one (refines.write outside ?_ ?_ ?_ ?_ ?_)
          · exact fun _ _ running => absurd idle running
          · exact fun _ => ⟨by rw [here]; rfl, fun none => by cases none⟩
          · exact ⟨own_held here (.inl rfl), fun _ => rfl⟩
          · exact defined_of here NodePc.noConfusion
          · exact .populate n fd _ ⟨Function.update_self .., outside⟩ idle
        · cases step
    | _ => simp [Linked.mainStep, here] at step

/-- The thread of the new node begins. -/
theorem Linked.Refines.created (refines : c.Refines lost p) (here : c.pc = .create n) {fd : Nat}
    {next : Option Nat} (apart : Apart c.nodes p.main.head n ⟨false, fd, next⟩) :
    ({ c.goto (.linkNext n) with handler := setHandler c.handler n (.fresh 0) } : Linked).Refines
      lost { p.goto (.insert n) with server := p.server.update n (.fresh fd) p.server.shared } := by
  obtain ⟨cell, outside⟩ := apart
  have other : ∀ id, id ≠ n →
      (p.server.update n (.fresh fd) p.server.shared).handler id = p.server.handler id :=
    fun _ different => update_other p.server different
  have own : (p.server.update n (.fresh fd) p.server.shared).handler n = .fresh fd :=
    update_handler ..
  have goes : c.pc.Goes (.linkNext n) := .of here (.inl rfl) (.inr rfl) NodePc.noConfusion
  have after := refines.goto (.linkNext n _ ⟨cell, outside⟩ (fun _ => rfl)) goes
  refine
    { after with
      idle := ?_
      started := ?_
      clear := ?_
      unused := ?_
      place := .linkNext n _ ⟨cell, outside⟩ (fun _ => rfl) }
  · intro id idle
    by_cases same : id = n
    · rw [same] at idle
      simp [setHandler, Handler.fresh] at idle
    · simp only [setHandler, if_neg same] at idle
      exact (other id same).trans (refines.idle id idle)
  · intro id node stored running
    by_cases same : id = n
    · subst same
      cases cell.symm.trans stored
      rw [own]
      simp [setHandler, Node.handler, Handler.fresh]
    · simp only [setHandler, if_neg same] at running ⊢
      exact (other id same).trans (refines.started id node stored running)
  · intro id member node stored
    have different : id ≠ n := by
      rintro rfl
      exact outside member
    simp only [Clear, setHandler, if_neg different]
    exact refines.clear id member node stored
  · intro _ id gone
    have different : id ≠ n := by
      rintro rfl
      cases cell.symm.trans gone
    simp only [setHandler, if_neg different]
    exact refines.unused (by rw [here]; rfl) id gone

/-- The new node becomes the first one of the list. -/
theorem Linked.Refines.inserted (refines : c.Refines lost p) (here : c.pc = .linkFirst n)
    (cell : c.nodes n = some node) (clear : Clear c.handler n node)
    (linked : node.sleNext = c.slhFirst) :
    ({ c.goto .forInit with slhFirst := some n } : Linked).Refines lost
      { p with main :=
        { p.main with pc := .foreach (n :: p.main.head), head := n :: p.main.head } } := by
  have pointer : cells c.nodes n = some c.slhFirst := by
    rw [cells, cell, ← linked]
    rfl
  have accepting : c.pc.accepting = true := by
    rw [here]
    rfl
  refine
    { refines with
      clear := ?_
      unused := fun _ => refines.unused accepting
      chain := .cons pointer refines.chain
      owned := ?_
      place := .forInit }
  · intro id member node' stored
    rcases List.mem_cons.mp member with rfl | later
    · cases cell.symm.trans stored
      exact clear
    · exact refines.clear id later node' stored
  · intro _ a stored
    rcases refines.owned (defined_of here NodePc.noConfusion) a stored with listed | held | gone
    · exact .inl (List.mem_cons_of_mem _ listed)
    · rw [own_held here (.inr rfl) a held]
      exact .inl List.mem_cons_self
    · exact .inr (.inr gone)

/-- From the new node to its insertion into the list. -/
theorem Linked.Refines.fresh (refines : c.Refines lost p)
    (step : c.mainStep garbage answer = some (c', event))
    (fresh : (∃ n fd, c.pc = .populate n fd) ∨ ∃ n, c.pc = .create n ∨ c.pc = .linkNext n ∨
      c.pc = .linkFirst n ∨ c.pc = .abandon n) : Shown lost p c' event := by
  have place := refines.place
  generalize there : p.main.pc = pc' at place
  rcases fresh with ⟨n, fd, here⟩ | ⟨n, here | here | here | here⟩
  · rw [here] at place
    cases place with | populate _ _ node apart idle =>
    obtain ⟨cell, outside⟩ := apart
    cases answer with
    | quiet =>
      simp only [Linked.mainStep, here, Linked.access_of_cell cell, Option.some.injEq,
        Prod.mk.injEq] at step
      obtain ⟨rfl, rfl⟩ := step
      refine .silent (refines.write_silent outside there ?_ ?_ ?_ ?_ ?_)
      · exact fun _ _ running => absurd idle running
      · exact fun _ => ⟨by rw [here]; rfl, fun none => by cases none⟩
      · exact ⟨own_held here (.inr rfl), fun _ => rfl⟩
      · exact defined_of here NodePc.noConfusion
      · exact .create n fd node.sleNext ⟨Function.update_self .., outside⟩ idle
    | _ => simp [Linked.mainStep, here] at step
  · rw [here] at place
    cases place with | create _ fd next apart idle =>
    obtain ⟨cell, outside⟩ := apart
    cases answer with
    | created ret =>
      simp only [Linked.mainStep, here, Linked.access_of_cell cell] at step
      split at step
      · rename_i failed
        cases step
        have one : Process.step (.main (.created ret)) p = some (p.goto (.abandon n), .main) := by
          simp only [Process.step, Process.mainStep, there, if_pos failed]
        refine .seen one (refines.goto (.abandon n _ ⟨cell, outside⟩) ?_)
        exact .of here (.inl rfl) (.inr rfl) NodePc.noConfusion
      · rename_i fine
        split at step
        · rename_i success
          cases step
          let server := p.server.update n (.fresh fd) p.server.shared
          have one : Process.step (.main (.created ret)) p =
              some ({ p.goto (.insert n) with server := server }, .created n) := by
            simp only [Process.step, Process.mainStep, there, if_neg fine, if_pos success, server]
          exact .seen one (refines.created here ⟨cell, outside⟩)
        · rename_i positive
          cases step
          have one : Process.step (.main (.created ret)) p = some (p.goto (.insert n), .main) := by
            simp only [Process.step, Process.mainStep, there, if_neg fine, if_neg positive]
          refine .seen one (refines.goto (.linkNext n _ ⟨cell, outside⟩ (fun _ => rfl)) ?_)
          exact .of here (.inl rfl) (.inr rfl) NodePc.noConfusion
    | _ => simp [Linked.mainStep, here] at step
  · rw [here] at place
    cases place with | linkNext _ node apart clear =>
    obtain ⟨cell, outside⟩ := apart
    cases answer with
    | quiet =>
      simp only [Linked.mainStep, here, Linked.access_of_cell cell, Option.some.injEq,
        Prod.mk.injEq] at step
      obtain ⟨rfl, rfl⟩ := step
      refine .silent (refines.write_silent outside there ?_ ?_ ?_ ?_ ?_)
      · intro node' same running
        cases same
        exact refines.started n node cell running
      · exact fun _ => ⟨by rw [here]; rfl, fun none => by cases none⟩
      · exact ⟨own_held here (.inr rfl), fun _ => rfl⟩
      · exact defined_of here NodePc.noConfusion
      · exact .linkFirst n _ ⟨Function.update_self .., outside⟩ clear rfl
    | _ => simp [Linked.mainStep, here] at step
  · rw [here] at place
    cases place with | linkFirst _ node apart clear linked =>
    obtain ⟨cell, outside⟩ := apart
    cases answer with
    | quiet =>
      simp only [Linked.mainStep, here, Option.some.injEq, Prod.mk.injEq] at step
      obtain ⟨rfl, rfl⟩ := step
      let head := n :: p.main.head
      have one : Process.step (.main .quiet) p =
          some ({ p with main := { p.main with pc := .foreach head, head := head } }, .main) := by
        simp only [Process.step, Process.mainStep, there, head]
      exact .seen one (refines.inserted here cell clear linked)
    | _ => simp [Linked.mainStep, here] at step
  · rw [here] at place
    cases place with | abandon _ node apart =>
    obtain ⟨cell, outside⟩ := apart
    cases answer with
    | quiet =>
      simp only [Linked.mainStep, here, Linked.access_of_cell cell, Option.some.injEq,
        Prod.mk.injEq] at step
      obtain ⟨rfl, rfl⟩ := step
      have one : Process.step (.main .quiet) p = some (p.goto .cleanup, .freed n) := by
        simp only [Process.step, Process.mainStep, there]
      refine .seen one (refines.write outside ?_ ?_ ?_ ?_ .cleanup)
      · exact fun _ none => by cases none
      · exact fun accepts => by cases accepts
      · exact ⟨own_held here (.inr rfl), fun stored => absurd rfl stored⟩
      · exact defined_of here NodePc.noConfusion
    | _ => simp [Linked.mainStep, here] at step

theorem Linked.Refines.afterJoin (refines : c.Refines lost p) (here : c.pc = .join n)
    (cell : c.nodes n = some node) (chain : Chain (cells c.nodes) node.sleNext rest)
    (inside : rest ⊆ p.main.head) (ret : Int) (value : Bool) :
    (c.afterJoin n ret value).Refines lost (p.afterJoin n rest ret value) := by
  have next : ∀ {pc pc'}, Located c.nodes c.handler c.slhFirst p.main.head pc pc' →
      c.pc.Goes pc → ∀ returned : Bool,
      ({ c with pc := pc, threadRetVal := returned, joined := n :: c.joined } : Linked).Refines lost
        { p with
          main :=
            { p.main with
              pc := pc'
              threadRetVal := returned
              joined := n :: p.main.joined } } := by
    intro pc pc' place goes returned
    have after := refines.goto place goes
    exact
      { after with
        threadRetVal := rfl
        joined := congrArg (List.cons n) refines.joined
        place := place }
  have cleanup : c.pc.Goes .cleanup := .of here (.inr rfl) (.inl rfl) NodePc.noConfusion
  have forNext : c.pc.Goes (.forNext n) := .of here (.inl rfl) (.inr rfl) NodePc.noConfusion
  simp only [Linked.afterJoin, Process.afterJoin, refines.threadRetVal]
  by_cases failed : ret = error
  · simp only [if_pos failed]
    exact next .cleanup cleanup _
  · simp only [if_neg failed]
    cases (if ret = 0 then value else c.threadRetVal) with
    | true => exact next (.forNext n node rest cell chain inside) forNext true
    | false => exact next .cleanup cleanup false

theorem Linked.Refines.foreach (refines : c.Refines lost p)
    (step : c.mainStep garbage answer = some (c', event))
    (inside : c.pc = .forInit ∨ (∃ var, c.pc = .forTest var) ∨ (∃ n, c.pc = .forNext n) ∨
      ∃ n, c.pc = .join n) : Shown lost p c' event := by
  have place := refines.place
  generalize there : p.main.pc = pc' at place
  rcases inside with here | ⟨var, here⟩ | ⟨n, here⟩ | ⟨n, here⟩
  · rw [here] at place
    cases place
    cases answer with
    | quiet =>
      simp only [Linked.mainStep, here, Option.some.injEq, Prod.mk.injEq] at step
      obtain ⟨rfl, rfl⟩ := step
      refine .silent (refines.goto_silent ?_ ?_)
      · rw [there]
        exact .forTest _ _ refines.chain (List.Subset.refl _)
      · exact .of here (.inl rfl) (.inr rfl) NodePc.noConfusion
    | _ => simp [Linked.mainStep, here] at step
  · rw [here] at place
    cases place with | forTest _ rest chain inside =>
    cases answer with
    | quiet =>
      cases var with
      | none =>
        cases chain
        simp only [Linked.mainStep, here, Option.some.injEq, Prod.mk.injEq] at step
        obtain ⟨rfl, rfl⟩ := step
        have one : Process.step (.main .quiet) p = some (p.goto .loop, .main) := by
          simp only [Process.step, Process.mainStep, there]
        exact .seen one (refines.goto .loop (.of here (.inl rfl) (.inr rfl) NodePc.noConfusion))
      | some n =>
        obtain ⟨node, tail, cell, rfl, _, chain⟩ := chain_cell chain
        obtain ⟨member, inside⟩ := List.cons_subset.mp inside
        have same := refines.isThreadComplete cell member
        simp only [Linked.mainStep, here, Linked.access_of_cell cell] at step
        split at step
        · rename_i complete
          cases step
          rw [← same] at complete
          have one : Process.step (.main .quiet) p =
              some (p.goto (.join n tail), .passed n true) := by
            simp only [Process.step, Process.mainStep, there, if_pos complete]
          refine .seen one (refines.goto (.join n node tail cell chain inside) ?_)
          exact .of here (.inl rfl) (.inr rfl) NodePc.noConfusion
        · rename_i incomplete
          cases step
          rw [← same] at incomplete
          have one : Process.step (.main .quiet) p =
              some (p.goto (.foreach tail), .passed n false) := by
            simp only [Process.step, Process.mainStep, there, if_neg incomplete]
          refine .seen one (refines.goto (.forNext n node tail cell chain inside) ?_)
          exact .of here (.inl rfl) (.inr rfl) NodePc.noConfusion
    | _ => simp [Linked.mainStep, here] at step
  · rw [here] at place
    cases place with | forNext _ node rest cell chain inside =>
    cases answer with
    | quiet =>
      simp only [Linked.mainStep, here, Linked.access_of_cell cell, Option.some.injEq,
        Prod.mk.injEq] at step
      obtain ⟨rfl, rfl⟩ := step
      refine .silent (refines.goto_silent ?_ ?_)
      · rw [there]
        exact .forTest _ _ chain inside
      · exact .of here (.inl rfl) (.inr rfl) NodePc.noConfusion
    | _ => simp [Linked.mainStep, here] at step
  · rw [here] at place
    cases place with | join _ node rest cell chain inside =>
    have same := refines.pc cell
    cases answer with
    | joined ret value =>
      simp only [Linked.mainStep, here, Linked.access_of_cell cell] at step
      split at step
      · rename_i ok returned
        rw [← same] at returned
        split at step
        · rename_i again
          cases step
          rw [← refines.joined] at again
          have one : Process.step (.main (.joined ret value)) p =
              some (p.afterJoin n rest ret value, .joined n) := by
            simp only [Process.step, Process.mainStep, there, returned, if_pos again]
          exact .seen one (refines.afterJoin here cell chain inside ret value)
        · rename_i once
          cases step
          rw [← refines.joined] at once
          have one : Process.step (.main (.joined ret value)) p =
              some (p.afterJoin n rest 0 ok, .joined n) := by
            simp only [Process.step, Process.mainStep, there, returned, if_neg once]
          exact .seen one (refines.afterJoin here cell chain inside 0 ok)
      · cases step
    | _ => simp [Linked.mainStep, here] at step

/-- `cleanup_on_exit`: SLIST_REMOVE always finds the node at the head of the list. -/
theorem Linked.Refines.cleaning (refines : c.Refines lost p)
    (step : c.mainStep garbage answer = some (c', event))
    (inside : c.pc = .cleanup ∨ c.pc = .empty ∨ (∃ n, c.pc = .remove n) ∨ ∃ n, c.pc = .free n) :
    Shown lost p c' event := by
  have place := refines.place
  generalize there : p.main.pc = pc' at place
  rcases inside with here | here | ⟨n, here⟩ | ⟨n, here⟩
  · rw [here] at place
    cases place
    cases answer with
    | quiet =>
      simp only [Linked.mainStep, here, Option.some.injEq, Prod.mk.injEq] at step
      obtain ⟨rfl, rfl⟩ := step
      rw [← refines.shared]
      let shared := p.server.shared.close p.server.shared.dataFileDescriptor
      have one : Process.step (.main .quiet) p =
          some ({ p.goto .remove with server := { p.server with shared := shared } }, .main) := by
        simp only [Process.step, Process.mainStep, there, shared]
      have goes : c.pc.Goes .empty := .of here (.inr rfl) (.inl rfl) NodePc.noConfusion
      have after := refines.goto .empty goes
      exact .seen one { after with shared := rfl, place := .empty }
    | _ => simp [Linked.mainStep, here] at step
  · rw [here] at place
    cases place
    cases answer with
    | quiet =>
      simp only [Linked.mainStep, here] at step
      split at step
      · rename_i none
        cases step
        have chain := refines.chain
        rw [none] at chain
        generalize empty : p.main.head = head at chain
        cases chain
        have one : Process.step (.main .quiet) p = some (p.goto .exited, .main) := by
          simp only [Process.step, Process.mainStep, there, empty]
        have goes : c.pc.Goes .exited := .of here (.inr rfl) (.inl rfl) NodePc.noConfusion
        exact .seen one (refines.goto (.exited empty) goes)
      · rename_i n first
        cases step
        refine .silent (refines.goto_silent ?_ ?_)
        · rw [there]
          exact .remove n first
        · exact .of here (.inr rfl) (.inl rfl) NodePc.noConfusion
    | _ => simp [Linked.mainStep, here] at step
  · rw [here] at place
    cases place with | remove _ first =>
    cases answer with
    | quiet =>
      have chain := refines.chain
      rw [first] at chain
      obtain ⟨node, tail, cell, list, outside, chain⟩ := chain_cell chain
      simp only [Linked.mainStep, here, if_pos first, Linked.access_of_cell cell, Option.some.injEq,
        Prod.mk.injEq] at step
      obtain ⟨rfl, rfl⟩ := step
      have one : Process.step (.main .quiet) p =
          some ({ p with main := { p.main with pc := .free n, head := tail } }, .main) := by
        simp only [Process.step, Process.mainStep, there, list]
      refine .seen one
        { refines with
          clear := ?_
          unused := fun accepts => by cases accepts
          chain := chain
          owned := ?_
          place := .free n node ⟨cell, outside⟩ }
      · intro id member
        exact refines.clear id (by rw [list]; exact List.mem_cons_of_mem _ member)
      · intro _ a stored
        rcases refines.owned (defined_of here NodePc.noConfusion) a stored with
          listed | held | gone
        · rw [list] at listed
          rcases List.mem_cons.mp listed with rfl | later
          · exact .inr (.inl rfl)
          · exact .inl later
        · rw [here] at held
          cases held
        · exact .inr (.inr gone)
    | _ => simp [Linked.mainStep, here] at step
  · rw [here] at place
    cases place with | free _ node apart =>
    obtain ⟨cell, outside⟩ := apart
    cases answer with
    | quiet =>
      simp only [Linked.mainStep, here, Linked.access_of_cell cell, Option.some.injEq,
        Prod.mk.injEq] at step
      obtain ⟨rfl, rfl⟩ := step
      have one : Process.step (.main .quiet) p = some (p.goto .remove, .freed n) := by
        simp only [Process.step, Process.mainStep, there]
      refine .seen one (refines.write outside ?_ ?_ ?_ ?_ .empty)
      · exact fun _ none => by cases none
      · exact fun accepts => by cases accepts
      · exact ⟨own_held here (.inr rfl), fun stored => absurd rfl stored⟩
      · exact defined_of here NodePc.noConfusion
    | _ => simp [Linked.mainStep, here] at step

theorem Linked.Refines.mainStep (refines : c.Refines lost p)
    (step : c.mainStep garbage answer = some (c', event)) : Shown lost p c' event := by
  have place := refines.place
  cases here : c.pc with
  | loop | accept | malloc fd => exact refines.early step (by simp [here])
  | populate n fd | create n | linkNext n | linkFirst n | abandon n =>
    exact refines.fresh step (by simp [here])
  | forInit | forTest var | forNext n | join n => exact refines.foreach step (by simp [here])
  | cleanup | empty | remove n | free n => exact refines.cleaning step (by simp [here])
  | search n a | removeAfter n a =>
    rw [here] at place
    cases place
  | exited | undefined => simp [Linked.mainStep, here] at step

end Aesd
