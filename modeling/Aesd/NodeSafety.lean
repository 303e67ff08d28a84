import Aesd.NodeRefinement

/-! The client list in memory over whole runs: threads at work, signals, and the clean-up. Every run
with pointers is one of the process, no access of the main thread goes wrong, and a node is freed
once or, after a signal, never. -/
namespace Aesd

open LinkedList

variable {garbage : Nat → Node} {action : ProcessAction} {actions : List ProcessAction}
  {answer : MainAnswer} {c c' : Linked} {p : Process} {event : NodeEvent}
  {log events : List NodeEvent} {id n : Nat} {node : Node} {head : List Nat}
  {nodes : Nat → Option Node} {handler : Nat → Handler} {first lost lost' : Option Nat}

section Threads

theorem Located.thread {h : Handler} {pc : NodePc} {pc' : MainPc}
    (place : Located nodes handler first head pc pc') (cell : nodes id = some node)
    (before : (handler id).pc ≠ .idle) (after : h.pc ≠ .idle) (complete : Bool) :
    Located (Function.update nodes id (some { node with isThreadComplete := complete }))
      (setHandler handler id h) first head pc pc' := by
  have same : ∀ n, (handler n).pc = .idle → n ≠ id := by
    rintro n idle rfl
    exact before idle
  have kept : cells (Function.update nodes id (some { node with isThreadComplete := complete })) =
      cells nodes := cells_keep cell rfl
  -- the node of the main thread is the thread's own, or stays as it is
  have moved : ∀ n node', nodes n = some node' → ∃ flag,
      Function.update nodes id (some { node with isThreadComplete := complete }) n =
        some { node' with isThreadComplete := flag } ∧
      (Clear handler n node' → Clear (setHandler handler id h) n
        { node' with isThreadComplete := flag }) := by
    intro n node' stored
    by_cases own : n = id
    · subst own
      cases cell.symm.trans stored
      refine ⟨complete, Function.update_self .., fun _ idle => ?_⟩
      rw [setHandler, if_pos rfl] at idle
      exact absurd idle after
    · refine ⟨node'.isThreadComplete, ?_, fun clear idle => ?_⟩
      · rw [Function.update_of_ne own, stored]
      · rw [setHandler, if_neg own] at idle
        exact clear idle
  have still : ∀ n, (handler n).pc = .idle → (setHandler handler id h n).pc = .idle ∧
      Function.update nodes id (some { node with isThreadComplete := complete }) n = nodes n := by
    intro n idle
    have other := same n idle
    exact ⟨by rw [setHandler, if_neg other, idle], Function.update_of_ne other ..⟩
  cases place with
  | loop => exact .loop
  | accept => exact .accept
  | malloc fd => exact .malloc fd
  | populate n fd node' apart idle =>
    obtain ⟨idle', unmoved⟩ := still n idle
    exact .populate n fd node' ⟨unmoved.trans apart.cell, apart.outside⟩ idle'
  | create n fd next apart idle =>
    obtain ⟨idle', unmoved⟩ := still n idle
    exact .create n fd next ⟨unmoved.trans apart.cell, apart.outside⟩ idle'
  | linkNext n node' apart clear =>
    obtain ⟨flag, stored, clear'⟩ := moved n node' apart.cell
    exact .linkNext n _ ⟨stored, apart.outside⟩ (clear' clear)
  | linkFirst n node' apart clear linked =>
    obtain ⟨flag, stored, clear'⟩ := moved n node' apart.cell
    exact .linkFirst n _ ⟨stored, apart.outside⟩ (clear' clear) linked
  | forInit => exact .forInit
  | forTest var rest chain inside => exact .forTest var rest (kept ▸ chain) inside
  | forNext n node' rest stored chain inside =>
    obtain ⟨flag, stored, _⟩ := moved n node' stored
    exact .forNext n _ rest stored (kept ▸ chain) inside
  | join n node' rest stored chain inside =>
    obtain ⟨flag, stored, _⟩ := moved n node' stored
    exact .join n _ rest stored (kept ▸ chain) inside
  | abandon n node' apart =>
    obtain ⟨flag, stored, _⟩ := moved n node' apart.cell
    exact .abandon n _ ⟨stored, apart.outside⟩
  | cleanup => exact .cleanup
  | empty => exact .empty
  | remove n first => exact .remove n first
  | free n node' apart =>
    obtain ⟨flag, stored, _⟩ := moved n node' apart.cell
    exact .free n _ ⟨stored, apart.outside⟩
  | exited ended => exact .exited ended
  | undefined => exact .undefined _

theorem Linked.Refines.running (refines : c.Refines lost p)
    (running : c.pc ≠ .exited ∧ c.pc ≠ .undefined) : p.main.pc ≠ .exited := by
  intro exited
  have place := refines.place
  rw [exited] at place
  generalize c.pc = pc at place running
  cases place
  · exact running.1 rfl
  · exact running.2 rfl

theorem Linked.Refines.thread (refines : c.Refines lost p) {answer : Answer} {h : Handler}
    {shared : Shared} {shown : Event} (running : c.pc ≠ .exited ∧ c.pc ≠ .undefined)
    (cell : c.nodes id = some node)
    (one : advance id answer (node.handler (c.handler id)) c.shared = some (h, shared, shown)) :
    Shown lost p
      { c.store id (some { node with isThreadComplete := h.isThreadComplete }) with
        handler := setHandler c.handler id h
        shared := shared } (.seen (.handler shown)) := by
  have step := advance_cases one
  have before : (c.handler id).pc ≠ .idle := step.alive.1
  have after := step.started
  have client : h.clientSocketFd = node.clientSocketFd := step.client
  have same := refines.started id node cell before
  have main := refines.running running
  have seen : Process.step (.run id answer) p =
      some ({ p with server := p.server.update id h shared }, .handler shown) := by
    simp only [Process.step, if_neg main, same, refines.shared, one, Option.map_some]
  refine .seen seen
    { refines with
      shared := rfl
      idle := ?_
      started := ?_
      clear := ?_
      unused := ?_
      chain := ?_
      owned := ?_
      place := refines.place.thread cell before after h.isThreadComplete }
  · intro other idle
    by_cases own : other = id
    · subst own
      simp only [setHandler, if_true] at idle
      exact absurd idle after
    · simp only [setHandler, if_neg own] at idle
      exact (update_other _ own).trans (refines.idle other idle)
  · intro other node' stored running
    by_cases own : other = id
    · subst own
      cases (Linked.store_same ..).symm.trans stored
      simp only [setHandler, if_true, update_handler, Node.handler, ← client]
    · simp only [setHandler, if_neg own] at running ⊢
      have stored := (Linked.store_other _ _ own).symm.trans stored
      exact (update_other _ own).trans (refines.started other node' stored running)
  · intro other member node' stored idle
    by_cases own : other = id
    · subst own
      simp only [setHandler, if_true] at idle
      exact absurd idle after
    · simp only [setHandler, if_neg own] at idle
      exact refines.clear other member node' ((Linked.store_other _ _ own).symm.trans stored) idle
  · intro accepting other gone
    have own : other ≠ id := by
      rintro rfl
      cases (Linked.store_same ..).symm.trans gone
    simp only [setHandler, if_neg own]
    exact refines.unused accepting other ((Linked.store_other _ _ own).symm.trans gone)
  · have kept : cells (Function.update c.nodes id
        (some { node with isThreadComplete := h.isThreadComplete })) = cells c.nodes :=
      cells_keep cell rfl
    have chain := refines.chain
    rw [← kept] at chain
    exact chain
  · intro defined other stored
    apply refines.owned defined other
    by_cases own : other = id
    · rw [own, cell]
      exact Option.some_ne_none _
    · exact fun gone => stored ((Linked.store_other _ _ own).trans gone)

theorem Linked.Refines.step (refines : c.Refines lost p)
    (step : c.step garbage action = some (c', event)) : Shown lost p c' event := by
  cases action with
  | main answer => exact refines.mainStep step
  | signal =>
    simp only [Linked.step] at step
    split at step
    · cases step
    · rename_i open'
      cases step
      obtain ⟨uncaught, running⟩ := not_or.mp open'
      rw [Bool.not_eq_true] at uncaught
      have awake : ¬(p.main.caught = true ∨ p.main.pc = .exited) := by
        rintro (caught | exited)
        · cases uncaught.symm.trans (refines.caught.symm.trans caught)
        · exact refines.running (not_or.mp running) exited
      have one : Process.step .signal p = some (p.handleTermination, .signalled) := by
        simp only [Process.step, if_neg awake]
      refine ⟨[.signal], _, c.pc.own, Transition.execute_singleton.mpr ⟨_, one, rfl⟩,
        { refines with
          unused := fun accepts => by cases accepts
          owned := ?_
          caught := rfl
          kept := by rintro ⟨⟩
          place := .cleanup }, NodeEvent.noConfusion, .inr rfl⟩
      intro _ a stored
      rcases refines.owned (not_or.mp running).2 a stored with listed | held | gone
      · exact .inl listed
      · exact .inr (.inr held)
      · cases (refines.kept uncaught).symm.trans gone
  | run id answer =>
    simp only [Linked.step] at step
    split at step
    · cases step
    · rename_i running
      obtain ⟨exited, undefined⟩ := not_or.mp running
      split at step
      · rename_i node cell
        obtain ⟨⟨h, shared, shown⟩, one, same⟩ := Option.map_eq_some_iff.mp step
        cases same
        exact refines.thread ⟨exited, undefined⟩ cell one
      · split at step
        · cases step
        · cases step
        · cases step
          refine ⟨[], p, lost, rfl,
            { refines with
              unused := fun accepts => by cases accepts
              owned := fun defined => absurd rfl defined
              place := .undefined _ }, NodeEvent.noConfusion, .inl rfl⟩

end Threads

section Results

inductive MainEffect (c c' : Linked) (event : NodeEvent) : Prop
  | keep (nodes : c'.nodes = c.nodes) (handler : c'.handler = c.handler)
  | write (n : Nat) (node : Node) (nodes : c'.nodes = Function.update c.nodes n (some node))
      (handler : c'.handler = c.handler)
  | free (n : Nat) (nodes : c'.nodes = Function.update c.nodes n none)
      (handler : c'.handler = c.handler) (freed : event = .seen (.freed n))
  | create (n : Nat) (node : Node) (cell : c.nodes n = some node) (nodes : c'.nodes = c.nodes)
      (handler : c'.handler = setHandler c.handler n (.fresh 0))

theorem Linked.mainEffect (step : c.mainStep garbage answer = some (c', event)) :
    MainEffect c c' event ∧ ∀ id, event ≠ .dangling id := by
  unfold Linked.mainStep at step
  simp only [Linked.access] at step
  -- one goal for each way through a statement
  split at step
  all_goals
    repeat' split at step
    all_goals
      cases step <;> refine ⟨?_, fun _ => NodeEvent.noConfusion⟩ <;> first
        | exact .keep rfl rfl
        | exact .write _ _ rfl rfl
        | exact .free _ rfl rfl rfl
        | exact .create _ _ ‹_› rfl rfl

theorem MainEffect.held (effect : MainEffect c c' event) (id : Nat) :
    (c.nodes id ≠ none → c'.nodes id ≠ none ∨ event = .seen (.freed id)) ∧
      ((c'.handler id).pc ≠ .idle → (c.handler id).pc ≠ .idle ∨ c'.nodes id ≠ none) := by
  cases effect with
  | keep nodes handler =>
    rw [nodes, handler]
    exact ⟨.inl, .inl⟩
  | write n node nodes handler =>
    rw [nodes, handler]
    refine ⟨fun stored => .inl ?_, .inl⟩
    by_cases same : id = n
    · rw [same, Function.update_self]
      exact Option.some_ne_none _
    · rwa [Function.update_of_ne same]
  | free n nodes handler freed =>
    rw [nodes, handler]
    refine ⟨fun stored => ?_, .inl⟩
    by_cases same : id = n
    · exact .inr (same ▸ freed)
    · exact .inl (by rwa [Function.update_of_ne same])
  | create n node cell nodes handler =>
    rw [nodes, handler]
    refine ⟨.inl, fun started => ?_⟩
    by_cases same : id = n
    · rw [same, cell]
      exact .inr (Option.some_ne_none _)
    · rw [setHandler, if_neg same] at started
      exact .inl started

structure Linked.Shows (c : Linked) (log : List NodeEvent) : Prop where
  process : ∃ actions p lost, c.Refines lost p ∧
    Transition.execute Process.step actions .initial = some (p, log.flatMap NodeEvent.visible) ∧
    (lost = none ∨ .seen .signalled ∈ log)
  fine : .fault ∉ log
  held : ∀ id, (c.handler id).pc ≠ .idle → c.nodes id ≠ none ∨ .seen (.freed id) ∈ log
  dangling : ∀ before id after, log = before ++ .dangling id :: after →
    .seen (.freed id) ∈ before

theorem Linked.Shows.held_step (shows : c.Shows log)
    (step : c.step garbage action = some (c', event)) :
    ∀ id, (c'.handler id).pc ≠ .idle → c'.nodes id ≠ none ∨ .seen (.freed id) ∈ log ++ [event] := by
  intro id started
  have before : (c.handler id).pc ≠ .idle →
      c.nodes id ≠ none ∨ .seen (.freed id) ∈ log ++ [event] := by
    intro started
    rcases shows.held id started with stored | freed
    · exact .inl stored
    · exact .inr (List.mem_append_left _ freed)
  cases action with
  | main answer =>
    obtain ⟨kept, created⟩ := (Linked.mainEffect step).1.held id
    rcases created started with earlier | stored
    · rcases before earlier with stored | freed
      · rcases kept stored with stored | rfl
        · exact .inl stored
        · exact .inr (List.mem_append_right _ (List.mem_singleton_self _))
      · exact .inr freed
    · exact .inl stored
  | signal =>
    simp only [Linked.step] at step
    split at step
    · cases step
    · cases step
      exact before started
  | run other answer =>
    simp only [Linked.step] at step
    split at step
    · cases step
    · split at step
      · rename_i node cell
        obtain ⟨⟨h, shared, shown⟩, one, same⟩ := Option.map_eq_some_iff.mp step
        cases same
        by_cases own : id = other
        · subst own
          exact .inl (by simp [Linked.store])
        · simp only [setHandler, if_neg own] at started
          rcases before started with stored | freed
          · exact .inl (fun gone => stored ((Linked.store_other _ _ own).symm.trans gone))
          · exact .inr freed
      · split at step
        · cases step
        · cases step
        · cases step
          exact before started

theorem Linked.Shows.dangling_step (shows : c.Shows log)
    (step : c.step garbage action = some (c', event)) (dangles : event = .dangling id) :
    .seen (.freed id) ∈ log := by
  cases action with
  | main answer =>
    exact absurd dangles ((Linked.mainEffect step).2 id)
  | signal =>
    simp only [Linked.step] at step
    split at step
    · cases step
    · cases step
      cases dangles
  | run other answer =>
    simp only [Linked.step] at step
    split at step
    · cases step
    · split at step
      · obtain ⟨⟨h, shared, shown⟩, one, same⟩ := Option.map_eq_some_iff.mp step
        cases same
        cases dangles
      · rename_i gone
        split at step
        · cases step
        · cases step
        · rename_i idle _
          cases step
          cases dangles
          rcases shows.held id idle with stored | freed
          · exact absurd gone stored
          · exact freed

theorem Linked.Shows.step (shows : c.Shows log) (step : c.step garbage action = some (c', event)) :
    c'.Shows (log ++ [event]) where
  process := by
    obtain ⟨actions, p, lost, refines, run, signalled⟩ := shows.process
    obtain ⟨more, p', lost', later, refines', _, same⟩ := refines.step step
    refine ⟨actions ++ more, p', lost', refines', ?_, ?_⟩
    · rw [List.flatMap_append, List.flatMap_singleton]
      exact Transition.execute_append run later
    · rcases same with rfl | rfl
      · exact signalled.imp_right (List.mem_append_left _)
      · exact .inr (List.mem_append_right _ (List.mem_singleton_self _))
  fine := by
    obtain ⟨_, p, lost, refines, _, _⟩ := shows.process
    obtain ⟨_, _, _, _, _, fine, _⟩ := refines.step step
    simp [shows.fine, fine.symm]
  held := shows.held_step step
  dangling := by
    intro before id after split
    rcases Transition.split_snoc split with ⟨rfl, same⟩ | ⟨rest, earlier⟩
    · exact shows.dangling_step step same.symm
    · exact shows.dangling before id rest earlier

theorem Linked.initial_shows : Linked.initial.Shows [] where
  process := ⟨[], .initial, none, Linked.initial_refines, rfl, .inl rfl⟩
  fine := List.not_mem_nil
  held id started := absurd rfl started
  dangling before id after split := by simp at split

theorem Linked.Shows.of_run
    (run : Transition.execute (Linked.step garbage) actions .initial = some (c, events)) :
    c.Shows events :=
  Transition.execute_history Linked.Shows (fun _ _ _ _ _ shows step => shows.step step) run
    Linked.initial_shows

/-- Every run with pointers shows a run of the process: the pointers from `slh_first` on are the
list `head` in its order, and what a thread finds in its node is what the process knows of it. -/
theorem nodes_refined
    (run : Transition.execute (Linked.step garbage) actions .initial = some (c, events)) :
    ∃ actions' p lost, c.Refines lost p ∧
      Transition.execute Process.step actions' .initial =
        some (p, events.flatMap NodeEvent.visible) := by
  obtain ⟨actions', p, lost, refines, process, _⟩ := (Linked.Shows.of_run run).process
  exact ⟨actions', p, lost, refines, process⟩

/-- No access of the main thread goes wrong, its list is one and ends, each thread has its node
while clients are accepted, and later it loses the node only when that is freed. -/
structure Linked.Safe (c : Linked) (log : List NodeEvent) : Prop where
  fine : .fault ∉ log
  listed : ∃ head : List Nat, head.Nodup ∧ Chain (cells c.nodes) c.slhFirst head
  held : c.pc.accepting = true → ∀ id, (c.handler id).pc ≠ .idle → c.nodes id ≠ none
  dangling : ∀ before id after, log = before ++ .dangling id :: after →
    .seen (.freed id) ∈ before

/-- At every point of every run, wherever a signal comes in the main thread. -/
theorem nodes_safe (garbage : Nat → Node) (actions : List ProcessAction) :
    Transition.Throughout (Linked.step garbage) actions .initial Linked.Safe := by
  intro n c events run
  have shows := Linked.Shows.of_run run
  obtain ⟨_, p, lost, refines, _, _⟩ := shows.process
  refine ⟨shows.fine, ⟨_, refines.chain.nodup, refines.chain⟩, ?_, shows.dangling⟩
  intro accepting id started gone
  exact started (refines.unused accepting id gone)

/-- When the process exits, at most one node was never freed, and that only if a signal came: in
`accept_and_log_client` before the node was inserted, or in the clean-up after it was removed. -/
theorem nodes_released
    (run : Transition.execute (Linked.step garbage) actions .initial = some (c, events))
    (exited : c.pc = .exited) :
    (∀ a b, c.nodes a ≠ none → c.nodes b ≠ none → a = b) ∧
      (.seen .signalled ∉ events → ∀ a, c.nodes a = none) := by
  obtain ⟨_, p, lost, refines, _, signalled⟩ := (Linked.Shows.of_run run).process
  have remaining : ∀ a, c.nodes a ≠ none → lost = some a := by
    intro a stored
    have place := refines.place
    rw [exited] at place
    generalize p.main.pc = pc at place
    cases place with
    | exited ended =>
      rcases refines.owned (defined_of exited NodePc.noConfusion) a stored with listed | held | gone
      · rw [ended] at listed
        cases listed
      · rw [exited] at held
        cases held
      · exact gone
  constructor
  · intro a b stored stored'
    exact Option.some.inj ((remaining a stored).symm.trans (remaining b stored'))
  · intro quiet a
    by_contra stored
    rcases signalled with none | signalled
    · cases none.symm.trans (remaining a stored)
    · exact quiet signalled

/-- A client is accepted on the descriptor `fd` and gets the node `n`; the scan then finds `others`
threads at work. -/
def acceptNode (n fd others : Nat) : List ProcessAction :=
  [.main (.fatalErrorInProgress false), .main (.accepted (some fd)), .main (.allocated (some n)),
    .main .quiet, .main (.created 0)] ++ List.replicate (2 * others + 6) (.main .quiet)

/-- Two clients are served when `accept` fails, and a signal comes when the clean-up has removed the
first node from the list. -/
def twoNodes : List ProcessAction :=
  acceptNode 0 4 0 ++ [.run 0 (.recv (some [97]) ⟨0, 0⟩ [])] ++ acceptNode 1 5 1 ++
    [.run 1 (.recv (some [98]) ⟨0, 0⟩ []), .main (.fatalErrorInProgress false),
      .main (.accepted none), .main .quiet, .main .quiet, .main .quiet, .signal] ++
    List.replicate 5 (.main .quiet)

theorem twoNodes_exits : ∃ c events,
    Transition.execute (Linked.step fun _ => ⟨true, 7, some 7⟩) twoNodes .initial =
      some (c, events) ∧ c.pc = .exited ∧ c.nodes 1 ≠ none := by
  have outcome : (Transition.execute (Linked.step fun _ => ⟨true, 7, some 7⟩) twoNodes .initial).map
      (fun last => (last.1.pc, decide (last.1.nodes 1 ≠ none))) = some (.exited, true) := by
    decide +kernel
  obtain ⟨⟨c, events⟩, run, same⟩ := Option.map_eq_some_iff.mp outcome
  obtain ⟨exited, lost⟩ := Prod.mk.inj same
  exact ⟨c, events, run, exited, of_decide_eq_true lost⟩

theorem nodes_refined_two : ∃ c events,
    Transition.execute (Linked.step fun _ => ⟨true, 7, some 7⟩) twoNodes .initial =
      some (c, events) ∧
    ∃ actions p lost, c.Refines lost p ∧ Transition.execute Process.step actions .initial =
      some (p, events.flatMap NodeEvent.visible) := by
  obtain ⟨c, events, run, _⟩ := twoNodes_exits
  exact ⟨c, events, run, nodes_refined run⟩

/-- The node that the signal found removed is not freed, the other one is. -/
theorem nodes_released_two : ∃ c events,
    Transition.execute (Linked.step fun _ => ⟨true, 7, some 7⟩) twoNodes .initial =
      some (c, events) ∧ c.nodes 1 ≠ none ∧ ∀ a ≠ 1, c.nodes a = none := by
  obtain ⟨c, events, run, exited, lost⟩ := twoNodes_exits
  refine ⟨c, events, run, lost, fun a other => ?_⟩
  by_contra stored
  exact other ((nodes_released run exited).1 a 1 stored lost)

end Results

end Aesd
