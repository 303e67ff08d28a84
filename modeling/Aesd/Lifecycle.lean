import Aesd.Process
import Aesd.Thread

/-! How often a client's thread is joined, and when its node is freed. Nodes stay in the list
until the clean-up: each scan after a handler's completion passes its thread to `pthread_join`
again, and the clean-up frees nodes without waiting for their threads. -/
namespace Aesd

variable {action : ProcessAction} {actions : List ProcessAction} {p p' : Process} {node id : Nat}
  {event : ProcessEvent} {log events : List ProcessEvent}

def Alive (h : Handler) : Prop := h.pc ≠ .idle ∧ h.pc.finished = false

def ProcessEvent.joins : ProcessEvent → List Nat
  | .passed node true => [node]
  | _ => []

def joinsOf (log : List ProcessEvent) : List Nat := log.flatMap ProcessEvent.joins

def ProcessEvent.frees : ProcessEvent → List Nat
  | .freed node => [node]
  | _ => []

def freedOf (log : List ProcessEvent) : List Nat := log.flatMap ProcessEvent.frees

/-- Each thread is passed to `pthread_join` at most once, and the nodes freed so far are of
threads that have returned or were never created. -/
structure LifeCycle (p : Process) (log : List ProcessEvent) : Prop where
  joinedOnce : (joinsOf log).Nodup
  freedLate : ∀ node ∈ freedOf log, ¬Alive (p.server.handler node)

/-- A scan came to the node after its handler had set `isThreadComplete`. -/
def PassedComplete (node : Nat) (log : List ProcessEvent) : Prop :=
  ∃ before joins after, log = before ++ .passed node joins :: after ∧
    .handler (.completed node) ∈ before

/-- A scan does not come to a node again to which an earlier one came after the handler's
completion, and a node is freed when its thread has returned. -/
def Timely (action : ProcessAction) (p : Process × List ProcessEvent) : Prop :=
  match action, p.1.main.pc with
  | .main _, .foreach (node :: _) => ¬PassedComplete node p.2
  | .main _, .free node => ¬Alive (p.1.server.handler node)
  | _, _ => True

@[simp] theorem joinsOf_snoc : joinsOf (log ++ [event]) = joinsOf log ++ event.joins := by
  simp [joinsOf]

@[simp] theorem freedOf_snoc : freedOf (log ++ [event]) = freedOf log ++ event.frees := by
  simp [freedOf]

def MainPc.unstarted : MainPc → Option Nat
  | .create freshNode _ | .abandon freshNode => some freshNode
  | _ => none

inductive ProcessEffect (p p' : Process) : ProcessAction → ProcessEvent → Prop
  | plain {action : ProcessAction} {event : ProcessEvent}
      (other : event = .main ∨ event = .signalled ∨ ∃ node, event = .joined node)
      (timely : ∀ log, Timely action (p, log)) (handlers : p'.server.handler = p.server.handler)
      (accepting : p'.main.pc.accepting = true → p.main.pc.accepting = true)
      (unstarted : ∀ node, p'.main.pc.unstarted = some node →
        p.main.pc.unstarted = some node ∨ (p.server.handler node).pc = .idle) :
      ProcessEffect p p' action event
  | created (answer : MainAnswer) (node fd : Nat) (here : p.main.pc = .create node fd)
      (handlers : p'.server.handler = setHandler p.server.handler node (.fresh fd))
      (next : p'.main.pc = .insert node) : ProcessEffect p p' (.main answer) (.created node)
  | passed (answer : MainAnswer) (node : Nat) (rest : List Nat)
      (here : p.main.pc = .foreach (node :: rest))
      (handlers : p'.server.handler = p.server.handler)
      (next : p'.main.pc = .foreach rest ∨ p'.main.pc = .join node rest) :
      ProcessEffect p p' (.main answer)
        (.passed node (p.server.handler node).isThreadComplete)
  | freed (answer : MainAnswer) (node : Nat)
      (here : p.main.pc = .free node ∨ p.main.pc = .abandon node)
      (handlers : p'.server.handler = p.server.handler)
      (next : p'.main.pc = .remove ∨ p'.main.pc = .cleanup) :
      ProcessEffect p p' (.main answer) (.freed node)
  | handler (id : Nat) (answer : Answer) (h' : Handler) (shared : Shared) (event : Event)
      (step : Advance id (p.server.handler id) p.server.shared answer h' shared event)
      (handlers : p'.server.handler = setHandler p.server.handler id h')
      (main : p'.main = p.main) : ProcessEffect p p' (.run id answer) (.handler event)

/-- Where the main thread comes to a node of the list. -/
def MainPc.watched : MainPc → Bool
  | .foreach (_ :: _) | .free _ => true
  | _ => false

theorem timely_unwatched {pc : MainPc} (here : p.main.pc = pc) (unwatched : pc.watched = false)
    (answer : MainAnswer) (log : List ProcessEvent) : Timely (.main answer) (p, log) := by
  subst here
  unfold Timely
  split
  · rename_i here
    rw [here] at unwatched
    cases unwatched
  · rename_i here
    rw [here] at unwatched
    cases unwatched
  · trivial

theorem ProcessEffect.quiet {answer : MainAnswer} {pc : MainPc} (here : p.main.pc = pc)
    (unwatched : pc.watched = false) (handlers : p'.server.handler = p.server.handler)
    (accepting : p'.main.pc.accepting = true → pc.accepting = true)
    (unstarted : p'.main.pc.unstarted = none) : ProcessEffect p p' (.main answer) .main := by
  refine .plain (.inl rfl) (timely_unwatched here unwatched answer) handlers (here ▸ accepting) ?_
  intro node next
  cases unstarted.symm.trans next

theorem afterJoin_unstarted (rest : List Nat) (ret : Int) (value : Bool) :
    (p.afterJoin node rest ret value).main.pc.unstarted = none := by
  simp only [Process.afterJoin]
  repeat' split
  all_goals rfl

theorem main_cases {answer : MainAnswer} (step : p.mainStep answer = some (p', event)) :
    ProcessEffect p p' (.main answer) event := by
  unfold Process.mainStep at step
  split at step
  · rename_i set here
    cases step
    refine .quiet here rfl rfl (fun _ => rfl) ?_
    cases set <;> rfl
  · rename_i here
    cases step
    exact .quiet here rfl rfl (fun _ => rfl) rfl
  · rename_i fd here
    split at step
    · cases step
      exact .quiet here rfl rfl (fun _ => rfl) rfl
    · cases step
  · rename_i fd here
    cases step
    exact .quiet here rfl rfl (fun _ => rfl) rfl
  · rename_i fd freshNode here
    split at step
    · rename_i fresh
      cases step
      refine .plain (.inl rfl) (timely_unwatched here rfl _) rfl (fun _ => by rw [here]; rfl) ?_
      intro node next
      cases next
      exact .inr fresh.1
    · cases step
  · rename_i freshNode fd ret here
    split at step
    · cases step
      refine .plain (.inl rfl) (timely_unwatched here rfl _) rfl (fun _ => by rw [here]; rfl) ?_
      intro node next
      cases next
      exact .inl (by rw [here]; rfl)
    · split at step
      · cases step
        exact .created _ freshNode fd here rfl rfl
      · cases step
        exact .quiet here rfl rfl (fun _ => rfl) rfl
  · rename_i freshNode here
    cases step
    exact .quiet here rfl rfl (fun _ => rfl) rfl
  · rename_i here
    cases step
    exact .quiet here rfl rfl (fun _ => rfl) rfl
  · rename_i freshNode rest here
    split at step
    · rename_i complete
      cases step
      have effect : ProcessEffect p (p.goto (.join freshNode rest)) (.main .quiet)
          (.passed freshNode (p.server.handler freshNode).isThreadComplete) :=
        .passed .quiet freshNode rest here rfl (.inr rfl)
      rwa [complete] at effect
    · rename_i incomplete
      cases step
      have effect : ProcessEffect p (p.goto (.foreach rest)) (.main .quiet)
          (.passed freshNode (p.server.handler freshNode).isThreadComplete) :=
        .passed .quiet freshNode rest here rfl (.inl rfl)
      rwa [Bool.eq_false_of_not_eq_true incomplete] at effect
  · rename_i freshNode rest ret value here
    have joins : ∀ given stored, ProcessEffect p (p.afterJoin freshNode rest given stored)
        (.main (.joined ret value)) (.joined freshNode) := by
      intro given stored
      refine .plain (.inr (.inr ⟨freshNode, rfl⟩)) (timely_unwatched here rfl _) rfl
        (fun _ => by rw [here]; rfl) ?_
      intro node next
      cases (afterJoin_unstarted rest given stored).symm.trans next
    split at step
    · split at step
      · cases step
        exact joins ret value
      · cases step
        exact joins 0 _
    · cases step
  · rename_i freshNode here
    cases step
    exact .freed _ freshNode (.inr here) rfl (.inr rfl)
  · rename_i here
    cases step
    exact .quiet here rfl rfl (fun accepting => by cases accepting) rfl
  · rename_i here
    split at step
    · cases step
      exact .quiet here rfl rfl (fun accepting => by cases accepting) rfl
    · cases step
      exact .quiet here rfl rfl (fun accepting => by cases accepting) rfl
  · rename_i node here
    cases step
    exact .freed _ node (.inl here) rfl (.inl rfl)
  · cases step

theorem process_cases (step : Process.step action p = some (p', event)) :
    ProcessEffect p p' action event := by
  cases action with
  | main answer => exact main_cases step
  | signal =>
    simp only [Process.step] at step
    split at step
    · cases step
    · cases step
      refine .plain (.inr (.inl rfl)) (fun log => by simp only [Timely]) rfl ?_ ?_
      · intro accepting
        cases accepting
      · intro node next
        cases next
  | run id answer =>
    simp only [Process.step] at step
    split at step
    · cases step
    · obtain ⟨⟨h', shared, e⟩, one, same⟩ := Option.map_eq_some_iff.mp step
      cases same
      exact .handler id answer h' shared e (advance_cases one) rfl rfl

structure Register (p : Process) (log : List ProcessEvent) : Prop where
  flagged : ∀ id, (p.server.handler id).isThreadComplete = true ↔ .handler (.completed id) ∈ log
  idle : ∀ id, (p.server.handler id).pc = .idle → (p.server.handler id).isThreadComplete = false
  unstarted : ∀ node, p.main.pc.unstarted = some node → (p.server.handler node).pc = .idle
  passes : ∀ before node joins after, log = before ++ .passed node joins :: after →
    (joins = true ↔ .handler (.completed node) ∈ before)
  kept : p.main.pc.accepting = true → freedOf log = []

theorem Alive.not_of_idle {h : Handler} (idle : h.pc = .idle) : ¬Alive h := fun alive => alive.1 idle

theorem Advance.alive {answer : Answer} {h h' : Handler} {s s' : Shared} {e : Event}
    (step : Advance id h s answer h' s' e) : Alive h := by
  refine ⟨?_, step.lockEffect.1⟩
  intro idle
  have taken := step.taken
  simp only [advance, idle] at taken
  cases taken

theorem Advance.started {answer : Answer} {h h' : Handler} {s s' : Shared} {e : Event}
    (step : Advance id h s answer h' s' e) : h'.pc ≠ .idle := by
  cases step with
  | check phase here => cases phase <;> cases s.dataFileDescriptor <;> exact Pc.noConfusion
  | ioctl env fd here call | closeData fd here =>
    rcases nextIteration_pc h with next | ⟨_, next⟩ | ⟨_, next⟩ <;> rw [next] <;> exact Pc.noConfusion
  | write env socket fd ok here call => cases ok <;> exact Pc.noConfusion
  | unlock phase here => cases phase <;> exact Pc.noConfusion
  | send count here =>
    dsimp only
    split <;> exact Pc.noConfusion
  | _ => exact Pc.noConfusion

theorem Advance.flag {answer : Answer} {h h' : Handler} {s s' : Shared} {e : Event}
    (step : Advance id h s answer h' s' e) :
    (h'.isThreadComplete = true ∧ e = .completed id) ∨
      (h'.isThreadComplete = h.isThreadComplete ∧ ∀ other, e ≠ .completed other) := by
  cases step with
  | complete here => exact .inl ⟨rfl, rfl⟩
  | _ => exact .inr ⟨rfl, fun _ => Event.noConfusion⟩

theorem ProcessEffect.flagged (effect : ProcessEffect p p' action event)
    (register : Register p log) (id : Nat) :
    (p'.server.handler id).isThreadComplete = true ↔
      .handler (.completed id) ∈ log ++ [event] := by
  have before := register.flagged id
  rw [List.mem_append, List.mem_singleton, ← before]
  cases effect with
  | plain other timely handlers accepting unstarted =>
    rw [handlers]
    rcases other with rfl | rfl | ⟨node, rfl⟩ <;> simp
  | created answer node fd here handlers next =>
    rw [handlers]
    by_cases same : id = node
    · subst same
      have unset := register.idle id (register.unstarted id (by rw [here]; rfl))
      simp [setHandler, unset, Handler.fresh]
    · simp [setHandler, same]
  | passed answer node rest here handlers next => simp [handlers]
  | freed answer node here handlers next => simp [handlers]
  | handler x answer h' shared e step handlers main =>
    rw [handlers]
    rcases step.flag with ⟨set, rfl⟩ | ⟨same, other⟩
    · by_cases own : id = x
      · subst own
        simp [setHandler, set]
      · simp [setHandler, own]
    · have not : (ProcessEvent.handler (.completed id) = .handler e) ↔ False := by
        refine iff_false_intro fun equal => ?_
        cases equal
        exact other id rfl
      rw [not, or_false]
      by_cases own : id = x
      · subst own
        simp [setHandler, same]
      · simp [setHandler, own]

/-- A property of each handler that only creating its thread and its own steps can change. -/
theorem ProcessEffect.handlers {P : Nat → Handler → Prop} (effect : ProcessEffect p p' action event)
    (all : ∀ id, P id (p.server.handler id))
    (created : ∀ node fd, p.main.pc = .create node fd → P node (.fresh fd))
    (steps : ∀ id answer h' shared e, action = .run id answer →
      Advance id (p.server.handler id) p.server.shared answer h' shared e → P id h') (id : Nat) :
    P id (p'.server.handler id) := by
  cases effect with
  | plain other timely handlers accepting unstarted => exact handlers ▸ all id
  | created answer node fd here handlers next =>
    rw [handlers]
    by_cases same : id = node
    · subst same
      simpa [setHandler] using created id fd here
    · simpa [setHandler, same] using all id
  | passed answer node rest here handlers next => exact handlers ▸ all id
  | freed answer node here handlers next => exact handlers ▸ all id
  | handler x answer h' shared e step handlers main =>
    rw [handlers]
    by_cases own : id = x
    · subst own
      simpa [setHandler] using steps id answer h' shared e rfl step
    · simpa [setHandler, own] using all id

theorem ProcessEffect.unstarted (effect : ProcessEffect p p' action event)
    (register : Register p log) (node : Nat) (waits : p'.main.pc.unstarted = some node) :
    (p'.server.handler node).pc = .idle := by
  cases effect with
  | plain other timely handlers accepting unstarted =>
    rw [handlers]
    exact (unstarted node waits).elim (register.unstarted node) id
  | created answer node fd here handlers next =>
    rw [next] at waits
    cases waits
  | passed answer node rest here handlers next =>
    rcases next with next | next <;> rw [next] at waits <;> cases waits
  | freed answer node here handlers next =>
    rcases next with next | next <;> rw [next] at waits <;> cases waits
  | handler x answer h' shared e step handlers main =>
    rw [main] at waits
    have idle := register.unstarted node waits
    have different : node ≠ x := by
      rintro rfl
      exact step.alive.1 idle
    rw [handlers]
    simpa [setHandler, different] using idle

theorem ProcessEffect.passes (effect : ProcessEffect p p' action event)
    (register : Register p log) :
    ∀ before node joins after, log ++ [event] = before ++ .passed node joins :: after →
      (joins = true ↔ .handler (.completed node) ∈ before) := by
  intro before node joins after split
  rcases Transition.split_snoc split with ⟨rfl, same⟩ | ⟨rest, earlier⟩
  · cases effect with
    | passed answer n rest here handlers next =>
      cases same
      exact register.flagged node
    | plain other timely handlers accepting unstarted =>
      rcases other with rfl | rfl | ⟨m, rfl⟩ <;> cases same
    | _ => cases same
  · exact register.passes before node joins rest earlier

theorem ProcessEffect.kept (effect : ProcessEffect p p' action event)
    (register : Register p log) (accepting : p'.main.pc.accepting = true) :
    freedOf (log ++ [event]) = [] := by
  rw [freedOf_snoc]
  cases effect with
  | plain other timely handlers before unstarted =>
    rw [register.kept (before accepting)]
    rcases other with rfl | rfl | ⟨m, rfl⟩ <;> rfl
  | created answer node fd here handlers next =>
    rw [register.kept (by rw [here]; rfl)]
    rfl
  | passed answer node rest here handlers next =>
    rw [register.kept (by rw [here]; rfl)]
    rfl
  | freed answer node here handlers next =>
    rcases next with next | next <;> rw [next] at accepting <;> cases accepting
  | handler x answer h' shared e step handlers main =>
    rw [main] at accepting
    rw [register.kept accepting]
    rfl

theorem Register.step (register : Register p log) (effect : ProcessEffect p p' action event) :
    Register p' (log ++ [event]) where
  flagged := effect.flagged register
  idle := by
    refine effect.handlers (P := fun _ h => h.pc = .idle → h.isThreadComplete = false)
      register.idle (fun _ _ _ _ => rfl) ?_
    intro id answer h' shared e _ step idle
    exact absurd idle step.started
  unstarted := effect.unstarted register
  passes := effect.passes register
  kept := effect.kept register

theorem mem_joins : node ∈ event.joins ↔ event = .passed node true := by
  cases event with
  | passed n joins => cases joins <;> simp [ProcessEvent.joins, eq_comm]
  | _ => simp [ProcessEvent.joins]

/-- The threads that were joined are those whose node a scan came to after their completion. -/
theorem Register.joined (register : Register p log) (node : Nat) :
    node ∈ joinsOf log ↔ PassedComplete node log := by
  constructor
  · intro member
    obtain ⟨event, inside, joins⟩ := List.mem_flatMap.mp member
    obtain rfl := mem_joins.mp joins
    obtain ⟨before, after, split⟩ := List.append_of_mem inside
    exact ⟨before, true, after, split, (register.passes before node true after split).mp rfl⟩
  · rintro ⟨before, joins, after, split, completed⟩
    obtain rfl := (register.passes before node joins after split).mpr completed
    refine List.mem_flatMap.mpr ⟨.passed node true, ?_, mem_joins.mpr rfl⟩
    rw [split]
    exact List.mem_append_right _ List.mem_cons_self

theorem LifeCycle.passed (law : LifeCycle p log) (register : Register p log) (answer : MainAnswer)
    (rest : List Nat) (here : p.main.pc = .foreach (node :: rest))
    (handlers : p'.server.handler = p.server.handler) :
    LifeCycle p' (log ++ [.passed node (p.server.handler node).isThreadComplete]) ↔
      Timely (.main answer) (p, log) := by
  have freed : ∀ other ∈ freedOf log, ¬Alive (p'.server.handler other) := handlers ▸ law.freedLate
  simp only [Timely, here, ← register.joined]
  cases flag : (p.server.handler node).isThreadComplete with
  | false =>
    have unseen : node ∉ joinsOf log := by
      intro member
      obtain ⟨before, joins, after, split, completed⟩ := (register.joined node).mp member
      have set := (register.flagged node).mpr (by rw [split]; exact List.mem_append_left _ completed)
      cases flag.symm.trans set
    refine iff_of_true ⟨?_, ?_⟩ unseen
    · simpa [ProcessEvent.joins] using law.joinedOnce
    · simpa [ProcessEvent.frees] using freed
  | true =>
    constructor
    · intro after member
      have once := after.joinedOnce
      rw [joinsOf_snoc] at once
      exact (List.disjoint_of_nodup_append once) member List.mem_cons_self
    · intro unseen
      constructor
      · rw [joinsOf_snoc]
        exact law.joinedOnce.append (List.nodup_singleton node)
          (List.disjoint_singleton.mpr unseen)
      · simpa [ProcessEvent.frees] using freed

theorem LifeCycle.freed (law : LifeCycle p log) (register : Register p log) (answer : MainAnswer)
    (here : p.main.pc = .free node ∨ p.main.pc = .abandon node)
    (handlers : p'.server.handler = p.server.handler) :
    LifeCycle p' (log ++ [.freed node]) ↔ Timely (.main answer) (p, log) := by
  have decides : LifeCycle p' (log ++ [.freed node]) ↔ ¬Alive (p.server.handler node) := by
    constructor
    · intro after
      rw [← handlers]
      exact after.freedLate node (by simp [ProcessEvent.frees])
    · intro gone
      constructor
      · simpa [ProcessEvent.joins] using law.joinedOnce
      · intro other member
        rw [handlers]
        rw [freedOf_snoc] at member
        rcases List.mem_append.mp member with earlier | last
        · exact law.freedLate other earlier
        · rw [List.mem_singleton.mp last]
          exact gone
  rw [decides]
  rcases here with here | here
  · simp only [Timely, here]
  · have idle := register.unstarted node (by rw [here]; rfl)
    exact iff_of_true (Alive.not_of_idle idle) (by simp only [Timely, here])

theorem LifeCycle.step (law : LifeCycle p log) (register : Register p log)
    (effect : ProcessEffect p p' action event) :
    LifeCycle p' (log ++ [event]) ↔ Timely action (p, log) := by
  cases effect with
  | plain other timely handlers accepting unstarted =>
    refine iff_of_true ⟨?_, ?_⟩ (timely log)
    · rcases other with rfl | rfl | ⟨m, rfl⟩ <;> simpa [ProcessEvent.joins] using law.joinedOnce
    · rw [handlers]
      rcases other with rfl | rfl | ⟨m, rfl⟩ <;> simpa [ProcessEvent.frees] using law.freedLate
  | created answer node fd here handlers next =>
    have none := register.kept (by rw [here]; rfl)
    refine iff_of_true ⟨?_, ?_⟩ (by simp only [Timely, here])
    · simpa [ProcessEvent.joins] using law.joinedOnce
    · simp [ProcessEvent.frees, none]
  | passed answer node rest here handlers next => exact law.passed register answer rest here handlers
  | freed answer node here handlers next => exact law.freed register answer here handlers
  | handler x answer h' shared e step handlers main =>
    refine iff_of_true ⟨?_, ?_⟩ trivial
    · simpa [ProcessEvent.joins] using law.joinedOnce
    · intro node member
      have earlier : node ∈ freedOf log := by simpa [ProcessEvent.frees] using member
      have different : node ≠ x := by
        rintro rfl
        exact law.freedLate node earlier step.alive
      rw [handlers]
      simpa [setHandler, different] using law.freedLate node earlier

theorem initial_register : Register .initial [] where
  flagged id := by simp [Process.initial, Server.initial, Handler.idle, Handler.fresh]
  idle id _ := rfl
  unstarted node waits := by cases waits
  passes before node joins after split := by cases before <;> cases split
  kept _ := rfl

/-- In every run, each thread is joined at most once and each node freed after its thread has
returned, at every point exactly when every step is timely. -/
theorem threads_lifecycle_iff
    (run : Transition.execute Process.step actions .initial = some (p, events)) :
    Transition.Throughout Process.step actions .initial LifeCycle ↔
      Transition.Guarded (Transition.logged Process.step) Timely actions (.initial, []) := by
  apply Transition.throughout_logged_iff LifeCycle Register ?_ run initial_register
  · exact ⟨List.nodup_nil, fun node member => by cases member⟩
  · intro action p log next event register law step
    have effect := process_cases step
    exact ⟨register.step effect, law.step register effect⟩

/-- A client is accepted on the descriptor `fd` and gets the thread `node`. -/
def acceptClient (node fd : Nat) : List ProcessAction :=
  [.main (.fatalErrorInProgress false), .main (.accepted (some fd)), .main (.allocated (some node)),
    .main (.created 0), .main .quiet]

/-- A client is served; then two more connect, and the scan after each finds the first. -/
def threeClients : List ProcessAction :=
  acceptClient 0 4 ++ [.main .quiet, .main .quiet] ++
    (lineTaken [98, newline] 6 2 ++ replyEnded).map (.run 0) ++
    acceptClient 1 5 ++ [.main .quiet, .main .quiet, .main (.joined 0 true), .main .quiet] ++
    acceptClient 2 6 ++ [.main .quiet, .main .quiet, .main .quiet]

theorem threeClients_outcome :
    (Transition.execute Process.step threeClients .initial).map (fun last => joinsOf last.2) =
      some [0, 0] := by decide +kernel

/-- A client is connected when `accept` fails. -/
def clientAtExit : List ProcessAction :=
  acceptClient 0 4 ++ [.main .quiet, .main .quiet, .main (.fatalErrorInProgress false),
    .main (.accepted none), .main .quiet, .main .quiet, .main .quiet]

theorem clientAtExit_outcome :
    (Transition.execute Process.step clientAtExit .initial).map
      (fun last => (freedOf last.2, (last.1.server.handler 0).pc)) = some ([0], .recv) := by
  decide +kernel

/-- A thread is joined twice, and in another run a node is freed under its running handler. -/
theorem lifecycle_broken :
    (∃ p events, Transition.execute Process.step threeClients .initial = some (p, events) ∧
      ¬(joinsOf events).Nodup) ∧
    (∃ p events, Transition.execute Process.step clientAtExit .initial = some (p, events) ∧
      ∃ node ∈ freedOf events, Alive (p.server.handler node)) := by
  constructor
  · obtain ⟨⟨p, events⟩, run, joins⟩ := Option.map_eq_some_iff.mp threeClients_outcome
    refine ⟨p, events, run, ?_⟩
    rw [joins]
    decide
  · obtain ⟨⟨p, events⟩, run, outcome⟩ := Option.map_eq_some_iff.mp clientAtExit_outcome
    obtain ⟨freed, pc⟩ := Prod.mk.inj outcome
    refine ⟨p, events, run, 0, by rw [freed]; exact List.mem_singleton_self 0, ?_⟩
    rw [Alive, pc]
    exact ⟨Pc.noConfusion, rfl⟩

theorem threads_lifecycle_iff_three :
    ∃ p events, Transition.execute Process.step threeClients .initial = some (p, events) ∧
      (Transition.Throughout Process.step threeClients .initial LifeCycle ↔
        Transition.Guarded (Transition.logged Process.step) Timely threeClients (.initial, [])) := by
  obtain ⟨⟨p, events⟩, run, _⟩ := Option.map_eq_some_iff.mp threeClients_outcome
  exact ⟨p, events, run, threads_lifecycle_iff run⟩

end Aesd
