import Aesd.Library.Transition
import Aesd.Startup
import Mathlib.Data.List.Basic

/-! How the process ends after a signal. The handler of the first one cleans up and raises the signal
again with its default action, in a bounded number of statements whatever else comes; a second signal
that is handled while `fatal_error_in_progress` is set raises itself again and again, and the first
handler never goes on. -/
namespace Aesd

variable {s s' : Startup} {g : Globals} {e : Executed} {action : StartAction} {answer : StartAnswer}
  {actions : List StartAction} {event : StartEvent} {events log : List StartEvent}
  {a b sig : Signal} {stmt : Stmt} {c d w x rest : List Stmt} {older : List (Signal × List Stmt)}
  {table : Nat → Option OpenedAs}

section Statements

def Stmt.tidies : Stmt → Bool
  | .syslog | .closeData | .freeNodes | .mutexDestroy | .closeSocket | .closeClient | .testResult
  | .freeaddrinfo | .nullify | .closelog | .shutdown | .setCaught => true
  | _ => false

/-- What a handler that ends the process has still to do. -/
def Winds (a : Signal) : List Stmt → Prop
  | [] => True
  | .raise sig :: rest => sig = a ∧ rest = []
  | .signalDefault sig :: rest => sig = a ∧ rest = [.raise a]
  | stmt :: rest => stmt.tidies = true ∧ rest ≠ [] ∧ rest ≠ [.raise a] ∧ Winds a rest

theorem gracefulShutdown_winds (a : Signal) : Winds a (gracefulShutdown a) := by
  simp [gracefulShutdown, cleanupOnExit, freeAndNullifyResult, Winds, Stmt.tidies]

theorem Winds.cases {motive : Prop} (winds : Winds a (stmt :: rest))
    (raise : stmt = .raise a → rest = [] → motive)
    (default : stmt = .signalDefault a → rest = [.raise a] → motive)
    (tidy : stmt.tidies = true → rest ≠ [] → rest ≠ [.raise a] → Winds a rest → motive) :
    motive := by
  cases stmt with
  | raise sig =>
    obtain ⟨rfl, rfl⟩ := winds
    exact raise rfl rfl
  | signalDefault sig =>
    obtain ⟨rfl, rfl⟩ := winds
    exact default rfl rfl
  | _ => exact tidy winds.1 winds.2.1 winds.2.2.1 winds.2.2.2

/-- What a statement of the clean-up has done next: what is left, after what it puts in. -/
inductive Inserts (g : Globals) (rest : List Stmt) (stmt : Stmt) (e : Executed) : Prop
  | nothing (clients : e.globals.clients = g.clients) (next : e.next = rest)
      (test : stmt = .testResult → g.result = false)
  | release (test : stmt = .testResult) (here : g.result = true)
      (clients : e.globals.clients = g.clients) (next : e.next = .freeaddrinfo :: .nullify :: rest)
  | log (failed : stmt = .closeData ∨ stmt = .shutdown) (clients : e.globals.clients = g.clients)
      (next : e.next = .syslog :: rest)
  | node (frees : stmt = .freeNodes) (clients : g.clients = e.globals.clients + 1)
      (next : e.next = .freeNodes :: rest)

/-- What a statement of the clean-up does to the control of the process: nothing. -/
structure CleanupEffect (g : Globals) (rest : List Stmt) (stmt : Stmt) (e : Executed) : Prop where
  fatal : e.globals.fatalErrorInProgress = g.fatalErrorInProgress
  handled : e.globals.handled = g.handled
  inserts : Inserts g rest stmt e
  raised : e.raised = none
  ending : e.ending = none
  event : e.event = if stmt = .freeaddrinfo then .freeaddrinfo g.addrinfo else .internal
  result : e.globals.result = if stmt = .nullify then false else g.result
  addrinfo : e.globals.addrinfo = if stmt = .freeaddrinfo then false else g.addrinfo

theorem exec_tidy (tidies : stmt.tidies = true) (exec : stmt.exec answer rest g = some e) :
    CleanupEffect g rest stmt e := by
  cases stmt <;> try exact absurd tidies Bool.false_ne_true
  all_goals
    rcases answer with _ | _ | (_ | _) | _ | _ | _ <;>
      simp only [Stmt.exec, reduceCtorEq, Option.some.injEq] at exec
    repeat' split at exec
    all_goals cases exec
  case testResult.quiet.isTrue here =>
    exact ⟨rfl, rfl, .release rfl here rfl rfl, rfl, rfl, rfl, rfl, rfl⟩
  case testResult.quiet.isFalse null =>
    exact ⟨rfl, rfl, .nothing rfl rfl fun _ => Bool.eq_false_iff.mpr null, rfl, rfl, rfl, rfl, rfl⟩
  all_goals first
    | exact ⟨rfl, rfl, .nothing rfl rfl nofun, rfl, rfl, rfl, rfl, rfl⟩
    | exact ⟨rfl, rfl, .log (.inl rfl) rfl rfl, rfl, rfl, rfl, rfl, rfl⟩
    | exact ⟨rfl, rfl, .log (.inr rfl) rfl rfl, rfl, rfl, rfl, rfl, rfl⟩
    | exact ⟨rfl, rfl, .node rfl ‹_› rfl, rfl, rfl, rfl, rfl, rfl⟩

/-- Every statement of the clean-up can be executed. -/
theorem exec_possible (tidies : stmt.tidies = true) (g : Globals) (rest : List Stmt) :
    ∃ answer e, stmt.exec answer rest g = some e := by
  cases stmt <;> try exact absurd tidies Bool.false_ne_true
  case syslog => exact ⟨.fd none, _, rfl⟩
  case shutdown => exact ⟨.ret 0, _, rfl⟩
  all_goals
    refine ⟨.quiet, ?_⟩
    simp only [Stmt.exec]
    first
      | exact ⟨_, rfl⟩
      | split <;> exact ⟨_, rfl⟩

def Stmt.ordinary : Stmt → Bool
  | .testFatal _ | .setFatal | .shutdown | .setCaught | .signalDefault _ | .raise _ => false
  | _ => true

theorem main_ordinary : ∀ stmt ∈ main, stmt.ordinary = true := by decide

theorem onError_ordinary : ∀ stmt ∈ onError, stmt.ordinary = true := by decide

structure Ordinary (g : Globals) (e : Executed) : Prop where
  fatal : e.globals.fatalErrorInProgress = g.fatalErrorInProgress
  next : ∀ stmt ∈ e.next, stmt.ordinary = true
  raised : e.raised = none
  ending : e.ending ≠ none → e.next = []
  handled : ∀ sig, g.handled sig = true → e.globals.handled sig = true
  caught : ∀ sig, e.event ≠ .caught sig
  interrupted : ∀ sig, e.event ≠ .interrupted sig

theorem exec_ordinary (ordinary : stmt.ordinary = true)
    (rest_ordinary : ∀ stmt ∈ rest, stmt.ordinary = true)
    (exec : stmt.exec answer rest g = some e) : Ordinary g e := by
  have daemon : ∀ stmt ∈ runDaemon ++ rest, stmt.ordinary = true := by
    simpa [runDaemon, Stmt.ordinary] using rest_ordinary
  have failed : ∀ stmt ∈ .syslog :: onError, stmt.ordinary = true :=
    List.forall_mem_cons.mpr ⟨rfl, onError_ordinary⟩
  have leaves : ∀ status, ∀ stmt ∈ [Stmt.syslog, .exitWith status], stmt.ordinary = true := by
    simp [Stmt.ordinary]
  have before : ∀ stmt : Stmt, stmt.ordinary = true → ∀ next ∈ stmt :: rest, next.ordinary = true :=
    fun stmt first => List.forall_mem_cons.mpr ⟨first, rest_ordinary⟩
  cases stmt <;> try exact absurd ordinary Bool.false_ne_true
  all_goals
    rcases answer with _ | _ | (_ | _) | _ | _ | _ <;>
      simp only [Stmt.exec, reduceCtorEq, Option.some.injEq] at exec
    repeat' split at exec
    all_goals
      cases exec <;> refine ⟨rfl, ?_, rfl, ?_, ?_, fun _ => StartEvent.noConfusion,
        fun _ => StartEvent.noConfusion⟩
    all_goals first
      | exact fun ended => absurd rfl ended
      | exact fun _ => rfl
      | exact fun _ still => still
      | exact rest_ordinary
      | exact onError_ordinary
      | exact failed
      | exact daemon
      | exact leaves _
      | exact before _ rfl
      | exact List.forall_mem_nil _
      | simpa [Globals.then, Stmt.ordinary] using rest_ordinary
      | exact fun _ still => by simp [Globals.then, Function.update_apply, still]

end Statements

section Control

/-- A statement counts with all that it can put in before the rest. -/
def Stmt.cost (clients : Nat) : Stmt → Nat
  | .freeNodes => clients + 1
  | .testResult => 3
  | .closeData | .shutdown => 2
  | _ => 1

def stepsLeft (clients : Nat) : List Stmt → Nat
  | [] => 0
  | stmt :: rest => stmt.cost clients + stepsLeft clients rest

@[simp] theorem stepsLeft_nil (clients : Nat) : stepsLeft clients [] = 0 := rfl

@[simp] theorem stepsLeft_cons (clients : Nat) (stmt : Stmt) (rest : List Stmt) :
    stepsLeft clients (stmt :: rest) = stmt.cost clients + stepsLeft clients rest := rfl

theorem cost_pos (clients : Nat) (stmt : Stmt) : 1 ≤ stmt.cost clients := by
  cases stmt <;> simp [Stmt.cost]

theorem stepsLeft_less (clients : Nat) (w : List Stmt) :
    stepsLeft clients w ≤ stepsLeft (clients + 1) w := by
  induction w with
  | nil => exact Nat.le_refl 0
  | cons stmt rest ih =>
    have first : stmt.cost clients ≤ stmt.cost (clients + 1) := by cases stmt <;> simp [Stmt.cost]
    rw [stepsLeft_cons, stepsLeft_cons]
    omega

theorem stepsLeft_graceful (clients : Nat) (a : Signal) :
    stepsLeft clients (gracefulShutdown a) = clients + 18 := by
  simp [gracefulShutdown, cleanupOnExit, freeAndNullifyResult, Stmt.cost]
  omega

/-- A statement of the clean-up takes at least one step, and frees a node only as one more. -/
theorem Inserts.less (inserts : Inserts g rest stmt e) :
    stepsLeft e.globals.clients e.next + 1 ≤ stepsLeft g.clients (stmt :: rest) ∧
      e.globals.clients ≤ g.clients ∧ g.clients ≤ e.globals.clients + 1 := by
  have positive := cost_pos g.clients stmt
  cases inserts with
  | nothing clients next test =>
    rw [next, clients, stepsLeft_cons]
    omega
  | release test here clients next =>
    subst test
    rw [next, clients]
    simp only [stepsLeft_cons, Stmt.cost]
    omega
  | log failed clients next =>
    rw [next, clients]
    rcases failed with rfl | rfl <;>
      · simp only [stepsLeft_cons, Stmt.cost]
        omega
  | node frees clients next =>
    have fewer := stepsLeft_less e.globals.clients rest
    subst frees
    rw [next, clients]
    simp only [stepsLeft_cons, Stmt.cost]
    omega

def Entering (a : Signal) (c : List Stmt) : Prop :=
  c = handleTermination a ∨ c = .setFatal :: gracefulShutdown a

/-- A handler that finds the flag set, or will be started again as soon as it returns. -/
def Bounces (b : Signal) (x : List Stmt) (pending : Signal → Bool) : Prop :=
  x = handleTermination b ∨ x = [.raise b] ∨ (x = [] ∧ pending b = true)

/-- At most one other handler was interrupted before. -/
def Beneath (a : Signal) (older : List (Signal × List Stmt)) : Prop :=
  older = [] ∨ ∃ b d, b ≠ a ∧ older = [(b, d)]

def Quiet (log : List StartEvent) : Prop := ∀ sig, .interrupted sig ∉ log

/-- Where the process is between its start and its end. -/
inductive Standing (s : Startup) (log : List StartEvent) : Prop
  | main (frames : s.frames = []) (calm : s.globals.fatalErrorInProgress = false)
      (uncaught : ∀ sig, .caught sig ∉ log) (quiet : Quiet log) : Standing s log
  | entering (a : Signal) (c : List Stmt) (older : List (Signal × List Stmt))
      (frames : s.frames = (a, c) :: older) (entering : Entering a c) (beneath : Beneath a older)
      (calm : s.globals.fatalErrorInProgress = false) (quiet : Quiet log) : Standing s log
  | winding (a : Signal) (w : List Stmt) (older : List (Signal × List Stmt))
      (frames : s.frames = (a, w) :: older) (winds : Winds a w)
      (short : stepsLeft s.globals.clients w ≤ s.globals.clients + 18)
      (beneath : Beneath a older) (fatal : s.globals.fatalErrorInProgress = true)
      (default : w = [] ∨ w = [.raise a] → s.globals.handled a = false)
      (raised : w = [] → s.pending a = true) (quiet : Quiet log) : Standing s log
  | trapped (a b : Signal) (w x : List Stmt) (apart : a ≠ b)
      (frames : s.frames = [(b, x), (a, w)]) (fatal : s.globals.fatalErrorInProgress = true)
      (handled : s.globals.handled b = true) (bounces : Bounces b x s.pending)
      (interrupted : .interrupted b ∈ log) : Standing s log

/-- What is known of a run until now. -/
structure Startup.Controlled (s : Startup) (log : List StartEvent) : Prop where
  ordinary : ∀ stmt ∈ s.code, stmt.ordinary = true
  standing : s.ended = none → Standing s log
  gone : s.ended ≠ none → Quiet log

theorem Quiet.snoc (quiet : Quiet log) (other : ∀ sig, event ≠ .interrupted sig) :
    Quiet (log ++ [event]) := by
  intro sig member
  rcases List.mem_append.mp member with earlier | now
  · exact quiet sig earlier
  · exact other sig (List.mem_singleton.mp now).symm

theorem not_mem_snoc (absent : ∀ sig, .caught sig ∉ log) (other : ∀ sig, event ≠ .caught sig) :
    ∀ sig, .caught sig ∉ log ++ [event] := by
  intro sig member
  rcases List.mem_append.mp member with earlier | now
  · exact absent sig earlier
  · exact other sig (List.mem_singleton.mp now).symm

theorem Signal.third (apart : b ≠ a) (other : sig ≠ a) : sig = b := by
  cases a <;> cases b <;> cases sig <;> first | rfl | contradiction

theorem blocks_head (frames : s.frames = (a, c) :: older) : s.blocks a = true := by
  simp [Startup.blocks, frames]

theorem blocks_both (frames : s.frames = [(b, x), (a, w)]) (apart : a ≠ b) :
    s.blocks sig = true := by
  by_cases same : sig = a
  · simp [Startup.blocks, frames, same]
  · simp [Startup.blocks, frames, Signal.third apart.symm same]

theorem notify_blocked (blocks : s.blocks sig = true) :
    s.notify sig = ({ s with pending := Function.update s.pending sig true }, .blocked sig) := by
  simp only [Startup.notify, blocks, if_true]

/-- With a handler beneath, both signals are blocked. -/
theorem Beneath.blocks (beneath : Beneath a older) (frames : s.frames = (a, c) :: older)
    (open' : s.blocks sig = false) : sig ≠ a ∧ older = [] := by
  have other : sig ≠ a := by
    rintro rfl
    rw [blocks_head frames] at open'
    cases open'
  refine ⟨other, ?_⟩
  rcases beneath with rfl | ⟨b, d, apart, rfl⟩
  · rfl
  · have same : b = sig := (Signal.third apart other).symm
    simp [Startup.blocks, frames, same] at open'

theorem Controlled.notify (ordinary : ∀ stmt ∈ s.code, stmt.ordinary = true)
    (standing : Standing s log) (alive : s.ended = none) :
    (s.notify sig).1.Controlled (log ++ [(s.notify sig).2]) := by
  cases blocked : s.blocks sig with
  | true =>
    rw [notify_blocked blocked]
    refine ⟨ordinary, fun _ => ?_, fun ended => absurd alive ended⟩
    cases standing with
    | main frames =>
      simp [Startup.blocks, frames] at blocked
    | entering a c older frames entering beneath calm quiet =>
      exact .entering a c older frames entering beneath calm
        (quiet.snoc fun _ => StartEvent.noConfusion)
    | winding a w older frames winds short beneath fatal default raised quiet =>
      refine .winding a w older frames winds short beneath fatal default ?_
        (quiet.snoc fun _ => StartEvent.noConfusion)
      intro empty
      by_cases same : a = sig
      · simp [same]
      · simpa [same] using raised empty
    | trapped a b w x apart frames fatal handled bounces interrupted =>
      refine .trapped a b w x apart frames fatal handled ?_ (List.mem_append_left _ interrupted)
      rcases bounces with first | raise | ⟨empty, pending⟩
      · exact .inl first
      · exact .inr (.inl raise)
      · refine .inr (.inr ⟨empty, ?_⟩)
        by_cases same : b = sig
        · simp [same]
        · simpa [same] using pending
  | false =>
    simp only [Startup.notify, blocked, Bool.false_eq_true, if_false, Startup.deliver]
    cases handled : s.globals.handled sig with
    | false =>
      simp only [Bool.false_eq_true, if_false]
      refine ⟨ordinary, (by rintro ⟨⟩), fun _ => ?_⟩
      have quiet : Quiet log := by
        cases standing with
        | main _ _ _ quiet => exact quiet
        | entering _ _ _ _ _ _ _ quiet => exact quiet
        | winding _ _ _ _ _ _ _ _ _ _ quiet => exact quiet
        | trapped a b w x apart frames =>
          rw [blocks_both frames apart] at blocked
          cases blocked
      exact quiet.snoc fun _ => StartEvent.noConfusion
    | true =>
      simp only [if_true]
      refine ⟨ordinary, fun _ => ?_, fun ended => absurd alive ended⟩
      cases standing with
      | main frames calm uncaught quiet =>
        rw [calm]
        exact .entering sig _ [] (by rw [frames]) (.inl rfl) (.inl rfl) calm
          (quiet.snoc fun _ => StartEvent.noConfusion)
      | entering a c older frames entering beneath calm quiet =>
        obtain ⟨other, rfl⟩ := beneath.blocks frames blocked
        rw [calm]
        exact .entering sig _ [(a, c)] (by rw [frames]) (.inl rfl)
          (.inr ⟨a, c, other.symm, rfl⟩) calm (quiet.snoc fun _ => StartEvent.noConfusion)
      | winding a w older frames winds short beneath fatal default raised quiet =>
        obtain ⟨other, rfl⟩ := beneath.blocks frames blocked
        rw [fatal]
        exact .trapped a sig w _ other.symm (by rw [frames]) fatal handled (.inl rfl)
          (List.mem_append_right _ (List.mem_singleton_self _))
      | trapped a b w x apart frames =>
        rw [blocks_both frames apart] at blocked
        cases blocked

theorem Controlled.main (ordinary : ∀ stmt ∈ s.code, stmt.ordinary = true)
    (frames : s.frames = []) (calm : s.globals.fatalErrorInProgress = false)
    (uncaught : ∀ sig, .caught sig ∉ log) (quiet : Quiet log)
    (step : s.run answer = some (s', event)) : s'.Controlled (log ++ [event]) := by
  simp only [Startup.run, frames] at step
  split at step
  · cases step
  · rename_i stmt rest code
    rw [code, List.forall_mem_cons] at ordinary
    obtain ⟨e, exec, same⟩ := Option.map_eq_some_iff.mp step
    have effect := exec_ordinary ordinary.1 ordinary.2 exec
    simp only [Startup.executed, effect.raised, Prod.mk.injEq] at same
    obtain ⟨rfl, rfl⟩ := same
    have later := quiet.snoc effect.interrupted
    refine ⟨effect.next, fun _ => ?_, fun _ => later⟩
    exact .main rfl (effect.fatal.trans calm) (not_mem_snoc uncaught effect.caught) later

theorem Controlled.entering (ordinary : ∀ stmt ∈ s.code, stmt.ordinary = true)
    (frames : s.frames = (a, c) :: older) (entering : Entering a c)
    (beneath : Beneath a older) (calm : s.globals.fatalErrorInProgress = false) (quiet : Quiet log)
    (step : s.run answer = some (s', event)) : s'.Controlled (log ++ [event]) := by
  rcases entering with rfl | rfl
  · simp only [Startup.run, frames, handleTermination] at step
    obtain ⟨e, exec, same⟩ := Option.map_eq_some_iff.mp step
    cases answer <;> simp only [Stmt.exec, calm, reduceCtorEq, Bool.false_eq_true, if_false,
      Option.some.injEq] at exec
    subst exec
    cases same
    exact ⟨ordinary, fun _ => .entering a _ older rfl (.inr rfl) beneath calm
      (quiet.snoc fun _ => StartEvent.noConfusion), fun ended => absurd rfl ended⟩
  · simp only [Startup.run, frames] at step
    obtain ⟨e, exec, same⟩ := Option.map_eq_some_iff.mp step
    cases answer <;> simp only [Stmt.exec, reduceCtorEq, Option.some.injEq] at exec
    subst exec
    cases same
    refine ⟨ordinary, fun _ => ?_, fun ended => absurd rfl ended⟩
    refine .winding a _ older rfl (gracefulShutdown_winds a) (stepsLeft_graceful _ a).le beneath rfl
      ?_ ?_
      (quiet.snoc fun _ => StartEvent.noConfusion)
    · rintro (none | one)
      · cases none
      · cases one
    · intro none
      cases none

/-- What a tidying statement leaves of the handler that ends the process. -/
theorem Winds.tidy (inserts : Inserts g rest stmt e) (more : rest ≠ []) (unraised : rest ≠ [.raise a])
    (winds : Winds a rest) : Winds a e.next ∧ e.next ≠ [] ∧ e.next ≠ [.raise a] := by
  cases inserts with
  | nothing clients next => exact next ▸ ⟨winds, more, unraised⟩
  | release test here clients next =>
    rw [next]
    refine ⟨⟨rfl, List.cons_ne_nil _ _, ?_, rfl, more, unraised, winds⟩, List.cons_ne_nil _ _, ?_⟩
    · simp
    · simp
  | log failed clients next =>
    rw [next]
    exact ⟨⟨rfl, more, unraised, winds⟩, List.cons_ne_nil _ _, by simp⟩
  | node frees clients next =>
    rw [next]
    exact ⟨⟨rfl, more, unraised, winds⟩, List.cons_ne_nil _ _, by simp⟩

theorem Controlled.winding (ordinary : ∀ stmt ∈ s.code, stmt.ordinary = true)
    (frames : s.frames = (a, w) :: older) (winds : Winds a w)
    (short : stepsLeft s.globals.clients w ≤ s.globals.clients + 18)
    (beneath : Beneath a older) (fatal : s.globals.fatalErrorInProgress = true)
    (default : w = [] ∨ w = [.raise a] → s.globals.handled a = false)
    (raised : w = [] → s.pending a = true) (quiet : Quiet log)
    (step : s.run answer = some (s', event)) : s'.Controlled (log ++ [event]) := by
  cases w with
  | nil =>
    simp only [Startup.run, frames, raised rfl, if_true, Startup.deliver, default (.inl rfl),
      Bool.false_eq_true, if_false, Option.some.injEq, Prod.mk.injEq] at step
    obtain ⟨rfl, rfl⟩ := step
    exact ⟨ordinary, (by rintro ⟨⟩),
      fun _ => quiet.snoc fun _ => StartEvent.noConfusion⟩
  | cons stmt rest =>
    simp only [Startup.run, frames] at step
    obtain ⟨e, exec, same⟩ := Option.map_eq_some_iff.mp step
    refine winds.cases ?_ ?_ ?_
    · rintro rfl rfl
      cases answer <;> simp only [Stmt.exec, reduceCtorEq, Option.some.injEq] at exec
      subst exec
      have blocked : Startup.blocks { s with
          frames := (a, []) :: older, globals := s.globals, ended := none } a = true :=
        blocks_head rfl
      simp only [Startup.executed, Globals.then, notify_blocked blocked, Prod.mk.injEq] at same
      obtain ⟨rfl, rfl⟩ := same
      refine ⟨ordinary, fun _ => ?_, fun ended => absurd rfl ended⟩
      exact .winding a [] older rfl trivial (Nat.zero_le _) beneath fatal
        (fun _ => default (.inr rfl)) (fun _ => Function.update_self ..)
        (quiet.snoc fun _ => StartEvent.noConfusion)
    · rintro rfl rfl
      cases answer <;> simp only [Stmt.exec, reduceCtorEq, Option.some.injEq] at exec
      subst exec
      cases same
      refine ⟨ordinary, fun _ => ?_, fun ended => absurd rfl ended⟩
      exact .winding a [.raise a] older rfl ⟨rfl, rfl⟩ (by simp [Stmt.cost]) beneath fatal
        (fun _ => Function.update_self ..) (by rintro ⟨⟩)
        (quiet.snoc fun _ => StartEvent.noConfusion)
    · intro tidies more unraised winds'
      have tidy := exec_tidy tidies exec
      simp only [Startup.executed, tidy.raised, Prod.mk.injEq] at same
      obtain ⟨rfl, rfl⟩ := same
      have quiet' : Quiet (log ++ [e.event]) := by
        refine quiet.snoc fun sig => ?_
        rw [tidy.event]
        split <;> exact StartEvent.noConfusion
      obtain ⟨less, _, same⟩ := tidy.inserts.less
      obtain ⟨after, some, raises⟩ := winds'.tidy tidy.inserts more unraised
      refine ⟨ordinary, fun _ => ?_, fun _ => quiet'⟩
      have short' : stepsLeft e.globals.clients e.next ≤ e.globals.clients + 18 := by omega
      refine .winding a _ older rfl after short' beneath (tidy.fatal.trans fatal) ?_ ?_ quiet'
      · rintro (none | one)
        · exact absurd none some
        · exact absurd one raises
      · exact fun none => absurd none some

/-- The second handler goes round in circles. -/
theorem Controlled.trapped (ordinary : ∀ stmt ∈ s.code, stmt.ordinary = true)
    (alive : s.ended = none) (apart : a ≠ b) (frames : s.frames = [(b, x), (a, w)])
    (fatal : s.globals.fatalErrorInProgress = true) (handled : s.globals.handled b = true)
    (bounces : Bounces b x s.pending) (interrupted : .interrupted b ∈ log)
    (step : s.run answer = some (s', event)) : s'.Controlled (log ++ [event]) := by
  have still := List.mem_append_left [event] interrupted
  rcases bounces with rfl | rfl | ⟨rfl, pending⟩
  · simp only [Startup.run, frames, handleTermination] at step
    obtain ⟨e, exec, same⟩ := Option.map_eq_some_iff.mp step
    cases answer <;> simp only [Stmt.exec, fatal, reduceCtorEq, if_true, Option.some.injEq] at exec
    subst exec
    cases same
    exact ⟨ordinary, fun _ => .trapped a b w _ apart rfl fatal handled (.inr (.inl rfl)) still,
      fun ended => absurd rfl ended⟩
  · simp only [Startup.run, frames] at step
    obtain ⟨e, exec, same⟩ := Option.map_eq_some_iff.mp step
    cases answer <;> simp only [Stmt.exec, reduceCtorEq, Option.some.injEq] at exec
    subst exec
    have blocked : Startup.blocks { s with
        frames := [(b, []), (a, w)], globals := s.globals, ended := none } b = true :=
      blocks_head rfl
    simp only [Startup.executed, Globals.then, notify_blocked blocked, Prod.mk.injEq] at same
    obtain ⟨rfl, rfl⟩ := same
    exact ⟨ordinary, fun _ => .trapped a b w [] apart rfl fatal handled
      (.inr (.inr ⟨rfl, Function.update_self ..⟩)) still, fun ended => absurd rfl ended⟩
  · simp only [Startup.run, frames, pending, if_true, Startup.deliver, handled, Option.some.injEq,
      Prod.mk.injEq] at step
    obtain ⟨rfl, rfl⟩ := step
    exact ⟨ordinary, fun _ => .trapped a b w _ apart rfl fatal handled (.inl rfl) still,
      fun ended => absurd alive ended⟩

theorem Startup.Controlled.step (controlled : s.Controlled log)
    (step : s.step action = some (s', event)) : s'.Controlled (log ++ [event]) := by
  unfold Startup.step at step
  cases ended : s.ended with
  | some ending =>
    rw [ended] at step
    cases step
  | none =>
    rw [ended] at step
    have ordinary := controlled.ordinary
    have standing := controlled.standing ended
    cases action with
    | run answer =>
      cases standing with
      | main frames calm uncaught quiet =>
        exact Controlled.main ordinary frames calm uncaught quiet step
      | entering a c older frames entering beneath calm quiet =>
        exact Controlled.entering ordinary frames entering beneath calm quiet step
      | winding a w older frames winds short beneath fatal default raised quiet =>
        exact Controlled.winding ordinary frames winds short beneath fatal default raised quiet step
      | trapped a b w x apart frames fatal handled bounces interrupted =>
        exact Controlled.trapped ordinary ended apart frames fatal handled bounces interrupted step
    | signal sig =>
      have notified : (s.notify sig).1.Controlled (log ++ [(s.notify sig).2]) :=
        Controlled.notify ordinary standing ended
      rw [Option.some.inj step] at notified
      exact notified
    | threads files logFile data client =>
      simp only [Option.isSome_none, Bool.false_eq_true, if_false] at step
      split at step
      · cases step
        refine ⟨ordinary, fun _ => ?_, fun gone => absurd rfl gone⟩
        cases standing with
        | main frames calm uncaught quiet =>
          exact .main frames calm (not_mem_snoc uncaught fun _ => StartEvent.noConfusion)
            (quiet.snoc fun _ => StartEvent.noConfusion)
        | entering a c older frames entering beneath calm quiet =>
          exact .entering a c older frames entering beneath calm
            (quiet.snoc fun _ => StartEvent.noConfusion)
        | winding a w older frames winds short beneath fatal default raised quiet =>
          exact .winding a w older frames winds short beneath fatal default raised
            (quiet.snoc fun _ => StartEvent.noConfusion)
        | trapped a b w x apart frames fatal handled bounces interrupted =>
          exact .trapped a b w x apart frames fatal handled bounces
            (List.mem_append_left _ interrupted)
      · cases step

theorem Startup.Controlled.of_run
    (run : Transition.execute Startup.step actions (.initial table) = some (s, events)) :
    s.Controlled events :=
  Transition.execute_history Startup.Controlled (fun _ _ _ _ _ controlled step =>
    controlled.step step) run
    ⟨main_ordinary, fun _ => .main rfl rfl (fun _ => List.not_mem_nil) (fun _ => List.not_mem_nil),
      fun ended => absurd rfl ended⟩

end Control

section Ending

def StartAction.own : StartAction → Bool
  | .run _ => true
  | _ => false

/-- How many statements the handlers have left at most. While the flag is unset a second signal can
come between the test and the setting of it, which costs one more test. -/
def Startup.left (s : Startup) : Nat :=
  match s.ended, s.frames with
  | none, (_, w) :: older =>
    stepsLeft s.globals.clients w + 1 +
      if s.globals.fatalErrorInProgress = false ∧ older = [] then 1 else 0
  | _, _ => 0

theorem left_of_frames (alive : s.ended = none) (frames : s.frames = (a, w) :: older) :
    s.left = stepsLeft s.globals.clients w + 1 +
      if s.globals.fatalErrorInProgress = false ∧ older = [] then 1 else 0 := by
  rw [Startup.left, alive, frames]

theorem left_of_ended (ended : s.ended ≠ none) : s.left = 0 := by
  obtain ⟨ending, ended⟩ := Option.ne_none_iff_exists'.mp ended
  rw [Startup.left, ended]

theorem left_less (alive : s.ended = none) (alive' : s'.ended = none)
    (frames : s.frames = (a, w) :: older) (frames' : s'.frames = (a, d) :: older)
    (fatal : s.globals.fatalErrorInProgress = true → s'.globals.fatalErrorInProgress = true)
    (less : stepsLeft s'.globals.clients d + 1 ≤ stepsLeft s.globals.clients w) :
    s'.left + 1 ≤ s.left := by
  rw [left_of_frames alive frames, left_of_frames alive' frames']
  by_cases unset : s'.globals.fatalErrorInProgress = false ∧ older = []
  · have before : s.globals.fatalErrorInProgress = false := by
      by_contra set
      rw [Bool.not_eq_false] at set
      rw [fatal set] at unset
      cases unset.1
    rw [if_pos unset, if_pos ⟨before, unset.2⟩]
    omega
  · rw [if_neg unset]
    omega

theorem left_notify (standing : Standing s log) (alive : s.ended = none) (caught : .caught a ∈ log)
    (quiet : ∀ b, (s.notify sig).2 ≠ .interrupted b) : (s.notify sig).1.left ≤ s.left := by
  revert quiet
  cases blocked : s.blocks sig with
  | true =>
    rw [notify_blocked blocked]
    exact fun _ => Nat.le_refl _
  | false =>
    simp only [Startup.notify, blocked, Bool.false_eq_true, if_false, Startup.deliver]
    cases handled : s.globals.handled sig with
    | false =>
      simp only [Bool.false_eq_true, if_false]
      exact fun _ => Nat.zero_le _
    | true =>
      simp only [if_true]
      intro quiet
      cases standing with
      | main frames calm uncaught => exact absurd caught (uncaught a)
      | entering a c older frames entering beneath calm =>
        obtain ⟨_, rfl⟩ := beneath.blocks frames blocked
        rw [left_of_frames alive frames, if_pos ⟨calm, rfl⟩]
        rcases entering with rfl | rfl <;>
          · simp only [Startup.left, alive, frames, handleTermination, stepsLeft_cons,
              stepsLeft_graceful, Stmt.cost, reduceCtorEq, and_false, if_false]
            omega
      | winding a w older frames winds short beneath fatal =>
        rw [fatal] at quiet
        exact absurd rfl (quiet sig)
      | trapped a b w x apart frames =>
        rw [blocks_both frames apart] at blocked
        cases blocked

theorem left_run (standing : Standing s log) (alive : s.ended = none) (caught : .caught a ∈ log)
    (quiet : Quiet log) (step : s.run answer = some (s', event)) : s'.left + 1 ≤ s.left := by
  cases standing with
  | main frames calm uncaught => exact absurd caught (uncaught a)
  | trapped a b w x apart frames fatal handled bounces interrupted =>
    exact absurd interrupted (quiet b)
  | entering a c older frames entering beneath calm =>
    rcases entering with rfl | rfl
    · simp only [Startup.run, frames, handleTermination] at step
      obtain ⟨e, exec, same⟩ := Option.map_eq_some_iff.mp step
      cases answer <;> simp only [Stmt.exec, calm, reduceCtorEq, Bool.false_eq_true, if_false,
        Option.some.injEq] at exec
      subst exec
      cases same
      refine left_less alive rfl frames rfl id ?_
      simp only [handleTermination, Globals.then, stepsLeft_cons, Stmt.cost]
      omega
    · simp only [Startup.run, frames] at step
      obtain ⟨e, exec, same⟩ := Option.map_eq_some_iff.mp step
      cases answer <;> simp only [Stmt.exec, reduceCtorEq, Option.some.injEq] at exec
      subst exec
      cases same
      refine left_less alive rfl frames rfl (fun _ => rfl) ?_
      simp only [Globals.then, stepsLeft_cons, Stmt.cost]
      omega
  | winding a w older frames winds short beneath fatal default raised =>
    cases w with
    | nil =>
      simp only [Startup.run, frames, raised rfl, if_true, Startup.deliver, default (.inl rfl),
        Bool.false_eq_true, if_false, Option.some.injEq, Prod.mk.injEq] at step
      obtain ⟨rfl, rfl⟩ := step
      rw [left_of_ended (Option.some_ne_none _), left_of_frames alive frames]
      omega
    | cons stmt rest =>
      simp only [Startup.run, frames] at step
      obtain ⟨e, exec, same⟩ := Option.map_eq_some_iff.mp step
      refine winds.cases ?_ ?_ ?_
      · rintro rfl rfl
        cases answer <;> simp only [Stmt.exec, reduceCtorEq, Option.some.injEq] at exec
        subst exec
        have blocked : Startup.blocks { s with
            frames := (a, []) :: older, globals := s.globals, ended := none } a = true :=
          blocks_head rfl
        simp only [Startup.executed, Globals.then, notify_blocked blocked, Prod.mk.injEq] at same
        obtain ⟨rfl, rfl⟩ := same
        exact left_less alive rfl frames rfl id (by simp [Stmt.cost])
      · rintro rfl rfl
        cases answer <;> simp only [Stmt.exec, reduceCtorEq, Option.some.injEq] at exec
        subst exec
        cases same
        exact left_less alive rfl frames rfl id (by simp [Globals.then, Stmt.cost])
      · intro tidies more unraised winds'
        have tidy := exec_tidy tidies exec
        simp only [Startup.executed, tidy.raised, tidy.ending, Prod.mk.injEq] at same
        obtain ⟨rfl, rfl⟩ := same
        exact left_less alive rfl frames rfl tidy.fatal.trans tidy.inserts.less.1

theorem Standing.possible (standing : Standing s log) (caught : .caught a ∈ log) (quiet : Quiet log) :
    ∃ answer s' event, s.run answer = some (s', event) := by
  cases standing with
  | main frames calm uncaught => exact absurd caught (uncaught a)
  | trapped a b w x apart frames fatal handled bounces interrupted =>
    exact absurd interrupted (quiet b)
  | entering a c older frames entering beneath calm =>
    refine ⟨.quiet, ?_⟩
    rcases entering with rfl | rfl
    · simp only [Startup.run, frames, handleTermination, Stmt.exec, calm, Bool.false_eq_true, if_false]
      exact ⟨_, _, rfl⟩
    · simp only [Startup.run, frames, Stmt.exec]
      exact ⟨_, _, rfl⟩
  | winding a w older frames winds short beneath fatal default raised =>
    cases w with
    | nil =>
      refine ⟨.quiet, ?_⟩
      simp only [Startup.run, frames, raised rfl, if_true]
      exact ⟨_, _, rfl⟩
    | cons stmt rest =>
      have possible : ∃ answer e, stmt.exec answer rest s.globals = some e := by
        refine winds.cases ?_ ?_ ?_
        · rintro rfl rfl
          exact ⟨.quiet, _, rfl⟩
        · rintro rfl rfl
          exact ⟨.quiet, _, rfl⟩
        · exact fun tidies _ _ _ => exec_possible tidies s.globals rest
      obtain ⟨answer, e, exec⟩ := possible
      refine ⟨answer, ?_⟩
      simp only [Startup.run, frames, exec, Option.map_some]
      exact ⟨_, _, rfl⟩

theorem left_le (controlled : s.Controlled log) : s.left ≤ s.globals.clients + 22 := by
  by_cases alive : s.ended = none
  · have extra : ∀ older : List (Signal × List Stmt),
        (if s.globals.fatalErrorInProgress = false ∧ older = [] then 1 else 0) ≤ 1 := by
      intro older
      split <;> decide
    cases controlled.standing alive with
    | main frames =>
      rw [Startup.left, alive, frames]
      exact Nat.zero_le _
    | entering a c older frames entering =>
      have := extra older
      rw [left_of_frames alive frames]
      rcases entering with rfl | rfl <;>
        · simp only [handleTermination, stepsLeft_cons, stepsLeft_graceful, Stmt.cost]
          omega
    | winding a w older frames winds short =>
      have := extra older
      rw [left_of_frames alive frames]
      omega
    | trapped a b w x apart frames fatal handled bounces =>
      rw [left_of_frames alive frames, if_neg (by simp)]
      rcases bounces with rfl | rfl | ⟨rfl, _⟩
      · simp only [handleTermination, stepsLeft_cons, stepsLeft_graceful, Stmt.cost]
        omega
      · simp only [stepsLeft_cons, stepsLeft_nil, Stmt.cost]
        omega
      · rw [stepsLeft_nil]
        omega
  · rw [left_of_ended alive]
    exact Nat.zero_le _

theorem left_step (controlled : s.Controlled log) (caught : .caught a ∈ log)
    (step : s.step action = some (s', event)) (quiet : Quiet (log ++ [event])) :
    s'.left + (if action.own then 1 else 0) ≤ s.left := by
  have quiet' : Quiet log := fun sig member => quiet sig (List.mem_append_left _ member)
  unfold Startup.step at step
  cases alive : s.ended with
  | some ending =>
    rw [alive] at step
    cases step
  | none =>
    have standing := controlled.standing alive
    rw [alive] at step
    cases action with
    | run answer => exact left_run standing alive caught quiet' step
    | signal sig =>
      have unheard : ∀ b, (s.notify sig).2 ≠ .interrupted b := by
        rw [Option.some.inj step]
        exact fun b same => quiet b (same ▸ List.mem_append_right _ (List.mem_singleton_self _))
      have notified := left_notify standing alive caught unheard
      rw [Option.some.inj step] at notified
      exact notified
    | threads files logFile data client =>
      simp only [Option.isSome_none, Bool.false_eq_true, if_false] at step
      split at step
      · cases step
        simp [Startup.left, alive, StartAction.own]
      · cases step

/-- A run in which no signal is handled with the flag set: each statement is one of those left. -/
theorem left_bounds (controlled : s.Controlled log) (caught : .caught a ∈ log)
    (run : Transition.execute Startup.step actions s = some (s', events))
    (quiet : Quiet (log ++ events)) :
    s'.left + actions.countP StartAction.own ≤ s.left := by
  induction actions generalizing s log events with
  | nil =>
    simp only [Transition.execute_nil, Option.some.injEq, Prod.mk.injEq] at run
    rw [run.1]
    exact Nat.le_refl _
  | cons action rest ih =>
    obtain ⟨next, event, later, one, tail, rfl⟩ := Transition.execute_cons_iff.mp run
    rw [← List.singleton_append, ← List.append_assoc] at quiet
    have first := left_step controlled caught one fun sig member =>
      quiet sig (List.mem_append_left _ member)
    have others := ih (controlled.step one) (List.mem_append_left _ caught) tail quiet
    rw [List.countP_cons]
    omega

def standard : Nat → Option OpenedAs := fun fd => if fd < 3 then some .inherited else none

/-- Up to the first statement of `free_and_nullify_result`. -/
def binding : List StartAction :=
  [.ret 0, .quiet, .options [], .quiet, .quiet, .fd (some 3), .quiet, .addrinfo 0 true, .quiet,
    .fd (some 4), .ret 0, .ret 0].map .run

/-- Both signals come while the server serves two clients, the second before the first handler has
set the flag. -/
def bothSignals : List StartAction :=
  binding ++ List.replicate 4 (.run .quiet) ++
    [.run (.ret 0), .run (.clients 2), .signal .sigint, .run .quiet, .signal .sigterm]

def secondHandler : List StartAction :=
  [.quiet, .quiet, .fd (some 3), .ret 0, .quiet, .fd (some 3), .quiet, .quiet, .quiet, .quiet,
    .quiet, .quiet, .quiet, .quiet, .fd (some 3), .quiet, .quiet, .quiet, .quiet].map .run

end Ending

end Aesd
