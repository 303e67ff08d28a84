import Aesd.Library.Transition
import Mathlib.Logic.Function.Basic
import Mathlib.Data.List.ReduceOption

/-! Objects that several users call at once. A history of calls and returns is explained by
a sequential run of the object in which each operation takes effect at one moment between
its call and its return. -/
namespace Linearization

variable {U C R S : Type*}

inductive Event (U C R : Type*) where
  | call (user : U) (command : C)
  | ret (user : U) (reply : R)
  deriving DecidableEq

def Event.user : Event U C R → U
  | .call u _ | .ret u _ => u

@[simp] theorem Event.user_call (u : U) (c : C) : (Event.call u c : Event U C R).user = u := rfl

@[simp] theorem Event.user_ret (u : U) (r : R) : (Event.ret u r : Event U C R).user = u := rfl

structure Operation (U C R : Type*) where
  user : U
  command : C
  reply : R
  deriving DecidableEq

def Operation.events (o : Operation U C R) : List (Event U C R) :=
  [.call o.user o.command, .ret o.user o.reply]

inductive Stage (C R : Type*) where
  | idle
  | called (command : C)
  | effected (command : C) (reply : R)

namespace Stage

/-- The call that has not returned yet. -/
def pending (u : U) : Stage C R → List (Event U C R)
  | .idle => []
  | .called c | .effected c _ => [.call u c]

/-- The operation that has taken effect but not returned yet. -/
def ahead (u : U) : Stage C R → List (Operation U C R)
  | .idle | .called _ => []
  | .effected c r => [⟨u, c, r⟩]

def command : Stage C R → Option C
  | .idle => none
  | .called c | .effected c _ => some c

end Stage

section Histories

variable [DecidableEq U]

/-- User `u`, being at this stage, sees the operations return one after the other, in the
order in which they took effect. -/
def Explains (u : U) (events : List (Event U C R)) (ops : List (Operation U C R))
    (stage : Stage C R) : Prop :=
  ∃ complete : List (Operation U C R),
    events.filter (fun e => decide (e.user = u)) =
      complete.flatMap Operation.events ++ stage.pending u ∧
    ops.filter (fun o => decide (o.user = u)) = complete ++ stage.ahead u

/-- The operations, in this order, are a sequential run of the object, and at every moment of
the history a first part of them has taken effect: every operation that has returned, and
none that is not called yet. At its end all of them have. -/
structure Linearizes (spec : C → S → Option (S × R)) (s : S) (events : List (Event U C R))
    (ops : List (Operation U C R)) : Prop where
  legal : ∃ final, Transition.execute spec (ops.map Operation.command) s =
    some (final, ops.map Operation.reply)
  order : ∀ before, before <+: events → ∃ first, first <+: ops ∧
    ∀ u, ∃ stage, Explains u before first stage
  whole : ∀ u, ∃ stage, Explains u events ops stage

def running (u : U) (events : List (Event U C R)) : Option C :=
  match (events.filter fun e => decide (e.user = u)).getLast? with
  | some (.call _ c) => some c
  | _ => none

/-- A command is only called when none that it conflicts with is running. -/
def Event.Admitted (conflict : C → C → Prop) (before : List (Event U C R)) :
    Event U C R → Prop
  | .call _ c => ∀ e ∈ before, ∀ c' ∈ running e.user before, ¬conflict c c'
  | .ret .. => True

/-- No conflicting commands run at once. -/
def Exclusive (conflict : C → C → Prop) (before : List (Event U C R)) :
    List (Event U C R) → Prop
  | [] => True
  | e :: rest => e.Admitted conflict before ∧ Exclusive conflict (before ++ [e]) rest

instance (conflict : C → C → Prop) [DecidableRel conflict] (before : List (Event U C R)) :
    (e : Event U C R) → Decidable (e.Admitted conflict before)
  | .call _ c => inferInstanceAs
    (Decidable (∀ e ∈ before, ∀ c' ∈ running e.user before, ¬conflict c c'))
  | .ret .. => inferInstanceAs (Decidable True)

instance decidableExclusive (conflict : C → C → Prop) [DecidableRel conflict] :
    (before events : List (Event U C R)) → Decidable (Exclusive conflict before events)
  | _, [] => inferInstanceAs (Decidable True)
  | before, e :: rest =>
    have := decidableExclusive conflict (before ++ [e]) rest
    inferInstanceAs (Decidable (e.Admitted conflict before ∧ _))

/-- The object with its users. `log` lists the operations that have taken effect. -/
structure State (S U C R : Type*) where
  object : S
  stage : U → Stage C R
  log : List (Operation U C R)

inductive Action (U C : Type*) where
  | call (user : U) (command : C)
  | effect (user : U)
  | ret (user : U)
  | silent

def State.initial (s : S) : State S U C R := ⟨s, fun _ => .idle, []⟩

/-- A command takes effect in one step, some time between its call and its return. -/
def step (spec : C → S → Option (S × R)) :
    Action U C → State S U C R → Option (State S U C R × Option (Event U C R))
  | .call u c, s =>
    match s.stage u with
    | .idle => some ({ s with stage := Function.update s.stage u (.called c) }, some (.call u c))
    | _ => none
  | .effect u, s =>
    match s.stage u with
    | .called c => (spec c s.object).map fun next =>
      ({ object := next.1
         stage := Function.update s.stage u (.effected c next.2)
         log := s.log ++ [⟨u, c, next.2⟩] }, none)
    | _ => none
  | .ret u, s =>
    match s.stage u with
    | .effected _ r => some ({ s with stage := Function.update s.stage u .idle }, some (.ret u r))
    | _ => none
  | .silent, s => some (s, none)

variable {spec : C → S → Option (S × R)} {events : List (Event U C R)}
  {ops : List (Operation U C R)} {stage : Stage C R} {u v : U} {c : C} {r : R} {s s' : State S U C R}
  {event : Option (Event U C R)} {object : S}

theorem Explains.initial (u : U) : Explains u ([] : List (Event U C R)) [] .idle := ⟨[], rfl, rfl⟩

theorem Explains.running (explains : Explains u events ops stage) :
    running u events = stage.command := by
  obtain ⟨complete, seen, _⟩ := explains
  rw [Linearization.running, seen]
  cases stage with
  | idle =>
    rcases List.eq_nil_or_concat complete with rfl | ⟨first, last, rfl⟩
    · rfl
    · simp [Stage.pending, Operation.events, Stage.command]
  | called c => simp [Stage.pending, Stage.command]
  | effected c r => simp [Stage.pending, Stage.command]

theorem running_mem (runs : running u events = some c) : ∃ e ∈ events, e.user = u := by
  unfold running at runs
  split at runs
  · rename_i u' c' last
    have member := List.mem_of_getLast? last
    rw [List.mem_filter, decide_eq_true_iff] at member
    exact ⟨_, member⟩
  · contradiction

theorem Event.Admitted.call {conflict : C → C → Prop} {c' : C}
    (admitted : (Event.call u c : Event U C R).Admitted conflict events)
    (runs : running v events = some c') : ¬conflict c c' := by
  obtain ⟨e, member, rfl⟩ := running_mem runs
  exact admitted e member c' runs

theorem exclusive_append {conflict : C → C → Prop} {before later : List (Event U C R)} :
    Exclusive conflict before (events ++ later) ↔
      Exclusive conflict before events ∧ Exclusive conflict (before ++ events) later := by
  induction events generalizing before with
  | nil => simp [Exclusive]
  | cons e rest ih =>
    simp only [List.cons_append, Exclusive, ih, and_assoc, List.append_assoc, List.nil_append]

/-- A user does not see what another one calls or returns from. -/
theorem Explains.other_event (explains : Explains v events ops stage) (e : Event U C R)
    (different : e.user ≠ v) : Explains v (events ++ [e]) ops stage := by
  obtain ⟨complete, seen, effected⟩ := explains
  exact ⟨complete, by simpa [List.filter_append, different] using seen, effected⟩

theorem Explains.other_effect (explains : Explains v events ops stage) (o : Operation U C R)
    (different : o.user ≠ v) : Explains v events (ops ++ [o]) stage := by
  obtain ⟨complete, seen, effected⟩ := explains
  exact ⟨complete, seen, by simpa [List.filter_append, different] using effected⟩

theorem Explains.call (explains : Explains u events ops .idle) (c : C) :
    Explains u (events ++ [.call u c]) ops (.called c) := by
  obtain ⟨complete, seen, effected⟩ := explains
  refine ⟨complete, ?_, effected⟩
  simp only [Stage.pending, List.append_nil] at seen
  simp [List.filter_append, seen, Stage.pending]

theorem Explains.effect (explains : Explains u events ops (.called c)) (r : R) :
    Explains u events (ops ++ [⟨u, c, r⟩]) (.effected c r) := by
  obtain ⟨complete, seen, effected⟩ := explains
  refine ⟨complete, seen, ?_⟩
  simp only [Stage.ahead, List.append_nil] at effected
  simp [List.filter_append, effected, Stage.ahead]

theorem Explains.ret (explains : Explains u events ops (.effected c r)) :
    Explains u (events ++ [.ret u r]) ops .idle := by
  obtain ⟨complete, seen, effected⟩ := explains
  refine ⟨complete ++ [⟨u, c, r⟩], ?_, ?_⟩
  · simp [List.filter_append, seen, Stage.pending, Operation.events]
  · simpa [Stage.ahead] using effected

theorem step_cases {action : Action U C} (one : step spec action s = some (s', event)) :
    (∃ u c, s.stage u = .idle ∧ event = some (.call u c) ∧
      s' = { s with stage := Function.update s.stage u (.called c) }) ∨
    (∃ u c object r, s.stage u = .called c ∧ event = none ∧
      spec c s.object = some (object, r) ∧
      s' = ⟨object, Function.update s.stage u (.effected c r), s.log ++ [⟨u, c, r⟩]⟩) ∨
    (∃ u c r, s.stage u = .effected c r ∧ event = some (.ret u r) ∧
      s' = { s with stage := Function.update s.stage u .idle }) ∨
    (event = none ∧ s' = s) := by
  cases action with
  | call u c =>
    simp only [step] at one
    split at one
    · cases one
      exact .inl ⟨u, c, ‹_›, rfl, rfl⟩
    · contradiction
  | effect u =>
    simp only [step] at one
    split at one
    · obtain ⟨⟨object, r⟩, result, same⟩ := Option.map_eq_some_iff.mp one
      cases same
      exact .inr (.inl ⟨u, _, object, r, ‹_›, rfl, result, rfl⟩)
    · contradiction
  | ret u =>
    simp only [step] at one
    split at one
    · cases one
      exact .inr (.inr (.inl ⟨u, _, _, ‹_›, rfl, rfl⟩))
    · contradiction
  | silent =>
    cases one
    exact .inr (.inr (.inr ⟨rfl, rfl⟩))

structure Recorded (spec : C → S → Option (S × R)) (object : S) (s : State S U C R)
    (events : List (Event U C R)) : Prop where
  legal : Transition.execute spec (s.log.map Operation.command) object =
    some (s.object, s.log.map Operation.reply)
  order : ∀ before, before <+: events → ∃ first, first <+: s.log ∧
    ∀ u, ∃ stage, Explains u before first stage
  now : ∀ u, Explains u events s.log (s.stage u)

theorem Recorded.initial (object : S) :
    Recorded spec object (State.initial object) ([] : List (Event U C R)) where
  legal := rfl
  order before front := by
    rw [List.prefix_nil.mp front]
    exact ⟨[], List.prefix_rfl, fun u => ⟨.idle, Explains.initial u⟩⟩
  now := Explains.initial

/-- A longer log still explains the shorter histories, and the new history if it explains it
now. -/
theorem Recorded.extend (recorded : Recorded spec object s events)
    (legal : Transition.execute spec (s'.log.map Operation.command) object =
      some (s'.object, s'.log.map Operation.reply))
    (longer : s.log <+: s'.log) (now : ∀ u, Explains u (events ++ event.toList) s'.log (s'.stage u)) :
    Recorded spec object s' (events ++ event.toList) where
  legal := legal
  order before front := by
    have old : before <+: events → ∃ first, first <+: s'.log ∧
        ∀ u, ∃ stage, Explains u before first stage := by
      intro front
      obtain ⟨first, part, explains⟩ := recorded.order before front
      exact ⟨first, part.trans longer, explains⟩
    cases event with
    | none => exact old (by simpa using front)
    | some e =>
      rcases List.prefix_concat_iff.mp front with all | inside
      · rw [all]
        exact ⟨s'.log, List.prefix_rfl, fun u => ⟨_, now u⟩⟩
      · exact old inside
  now := now

theorem explains_update {events' : List (Event U C R)} {ops' : List (Operation U C R)}
    {stages : U → Stage C R} (own : Explains u events' ops' stage)
    (others : ∀ v, v ≠ u → Explains v events' ops' (stages v)) (v : U) :
    Explains v events' ops' (Function.update stages u stage v) := by
  by_cases same : v = u
  · subst same
    simpa using own
  · simpa [same] using others v same

theorem Recorded.step {action : Action U C} (recorded : Recorded spec object s events)
    (one : step spec action s = some (s', event)) :
    Recorded spec object s' (events ++ event.toList) := by
  have now := recorded.now
  rcases step_cases one with ⟨u, c, idle, rfl, rfl⟩ | ⟨u, c, next, r, called, rfl, result, rfl⟩ |
    ⟨u, c, r, effected, rfl, rfl⟩ | ⟨rfl, rfl⟩
  · refine recorded.extend recorded.legal ?_ ?_
    · exact List.prefix_rfl
    · apply explains_update
      · exact Explains.call (idle ▸ now u) c
      · intro v different
        exact (now v).other_event _ (Ne.symm different)
  · refine recorded.extend ?_ (List.prefix_append _ _) ?_
    · simp only [List.map_append, List.map_cons, List.map_nil]
      exact Transition.execute_snoc_iff.mpr ⟨s.object, recorded.legal, result⟩
    · rw [Option.toList_none, List.append_nil]
      apply explains_update
      · exact Explains.effect (called ▸ now u) r
      · intro v different
        exact (now v).other_effect _ (Ne.symm different)
  · refine recorded.extend recorded.legal ?_ ?_
    · exact List.prefix_rfl
    · apply explains_update
      · exact Explains.ret (effected ▸ now u)
      · intro v different
        exact (now v).other_event _ (Ne.symm different)
  · apply recorded.extend recorded.legal List.prefix_rfl
    simpa using now

/-- A system whose steps are matched by steps of the object with its users, as long as no
conflicting commands run at once: what can be seen of any such run is explained by the log of the
matching state. -/
theorem recorded_of_simulation {T L : Type*} {system : L → T → Option (T × Option (Event U C R))}
    {conflict : C → C → Prop} {object : S} (related : T → State S U C R → Prop)
    (steps : ∀ label t s before t' event, related t s → Recorded spec object s before →
      (∀ e ∈ event, e.Admitted conflict before) → system label t = some (t', event) →
      ∃ action s', step spec action s = some (s', event) ∧ related t' s')
    {labels : List L} {t final : T} {outputs : List (Option (Event U C R))}
    (run : Transition.execute system labels t = some (final, outputs))
    (initial : related t (State.initial object))
    (exclusive : Exclusive conflict [] outputs.reduceOption) :
    ∃ s, related final s ∧ Recorded spec object s outputs.reduceOption := by
  refine Transition.execute_history
    (fun t outputs => Exclusive conflict [] outputs.reduceOption →
      ∃ s, related t s ∧ Recorded spec object s outputs.reduceOption) ?_ run
    (fun _ => ⟨_, initial, Recorded.initial object⟩) exclusive
  intro label t before t' event earlier one exclusive
  rw [List.reduceOption_append, List.reduceOption_singleton] at exclusive ⊢
  obtain ⟨front, last⟩ := exclusive_append.mp exclusive
  have admitted : ∀ e ∈ event, e.Admitted conflict before.reduceOption := by
    rintro e rfl
    exact last.1
  obtain ⟨s, before', recorded⟩ := earlier front
  obtain ⟨action, s', matching, after⟩ := steps label t s _ t' event before' recorded admitted one
  exact ⟨s', after, recorded.step matching⟩

theorem Recorded.linearizes (recorded : Recorded spec object s events) :
    Linearizes spec object events s.log :=
  ⟨⟨_, recorded.legal⟩, recorded.order, fun u => ⟨_, recorded.now u⟩⟩

end Histories

end Linearization
