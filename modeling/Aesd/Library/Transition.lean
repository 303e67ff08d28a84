import Mathlib.Data.List.Basic
import Mathlib.Data.List.Infix

/-! Finite executions of a deterministic labelled step. Every nondeterministic
choice is part of the label; `none` means that the label is not a step there. -/
namespace Transition

variable {S L O : Type*} (step : L → S → Option (S × O))

/-- The state and outputs after all labels, oldest output first. -/
def execute : List L → S → Option (S × List O)
  | [], s => some (s, [])
  | label :: rest, s =>
    (step label s).bind fun next =>
      (execute rest next.1).map fun last => (last.1, next.2 :: last.2)

variable {step}

@[simp] theorem execute_nil (s : S) : execute step [] s = some (s, []) := rfl

theorem execute_cons_iff : execute step (label :: rest) s = some (final, outputs) ↔
    ∃ next output later, step label s = some (next, output) ∧
      execute step rest next = some (final, later) ∧ outputs = output :: later := by
  simp only [execute, Option.bind_eq_some_iff, Option.map_eq_some_iff, Prod.exists, Prod.mk.injEq]
  constructor
  · rintro ⟨next, output, first, last, later, tail, rfl, rfl⟩
    exact ⟨next, output, later, first, tail, rfl⟩
  · rintro ⟨next, output, later, first, tail, rfl⟩
    exact ⟨next, output, first, final, later, tail, rfl, rfl⟩

theorem execute_append_iff : execute step (first ++ second) s = some (final, outputs) ↔
    ∃ middle before after, execute step first s = some (middle, before) ∧
      execute step second middle = some (final, after) ∧ outputs = before ++ after := by
  induction first generalizing s outputs with
  | nil => simp
  | cons label rest ih =>
    simp only [List.cons_append, execute_cons_iff]
    constructor
    · rintro ⟨next, output, later, one, tail, rfl⟩
      obtain ⟨middle, before, after, front, last, rfl⟩ := ih.mp tail
      exact ⟨middle, output :: before, after, ⟨next, output, before, one, front, rfl⟩, last, rfl⟩
    · rintro ⟨middle, before, after, ⟨next, output, later, one, tail, rfl⟩, last, rfl⟩
      exact ⟨next, output, later ++ after, one, ih.mpr ⟨middle, later, after, tail, last, rfl⟩, rfl⟩

theorem execute_append (first : execute step before s = some (middle, outputs))
    (second : execute step after middle = some (final, later)) :
    execute step (before ++ after) s = some (final, outputs ++ later) :=
  execute_append_iff.mpr ⟨middle, outputs, later, first, second, rfl⟩

theorem execute_singleton : execute step [label] s = some (final, outputs) ↔
    ∃ output, step label s = some (final, output) ∧ outputs = [output] := by
  simp [execute_cons_iff]

theorem execute_length (run : execute step labels s = some (final, outputs)) :
    outputs.length = labels.length := by
  induction labels generalizing s outputs with
  | nil => simp only [execute_nil, Option.some.injEq, Prod.mk.injEq] at run; simp [← run.2]
  | cons label rest ih =>
    obtain ⟨next, output, later, _, tail, rfl⟩ := execute_cons_iff.mp run
    simp [ih tail]

theorem execute_snoc_iff :
    execute step (labels ++ [label]) s = some (final, outputs ++ [output]) ↔
      ∃ middle, execute step labels s = some (middle, outputs) ∧
        step label middle = some (final, output) := by
  constructor
  · intro run
    obtain ⟨middle, before, after, front, last, same⟩ := execute_append_iff.mp run
    obtain ⟨output', one, rfl⟩ := execute_singleton.mp last
    obtain ⟨rfl, new⟩ := List.append_inj' same rfl
    cases new
    exact ⟨middle, front, one⟩
  · rintro ⟨middle, front, one⟩
    exact execute_append front (execute_singleton.mpr ⟨output, one, rfl⟩)

theorem execute_last (run : execute step labels s = some (final, outputs ++ [output])) :
    ∃ before label middle, execute step before s = some (middle, outputs) ∧
      step label middle = some (final, output) := by
  rcases List.eq_nil_or_concat labels with rfl | ⟨before, label, rfl⟩
  · have lengths := execute_length run
    simp at lengths
  · rw [List.concat_eq_append] at run
    exact ⟨before, label, execute_snoc_iff.mp run⟩

theorem split_snoc {last : O} (split : outputs ++ [last] = before ++ output :: after) :
    (before = outputs ∧ output = last) ∨ ∃ rest, outputs = before ++ output :: rest := by
  rcases List.eq_nil_or_concat after with rfl | ⟨rest, final, rfl⟩
  · obtain ⟨rfl, same⟩ := List.append_inj' split rfl
    exact .inl ⟨rfl, (List.singleton_inj.mp same).symm⟩
  · have shorter : outputs ++ [last] = (before ++ output :: rest) ++ [final] := by
      simpa using split
    exact .inr ⟨rest, (List.append_inj' shorter rfl).1⟩

/-- A property of the state and the outputs holds at every point of a run. -/
def Throughout (step : L → S → Option (S × O)) (labels : List L) (s : S)
    (property : S → List O → Prop) : Prop :=
  ∀ n middle outputs, execute step (labels.take n) s = some (middle, outputs) →
    property middle outputs

theorem throughout_cons_iff {property : S → List O → Prop} :
    Throughout step (label :: rest) s property ↔
      property s [] ∧ ∀ next output, step label s = some (next, output) →
        Throughout step rest next (fun t later => property t (output :: later)) := by
  constructor
  · intro all
    refine ⟨all 0 s [] rfl, ?_⟩
    intro next output one n middle outputs run
    exact all (n + 1) middle (output :: outputs)
      (execute_cons_iff.mpr ⟨next, output, outputs, one, run, rfl⟩)
  · rintro ⟨now, later⟩ n middle outputs run
    cases n with
    | zero =>
      simp only [List.take_zero, execute_nil, Option.some.injEq, Prod.mk.injEq] at run
      exact run.1 ▸ run.2 ▸ now
    | succ n =>
      rw [List.take_succ_cons] at run
      obtain ⟨next, output, after, one, tail, rfl⟩ := execute_cons_iff.mp run
      exact later next output one n middle after tail

theorem throughout_nil_iff {property : S → List O → Prop} :
    Throughout step [] s property ↔ property s [] := by
  constructor
  · exact fun all => all 0 s [] rfl
  · intro now n middle outputs run
    simp only [List.take_nil, execute_nil, Option.some.injEq, Prod.mk.injEq] at run
    exact run.1 ▸ run.2 ▸ now

/-- Every step of a run meets a condition on its label and the state before it. -/
def Guarded (step : L → S → Option (S × O)) (guard : L → S → Prop) : List L → S → Prop
  | [], _ => True
  | label :: rest, s =>
    guard label s ∧ ∀ next output, step label s = some (next, output) → Guarded step guard rest next

/-- Steps are deterministic, so a run can be checked. -/
instance decidableGuarded {guard : L → S → Prop} [∀ label s, Decidable (guard label s)] :
    ∀ labels s, Decidable (Guarded step guard labels s)
  | [], _ => isTrue trivial
  | label :: rest, s =>
    match one : step label s with
    | none => decidable_of_iff (guard label s)
        ⟨fun meets => ⟨meets, fun _ _ two => by rw [one] at two; cases two⟩, And.left⟩
    | some (next, output) =>
      have : Decidable (Guarded step guard rest next) := decidableGuarded rest next
      decidable_of_iff (guard label s ∧ Guarded step guard rest next)
        ⟨fun ⟨meets, tail⟩ => ⟨meets, fun _ _ two => by rw [one] at two; cases two; exact tail⟩,
          fun ⟨meets, tail⟩ => ⟨meets, tail next output one⟩⟩

/-- An invariant of the guarded steps holds at every point of a guarded run. -/
theorem Guarded.throughout {guard : L → S → Prop} {property : S → Prop}
    (preserved : ∀ label s next output, property s → guard label s →
      step label s = some (next, output) → property next)
    (guarded : Guarded step guard labels s) (initial : property s) :
    Throughout step labels s (fun s _ => property s) := by
  induction labels generalizing s with
  | nil => exact throughout_nil_iff.mpr initial
  | cons label rest ih =>
    refine throughout_cons_iff.mpr ⟨initial, ?_⟩
    intro next output one
    exact ih (guarded.2 next output one) (preserved _ _ _ _ initial guarded.1 one)

/-- A property that a step keeps exactly when it meets the guard holds at the end of a run
exactly when it held at the start and every step met the guard. -/
theorem guarded_iff {guard : L → S → Prop} (property invariant : S → Prop)
    (steps : ∀ label s next output, invariant s → step label s = some (next, output) →
      invariant next ∧ (property next ↔ property s ∧ guard label s))
    (run : execute step labels s = some (final, outputs)) (initial : invariant s) :
    property final ↔ property s ∧ Guarded step guard labels s := by
  induction labels generalizing s outputs with
  | nil =>
    simp only [execute_nil, Option.some.injEq, Prod.mk.injEq] at run
    simp [← run.1, Guarded]
  | cons label rest ih =>
    obtain ⟨next, output, later, one, tail, rfl⟩ := execute_cons_iff.mp run
    obtain ⟨kept, exact⟩ := steps label s next output initial one
    rw [ih tail kept, exact, and_assoc]
    refine and_congr_right fun _ => and_congr_right fun _ => ⟨?_, fun later => later next output one⟩
    intro later next' output' one'
    rw [one, Option.some.injEq, Prod.mk.injEq] at one'
    obtain ⟨rfl, rfl⟩ := one'
    exact later

/-- A property holds at every point of a run exactly when every step meets the guard, if the
guard decides for each step from where the property holds whether it holds after it. -/
theorem throughout_iff {guard : L → S → Prop} (property invariant : S → Prop)
    (steps : ∀ label s next output, invariant s → property s → step label s = some (next, output) →
      invariant next ∧ (property next ↔ guard label s))
    (run : execute step labels s = some (final, outputs)) (now : invariant s)
    (initial : property s) :
    Throughout step labels s (fun s _ => property s) ↔ Guarded step guard labels s := by
  induction labels generalizing s outputs with
  | nil => exact iff_of_true (throughout_nil_iff.mpr initial) trivial
  | cons label rest ih =>
    obtain ⟨next, output, later, one, tail, rfl⟩ := execute_cons_iff.mp run
    obtain ⟨kept, decides⟩ := steps label s next output now initial one
    rw [throughout_cons_iff, Guarded]
    simp only [one, Option.some.injEq, Prod.mk.injEq]
    constructor
    · rintro ⟨_, all⟩
      have after := all next output ⟨rfl, rfl⟩ 0 next [] rfl
      refine ⟨decides.mp after, ?_⟩
      rintro _ _ ⟨rfl, rfl⟩
      exact (ih tail kept after).mp (all next output ⟨rfl, rfl⟩)
    · rintro ⟨meets, guarded⟩
      refine ⟨initial, ?_⟩
      rintro _ _ ⟨rfl, rfl⟩
      exact (ih tail kept (decides.mpr meets)).mpr (guarded next output ⟨rfl, rfl⟩)

theorem guarded_outputs_iff {good : O → Prop} (run : execute step labels s = some (final, outputs)) :
    Guarded step (fun label s => ∀ next output, step label s = some (next, output) → good output)
      labels s ↔ ∀ output ∈ outputs, good output := by
  induction labels generalizing s outputs with
  | nil =>
    simp only [execute_nil, Option.some.injEq, Prod.mk.injEq] at run
    simp [← run.2, Guarded]
  | cons label rest ih =>
    obtain ⟨next, output, later, one, tail, rfl⟩ := execute_cons_iff.mp run
    simp only [Guarded, one, Option.some.injEq, Prod.mk.injEq, List.forall_mem_cons]
    constructor
    · rintro ⟨now, guarded⟩
      exact ⟨now next output ⟨rfl, rfl⟩, (ih tail).mp (guarded next output ⟨rfl, rfl⟩)⟩
    · rintro ⟨now, all⟩
      refine ⟨?_, ?_⟩
      · rintro _ _ ⟨rfl, rfl⟩
        exact now
      · rintro _ _ ⟨rfl, rfl⟩
        exact (ih tail).mpr all

/-- A property holds at every point of a run exactly when every output is good, if the output of
each step decides whether the property stays. -/
theorem throughout_outputs_iff {good : O → Prop} (property invariant : S → Prop)
    (steps : ∀ label s next output, invariant s → property s → step label s = some (next, output) →
      invariant next ∧ (property next ↔ good output))
    (run : execute step labels s = some (final, outputs)) (now : invariant s)
    (initial : property s) :
    Throughout step labels s (fun s _ => property s) ↔ ∀ output ∈ outputs, good output := by
  refine (throughout_iff property invariant ?_ run now initial).trans (guarded_outputs_iff run)
  intro label s next output kept held one
  obtain ⟨after, decides⟩ := steps label s next output kept held one
  refine ⟨after, decides.trans ⟨?_, fun all => all next output one⟩⟩
  intro fine next' output' one'
  rw [one, Option.some.injEq, Prod.mk.injEq] at one'
  obtain ⟨rfl, rfl⟩ := one'
  exact fine

theorem Guarded.history {guard : L → S → Prop} (property : S → List O → Prop)
    (preserved : ∀ label s before next output, property s before → guard label s →
      step label s = some (next, output) → property next (before ++ [output]))
    (guarded : Guarded step guard labels s)
    (run : execute step labels s = some (final, outputs)) (initial : property s before) :
    property final (before ++ outputs) := by
  induction labels generalizing s outputs before with
  | nil =>
    simp only [execute_nil, Option.some.injEq, Prod.mk.injEq] at run
    simpa [← run.1, ← run.2] using initial
  | cons label rest ih =>
    obtain ⟨next, output, later, one, tail, rfl⟩ := execute_cons_iff.mp run
    have after := preserved _ _ _ _ _ initial guarded.1 one
    simpa using ih (guarded.2 next output one) tail after

theorem guarded_true (labels : List L) (s : S) : Guarded step (fun _ _ => True) labels s := by
  induction labels generalizing s with
  | nil => trivial
  | cons label rest ih => exact ⟨trivial, fun next _ _ => ih next⟩

theorem guarded_labels {good : L → Prop} (all : ∀ label ∈ labels, good label) (s : S) :
    Guarded step (fun label _ => good label) labels s := by
  induction labels generalizing s with
  | nil => trivial
  | cons label rest ih =>
    obtain ⟨first, others⟩ := List.forall_mem_cons.mp all
    exact ⟨first, fun next _ _ => ih others next⟩

theorem execute_history (property : S → List O → Prop)
    (preserved : ∀ label s before next output, property s before →
      step label s = some (next, output) → property next (before ++ [output]))
    (run : execute step labels s = some (final, outputs)) (initial : property s []) :
    property final outputs := by
  have all := (guarded_true labels s).history property
    (fun label s before next output now _ one => preserved label s before next output now one)
    run initial
  exact all

/-- A rank that every good step lowers, until the states are left for good, bounds the runs
that have not left them. -/
theorem length_le_rank {good : O → Prop} (active : Nat → S → Prop) (left : S → Prop)
    (steps : ∀ label s next output rank, active rank s → good output →
      step label s = some (next, output) → (∃ rank' < rank, active rank' next) ∨ left next)
    (stays : ∀ label s next output, left s → step label s = some (next, output) → left next)
    (run : execute step labels s = some (final, outputs)) (fine : ∀ output ∈ outputs, good output)
    (start : active rank s) (still : ¬left final) : outputs.length ≤ rank := by
  induction labels generalizing s rank outputs with
  | nil =>
    simp only [execute_nil, Option.some.injEq, Prod.mk.injEq] at run
    simp [← run.2]
  | cons label rest ih =>
    obtain ⟨next, output, later, one, tail, rfl⟩ := execute_cons_iff.mp run
    obtain ⟨now, after⟩ := List.forall_mem_cons.mp fine
    rcases steps label s next output rank start now one with ⟨rank', less, active⟩ | gone
    · exact Nat.lt_of_le_of_lt (ih tail after active) less
    · have last : left final := execute_history (fun s _ => left s)
        (fun label s _ next output gone one => stays label s next output gone one) tail gone
      exact absurd last still

/-- The step with the outputs so far as part of the state. -/
def logged (step : L → S → Option (S × O)) (label : L) (s : S × List O) :
    Option ((S × List O) × O) :=
  (step label s.1).map fun next => ((next.1, s.2 ++ [next.2]), next.2)

theorem logged_eq_some (one : step label s = some (next, output)) :
    logged step label (s, before) = some ((next, before ++ [output]), output) := by
  rw [logged, one, Option.map_some]

theorem execute_logged (run : execute step labels s = some (final, outputs)) :
    execute (logged step) labels (s, before) = some ((final, before ++ outputs), outputs) := by
  induction labels generalizing s before outputs with
  | nil =>
    simp only [execute_nil, Option.some.injEq, Prod.mk.injEq] at run
    simp [← run.1, ← run.2]
  | cons label rest ih =>
    obtain ⟨next, output, later, one, tail, rfl⟩ := execute_cons_iff.mp run
    have rest : execute (logged step) rest (next, before ++ [output]) =
        some ((final, before ++ output :: later), later) := by
      rw [ih tail, List.append_assoc, List.singleton_append]
    exact execute_cons_iff.mpr ⟨(next, before ++ [output]), output, later, logged_eq_some one,
      rest, rfl⟩

/-- An invariant of the state and the outputs so far, when the guarded steps preserve it. -/
theorem Guarded.throughout_logged {guard : L → S × List O → Prop} {property : S → List O → Prop}
    (preserved : ∀ label s before next output, property s before → guard label (s, before) →
      step label s = some (next, output) → property next (before ++ [output]))
    (guarded : Guarded (logged step) guard labels (s, [])) (initial : property s []) :
    Throughout step labels s property := by
  have all : Throughout (logged step) labels (s, []) (fun p _ => property p.1 p.2) := by
    refine guarded.throughout ?_ initial
    rintro label ⟨s, before⟩ next output now meets one
    obtain ⟨⟨next', output'⟩, plain, same⟩ := Option.map_eq_some_iff.mp one
    cases same
    exact preserved label s before next' output' now meets plain
  intro n middle outputs run
  exact all n (middle, [] ++ outputs) outputs (execute_logged run)

theorem execute_of_logged (run : execute (logged step) labels (s, before) = some (final, outputs)) :
    execute step labels s = some (final.1, outputs) ∧ final.2 = before ++ outputs := by
  induction labels generalizing s before outputs with
  | nil =>
    simp only [execute_nil, Option.some.injEq, Prod.mk.injEq] at run
    simp [← run.1, ← run.2]
  | cons label rest ih =>
    obtain ⟨next, output, later, one, tail, rfl⟩ := execute_cons_iff.mp run
    obtain ⟨⟨plain, output'⟩, step', same⟩ := Option.map_eq_some_iff.mp one
    cases same
    obtain ⟨run', log⟩ := ih tail
    exact ⟨execute_cons_iff.mpr ⟨plain, output', later, step', run', rfl⟩, by simpa using log⟩

/-- The same for a property and a guard that look at the outputs so far. -/
theorem throughout_logged_iff {guard : L → S × List O → Prop} (property invariant : S → List O → Prop)
    (steps : ∀ label s before next output, invariant s before → property s before →
      step label s = some (next, output) → invariant next (before ++ [output]) ∧
        (property next (before ++ [output]) ↔ guard label (s, before)))
    (run : execute step labels s = some (final, outputs)) (now : invariant s [])
    (initial : property s []) :
    Throughout step labels s property ↔ Guarded (logged step) guard labels (s, []) := by
  have points : Throughout step labels s property ↔
      Throughout (logged step) labels (s, []) (fun p _ => property p.1 p.2) := by
    constructor
    · intro all n middle outputs short
      obtain ⟨plain, log⟩ := execute_of_logged short
      rw [log]
      exact all n middle.1 outputs plain
    · intro all n middle outputs short
      exact all n (middle, [] ++ outputs) outputs (execute_logged short)
  rw [points]
  refine throughout_iff (fun p => property p.1 p.2) (fun p => invariant p.1 p.2) ?_
    (execute_logged run) now initial
  rintro label ⟨s, before⟩ next output kept held one
  obtain ⟨⟨next', output'⟩, plain, same⟩ := Option.map_eq_some_iff.mp one
  cases same
  exact steps label s before next' output' kept held plain

/-- Steps of two systems that always succeed together, with the same outputs. -/
theorem execute_lockstep {T : Type*} {other : L → T → Option (T × O)} {s : S} {t : T}
    (related : S → T → Prop)
    (steps : ∀ label s t, related s t → ∃ s' t' output, step label s = some (s', output) ∧
      other label t = some (t', output) ∧ related s' t')
    (labels : List L) (initial : related s t) :
    ∃ s' t' outputs, execute step labels s = some (s', outputs) ∧
      execute other labels t = some (t', outputs) ∧ related s' t' := by
  induction labels generalizing s t with
  | nil => exact ⟨s, t, [], rfl, rfl, initial⟩
  | cons label rest ih =>
    obtain ⟨s₁, t₁, output, one, one', next⟩ := steps label s t initial
    obtain ⟨s', t', outputs, tail, tail', last⟩ := ih next
    exact ⟨s', t', output :: outputs, execute_cons_iff.mpr ⟨s₁, output, outputs, one, tail, rfl⟩,
      execute_cons_iff.mpr ⟨t₁, output, outputs, one', tail', rfl⟩, last⟩

/-- Each step of a system shows some steps of another one, so that a run shows a run. -/
theorem execute_simulation {T M P : Type*} {other : M → T → Option (T × P)} {s : S} {t : T}
    (related : S → T → Prop) (visible : O → List (M × P))
    (steps : ∀ label s next output t, related s t → step label s = some (next, output) →
      ∃ t', execute other ((visible output).map Prod.fst) t =
        some (t', (visible output).map Prod.snd) ∧ related next t')
    (run : execute step labels s = some (final, outputs)) (initial : related s t) :
    ∃ t', execute other ((outputs.flatMap visible).map Prod.fst) t =
      some (t', (outputs.flatMap visible).map Prod.snd) ∧ related final t' := by
  induction labels generalizing s t outputs with
  | nil =>
    cases run
    exact ⟨t, rfl, initial⟩
  | cons label rest ih =>
    obtain ⟨next, output, later, one, tail, rfl⟩ := execute_cons_iff.mp run
    obtain ⟨t₁, first, now⟩ := steps label s next output t initial one
    obtain ⟨t', others, last⟩ := ih tail now
    refine ⟨t', ?_, last⟩
    simp only [List.flatMap_cons, List.map_append]
    exact execute_append first others

/-- Each step of a system is matched by some steps of another one that let the same be seen. -/
theorem execute_refinement {T M P V : Type*} {other : M → T → Option (T × P)} {s : S} {t : T}
    (related : S → T → Prop) (seen : O → Option V) (shown : P → Option V)
    (steps : ∀ label s next output t, related s t → step label s = some (next, output) →
      ∃ moves t' shows, execute other moves t = some (t', shows) ∧
        shows.filterMap shown = (seen output).toList ∧ related next t')
    (run : execute step labels s = some (final, outputs)) (initial : related s t) :
    ∃ moves t' shows, execute other moves t = some (t', shows) ∧
      shows.filterMap shown = outputs.filterMap seen ∧ related final t' := by
  induction labels generalizing s t outputs with
  | nil =>
    cases run
    exact ⟨[], t, [], rfl, rfl, initial⟩
  | cons label rest ih =>
    obtain ⟨next, output, later, one, tail, rfl⟩ := execute_cons_iff.mp run
    obtain ⟨moves, t₁, shows, first, same, now⟩ := steps label s next output t initial one
    obtain ⟨moves', t', shows', others, same', last⟩ := ih tail now
    refine ⟨moves ++ moves', t', shows ++ shows', execute_append first others, ?_, last⟩
    rw [List.filterMap_append, same, same', List.filterMap_cons]
    cases seen output <;> rfl

end Transition
