import Aesd.Atomicity

/-! What the lock and the private copies are for: file operations at the same time are atomic, do
not spoil each other's memory, and all return. -/
namespace Aesd

open Linearization (Event)

variable {s s' : System} {o : AtomicSystem} {j : Journal} {c : Call} {task : Task} {thread : Nat}
  {seek : Int → Int → Int → Int → Int} {moves : List Move}
  {events : List (Option (Event Nat Call Reply))}

section Atomicity

def System.Quiet (s : System) : Prop := ∀ thread, s.task thread = none

/-- The driver's functions are atomic: whatever the order of the steps, what can be seen and where
the files stand is as if each call did its work in one step, some time between its call and its
return. -/
theorem calls_atomic
    (run : Transition.execute (System.step seek) moves .initial = some (s, events)) :
    ∃ steps o shows, Transition.execute (AtomicSystem.step seek) steps .initial =
        some (o, shows) ∧ shows.reduceOption = events.reduceOption ∧ o.fpos = s.fpos ∧
      (∀ thread, o.progress thread = none ↔ s.task thread = none) ∧
      ∃ j, Models o.kernel j ∧ (s.kernel.dev.lock = false → Models s.kernel j) := by
  obtain ⟨steps, o, shows, atomic, same, j, assembling, simulates⟩ := System.simulated run
  refine ⟨steps, o, shows, atomic, same, simulates.fpos, ?_, j, simulates.models, ?_⟩
  · intro thread
    rw [simulates.progress, Option.map_eq_none_iff]
  intro unlocked
  cases simulates.coherent.device with
  | free models => exact models
  | held _ _ _ _ lock => exact Bool.noConfusion (unlocked.symm.trans lock)

/-- A write and a read of one file that overlap: both have their position before one takes the
lock. -/
def oneFile : List Move :=
  [.call 0 (.write 0 .success true (some [97, 10])), .call 1 (.read 0 .success true true 5),
    .step 0, .step 1] ++ List.replicate 8 (.step 0) ++ List.replicate 5 (.step 1)

theorem oneFile_runs : ∃ s events,
    Transition.execute (System.step fun _ _ _ _ => 0) oneFile .initial = some (s, events) := by
  have runs :
      (Transition.execute (System.step fun _ _ _ _ => 0) oneFile .initial).isSome = true := by
    decide +kernel
  obtain ⟨⟨s, events⟩, run⟩ := Option.isSome_iff_exists.mp runs
  exact ⟨s, events, run⟩

theorem calls_atomic_oneFile :
    ∃ s events, Transition.execute (System.step fun _ _ _ _ => 0) oneFile .initial =
        some (s, events) ∧
      ∃ steps o shows, Transition.execute (AtomicSystem.step fun _ _ _ _ => 0) steps .initial =
          some (o, shows) ∧ shows.reduceOption = events.reduceOption ∧ o.fpos = s.fpos ∧
        (∀ thread, o.progress thread = none ↔ s.task thread = none) ∧
        ∃ j, Models o.kernel j ∧ (s.kernel.dev.lock = false → Models s.kernel j) := by
  obtain ⟨s, events, run⟩ := oneFile_runs
  exact ⟨s, events, run, calls_atomic run⟩

end Atomicity

section Safety

/-- Calls share no memory but under the lock: no call is at fault, at most one is inside the
lock, and the block of each is allocated, its own, and no block of the device. -/
structure System.Safe (s : System) : Prop where
  fine : ∀ thread task, s.task thread = some task → task.place ≠ .faulted
  lock : s.kernel.dev.lock = true ↔
    ∃ thread task, s.task thread = some task ∧ task.place.inside = true
  alone : ∀ thread thread' task task', s.task thread = some task → s.task thread' = some task' →
    task.place.inside = true → task'.place.inside = true → thread = thread'
  allocated : ∀ thread task a, s.task thread = some task → task.place.own = some a →
    s.kernel.heap.block a ≠ none
  apart : ∀ thread thread' task task' a, s.task thread = some task → s.task thread' = some task' →
    task.place.own = some a → task'.place.own = some a → thread = thread'
  device : ∀ thread task a, s.task thread = some task → task.place.own = some a →
    ¬s.kernel.Uses false a

theorem Coherent.safe (coherent : Coherent seek s j assembling) : s.Safe where
  fine thread task here := by
    cases within : task.place.inside with
    | false => exact (coherent.guest thread task here within).fine
    | true =>
      intro same
      rw [same] at within
      cases within
  lock := coherent.device.lock
  alone thread thread' task task' here here' inside inside' := by
    obtain ⟨_, _, _, _, _, only⟩ := coherent.device.critical here' inside'
    exact only thread task here inside
  allocated thread task a here own := coherent.allocated here own
  apart := coherent.apart
  device thread task a here own uses := coherent.spared thread task a here own uses.weaken

/-- At every point of every run. -/
theorem calls_safe (seek : Int → Int → Int → Int → Int) (moves : List Move) :
    Transition.Throughout (System.step seek) moves .initial (fun s _ => s.Safe) := by
  intro n s events run
  obtain ⟨_, o, _, _, _, j, assembling, simulates⟩ := System.simulated run
  exact simulates.coherent.safe

end Safety

section Progress

def Place.remaining : Place → Nat
  | .enter => 9
  | .filling _ => 8
  | .waiting _ => 7
  | .locked _ => 6
  | .located .. | .reserved .. => 5
  | .appended .. => 4
  | .releasing .. => 3
  | .unlocking _ => 2
  | .returning _ => 1
  | .faulted => 0

def Task.remaining : Option Task → Nat
  | none => 0
  | some task => task.place.remaining

theorem Call.advance_remaining (advanced : c.advance seek fpos place k = some (k', place')) :
    place'.remaining < place.remaining := by
  cases c with
  | write file env filp buf =>
    simp only [Call.advance, aesdWriteStep] at advanced
    split at advanced
    · split at advanced
      · split at advanced <;> cases advanced <;> simp [Place.remaining]
      · split at advanced <;> obtain ⟨heap, _, same⟩ := Option.map_eq_some_iff.mp advanced <;>
          cases same <;> simp [Place.remaining]
      · simp only [Option.bind_eq_bind, Option.bind_eq_some_iff] at advanced
        obtain ⟨data, _, ⟨p, heap⟩, _, advanced⟩ := advanced
        cases p <;> cases advanced <;> simp [Place.remaining]
      · simp only [Option.bind_eq_bind, Option.bind_eq_some_iff, Option.some.injEq,
          Prod.mk.injEq] at advanced
        obtain ⟨source, _, heap, _, _, rfl⟩ := advanced
        simp [Place.remaining]
      · obtain ⟨kernel, _, same⟩ := Option.map_eq_some_iff.mp advanced
        cases same
        simp [Place.remaining]
      · obtain ⟨heap, _, same⟩ := Option.map_eq_some_iff.mp advanced
        cases same
        simp [Place.remaining]
      · contradiction
    · split at advanced
      · cases advanced
        simp [Place.remaining]
      · contradiction
  | read file env filp buf count =>
    simp only [Call.advance, aesdReadStep] at advanced
    split at advanced
    · cases advanced
      split <;> simp [Place.remaining]
    · split at advanced <;> cases advanced <;> simp [Place.remaining]
    · simp only [Option.bind_eq_bind, Option.bind_eq_some_iff, Option.some.injEq,
        Prod.mk.injEq] at advanced
      obtain ⟨bytes, _, _, rfl⟩ := advanced
      simp [Place.remaining]
    · contradiction
  | llseek file locked offset whence =>
    simp only [Call.advance, aesdLlseekStep] at advanced
    split at advanced
    · cases advanced
      decide
    · cases advanced
      simp [Place.remaining]
    · contradiction
  | ioctl file env cmd arg =>
    simp only [Call.advance, aesdIoctlStep] at advanced
    split at advanced
    · split at advanced
      · cases advanced
        simp [Place.remaining]
      · split at advanced
        · cases advanced
          split <;> simp [Place.remaining]
        · cases advanced
          simp [Place.remaining]
    · cases advanced
      simp [Place.remaining]
    · contradiction

theorem System.step_remaining (one : s.step seek (.step thread) = some (s', event)) (other : Nat) :
    if other = thread then Task.remaining (s'.task other) < Task.remaining (s.task other)
    else s'.task other = s.task other := by
  cases here : s.task thread with
  | none => simp [System.step, here] at one
  | some task =>
    have moved : ∀ place kernel, place.remaining < task.place.remaining →
        if other = thread then
          Task.remaining ((s.move thread task place kernel).task other) <
            Task.remaining (s.task other)
        else (s.move thread task place kernel).task other = s.task other := by
      intro place kernel less
      split
      · rename_i same
        subst same
        rw [System.move_here, here]
        exact less
      · exact System.move_other ‹_›
    simp only [System.step, here, Option.bind_eq_bind, Option.bind_some] at one
    cases place : task.place with
    | waiting p =>
      simp only [place] at one moved
      split at one
      · simp only [Option.bind_eq_some_iff, Option.some.injEq, Prod.mk.injEq] at one
        obtain ⟨dev, _, rfl, rfl⟩ := one
        exact moved _ _ (by simp [Place.remaining])
      · cases one
        exact moved _ _ (by simp [Place.remaining])
    | unlocking result =>
      simp only [place] at one moved
      cases one
      exact moved _ _ (by simp [Place.remaining])
    | returning result =>
      simp only [place] at one
      cases one
      split
      · rename_i same
        subst same
        simp [here, Task.remaining, place, Place.remaining]
      · simp [Function.update_of_ne ‹_›]
    | faulted => simp [place] at one
    | _ =>
      simp only [place] at one
      split at one
      · cases one
        exact moved _ _ (by rw [place]; simp [Place.remaining])
      · cases one
        exact moved _ _ (by rw [place]; exact Call.advance_remaining ‹_›)

def Move.stepsOf (thread : Nat) : Move → Bool
  | .step other => decide (other = thread)
  | .call .. => false

def Move.callsOf (thread : Nat) : Move → Bool
  | .call other _ => decide (other = thread)
  | .step _ => false

@[simp] theorem Move.stepsOf_call (other : Nat) : (Move.call other c).stepsOf thread = false := rfl

@[simp] theorem Move.stepsOf_step (other : Nat) :
    (Move.step other).stepsOf thread = decide (other = thread) := rfl

@[simp] theorem Move.callsOf_call (other : Nat) :
    (Move.call other c).callsOf thread = decide (other = thread) := rfl

@[simp] theorem Move.callsOf_step (other : Nat) : (Move.step other).callsOf thread = false := rfl

/-- No call makes more than nine steps. -/
theorem System.steps_bounded
    (run : Transition.execute (System.step seek) moves s = some (s', events))
    (thread : Nat) :
    moves.countP (·.stepsOf thread) + Task.remaining (s'.task thread) ≤
      9 * moves.countP (·.callsOf thread) + Task.remaining (s.task thread) := by
  induction moves generalizing s events with
  | nil =>
    simp only [Transition.execute_nil, Option.some.injEq, Prod.mk.injEq] at run
    simp [run.1]
  | cons move rest ih =>
    obtain ⟨next, event, later, one, tail, _⟩ := Transition.execute_cons_iff.mp run
    have rest := ih tail
    cases move with
    | call caller c =>
      simp only [System.step] at one
      split at one
      · rename_i idle
        cases one
        by_cases same : caller = thread
        · subst same
          have begun : Task.remaining (some ⟨c, s.fpos c.file, .enter⟩) = 9 := rfl
          have before : Task.remaining (s.task caller) = 0 := by
            rw [idle]
            rfl
          simp only [Function.update_self, begun] at rest
          simp only [List.countP_cons, Move.stepsOf_call, Move.callsOf_call, before, decide_true,
            if_true, Bool.false_eq_true, if_false, Nat.add_zero]
          omega
        · simp only [Function.update_of_ne (Ne.symm same)] at rest
          simpa [List.countP_cons, same] using rest
      · contradiction
    | step other =>
      have less := System.step_remaining one thread
      by_cases same : thread = other
      · subst same
        rw [if_pos rfl] at less
        simp only [List.countP_cons, Move.stepsOf_step, Move.callsOf_step, decide_true, if_true,
          Bool.false_eq_true, if_false, Nat.add_zero]
        omega
      · rw [if_neg same] at less
        rw [less] at rest
        simpa [List.countP_cons, Ne.symm same] using rest

/-- While a call runs, some call has a step: the one inside the lock, or else any. -/
theorem Coherent.goes_on (coherent : Coherent seek s j assembling)
    (here : s.task thread = some task) :
    ∃ other s' event, s.step seek (.step other) = some (s', event) := by
  rcases coherent.step_cases here with ⟨p, _, _, result⟩ | ⟨s', event, result, _⟩
  · cases taken : s.kernel.dev.lock with
    | false =>
      rw [mutexLock, if_neg (by simp [taken]), Option.map_some] at result
      exact ⟨thread, _, _, result⟩
    | true =>
      obtain ⟨holder, task', there, inside⟩ := coherent.device.lock.mp taken
      rcases coherent.step_cases there with ⟨p', waits, _, _⟩ | ⟨s', event, result', _⟩
      · rw [waits] at inside
        cases inside
      · exact ⟨holder, s', event, result'⟩
  · exact ⟨thread, s', event, result⟩

theorem Task.remaining_le (task : Option Task) : Task.remaining task ≤ 9 := by
  cases task with
  | none => exact Nat.zero_le 9
  | some task =>
    rw [Task.remaining]
    cases task.place <;> simp [Place.remaining]

/-- Every call returns: in any run each call makes at most nine steps, all that its thread makes
before it calls again, and until all calls have returned some call has a next one. -/
theorem calls_return
    (run : Transition.execute (System.step seek) moves .initial = some (s, events)) :
    (∀ thread, moves.countP (·.stepsOf thread) ≤ 9 * moves.countP (·.callsOf thread)) ∧
      (∀ thread before during after, moves = before ++ during ++ after →
        during.countP (·.callsOf thread) = 0 → during.countP (·.stepsOf thread) ≤ 9) ∧
      (s.Quiet ∨ ∃ thread s' event, s.step seek (.step thread) = some (s', event)) := by
  obtain ⟨_, o, _, _, _, j, assembling, simulates⟩ := System.simulated run
  refine ⟨fun thread => ?_, fun thread before during after split none => ?_, ?_⟩
  · have bounded := System.steps_bounded run thread
    simp only [System.initial, Task.remaining] at bounded
    omega
  · rw [split, List.append_assoc] at run
    obtain ⟨first, _, _, _, rest, _⟩ := Transition.execute_append_iff.mp run
    obtain ⟨last, _, _, middle, _, _⟩ := Transition.execute_append_iff.mp rest
    have bounded := System.steps_bounded middle thread
    have most := Task.remaining_le (first.task thread)
    rw [none] at bounded
    omega
  · by_cases quiet : s.Quiet
    · exact .inl quiet
    · simp only [System.Quiet, not_forall, Option.ne_none_iff_exists'] at quiet
      obtain ⟨thread, task, here⟩ := quiet
      exact .inr (simulates.coherent.goes_on here)

theorem calls_return_oneFile :
    ∃ s events, Transition.execute (System.step fun _ _ _ _ => 0) oneFile .initial =
        some (s, events) ∧
      (∀ thread, oneFile.countP (·.stepsOf thread) ≤ 9 * oneFile.countP (·.callsOf thread)) ∧
        (∀ thread before during after, oneFile = before ++ during ++ after →
          during.countP (·.callsOf thread) = 0 → during.countP (·.stepsOf thread) ≤ 9) ∧
        (s.Quiet ∨ ∃ thread s' event,
          s.step (fun _ _ _ _ => 0) (.step thread) = some (s', event)) := by
  obtain ⟨s, events, run⟩ := oneFile_runs
  exact ⟨s, events, run, calls_return run⟩

end Progress

end Aesd
