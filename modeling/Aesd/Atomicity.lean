import Aesd.CallSteps

/-! Calls that run at once take effect one after the other: the lock makes each of the driver's
functions look like one step, somewhere between its call and its return. -/
namespace Aesd

open Linearization (Event)

variable {s s' : System} {o o' : AtomicSystem} {j j' : Journal} {assembling assembling' : Bool}
  {c : Call} {place place' : Place} {kernel kernel' : Kernel} {task : Task} {thread : Nat}
  {seek : Int → Int → Int → Int → Int} {result : Result}

def Place.outcome (c : Call) : Place → Option Result
  | .returning result => some result
  | .unlocking result => if c.seeks then some result else none
  | _ => none

def Task.progress (task : Task) : Progress :=
  match task.place.outcome task.call with
  | none => .begun task.call task.copy
  | some result => .done task.call result

/-- Either nobody is inside the lock, or the one call that is brings the device closer to the
next journal. -/
inductive Device (seek : Int → Int → Int → Int → Int) (s : System) (j : Journal) : Bool → Prop
  | free (models : Models s.kernel j)
      (outside : ∀ thread task, s.task thread = some task → task.place.inside = false) :
      Device seek s j false
  | held (thread : Nat) (task : Task) (fpos : Int) (here : s.task thread = some task)
      (lock : s.kernel.dev.lock = true) (copied : task.call.seeks = false → fpos = task.copy)
      (critical : Critical seek j fpos s.kernel task.call task.place)
      (only : ∀ other task, s.task other = some task → task.place.inside = true →
        other = thread) :
      Device seek s j task.place.assembling

/-- The running calls bring the device from journal to journal, and do not touch each other's
blocks. -/
structure Coherent (seek : Int → Int → Int → Int → Int) (s : System) (j : Journal)
    (assembling : Bool) : Prop where
  device : Device seek s j assembling
  guest : ∀ thread task, s.task thread = some task → task.place.inside = false →
    Guest s.kernel.heap task.call task.place
  apart : ∀ thread thread' task task' a, s.task thread = some task → s.task thread' = some task' →
    task.place.own = some a → task'.place.own = some a → thread = thread'
  spared : ∀ thread task a, s.task thread = some task → task.place.own = some a →
    ¬s.kernel.Uses assembling a

/-- The running calls and the device represent the driver with functions of one step. -/
structure Simulates (seek : Int → Int → Int → Int → Int) (s : System) (o : AtomicSystem)
    (j : Journal) (assembling : Bool) : Prop where
  coherent : Coherent seek s j assembling
  models : Models o.kernel j
  fpos : o.fpos = s.fpos
  progress : ∀ thread, o.progress thread = (s.task thread).map Task.progress

theorem System.initial_simulates :
    Simulates seek System.initial AtomicSystem.initial .empty false where
  coherent := {
    device := .free aesdInitModule_models fun _ _ here => by cases here
    guest _ _ here := by cases here
    apart _ _ _ _ _ here := by cases here
    spared _ _ _ here := by cases here }
  models := aesdInitModule_models
  fpos := rfl
  progress _ := rfl

section Tasks

theorem update_cases {A : Type*} {values : Nat → Option A} {new : Option A} {other : Nat}
    {value : A} (given : Function.update values thread new other = some value) :
    (other = thread ∧ new = some value) ∨ (other ≠ thread ∧ values other = some value) := by
  by_cases same : other = thread
  · subst same
    rw [Function.update_self] at given
    exact .inl ⟨rfl, given⟩
  · rw [Function.update_of_ne same] at given
    exact .inr ⟨same, given⟩

theorem System.move_cases {other : Nat} {task' : Task}
    (given : (s.move thread task place kernel).task other = some task') :
    (other = thread ∧ task' = { task with place }) ∨
      (other ≠ thread ∧ s.task other = some task') := by
  rcases update_cases given with ⟨same, new⟩ | there
  · exact .inl ⟨same, (Option.some.inj new).symm⟩
  · exact .inr there

theorem System.move_here :
    (s.move thread task place kernel).task thread = some { task with place } :=
  Function.update_self ..

theorem System.move_other {other : Nat} (different : other ≠ thread) :
    (s.move thread task place kernel).task other = s.task other :=
  Function.update_of_ne different ..

theorem setFpos_eq_self {fpos : Nat → Int} {p : Int} (same : p = fpos file) :
    setFpos fpos file p = fpos := by
  funext other
  simp only [setFpos]
  split
  · rename_i equal
    rw [equal]
    exact same
  · rfl

/-- Only a seek stores a position while it runs. -/
theorem System.move_fpos (early : place.outcome task.call = none) :
    (s.move thread task place kernel).fpos = s.fpos := by
  cases place with
  | unlocking result =>
    cases seeks : task.call.seeks with
    | false => simp only [move, seeks, Bool.false_eq_true, if_false]
    | true => simp [Place.outcome, seeks] at early
  | _ => rfl

theorem Task.progress_begun (early : task.place.outcome task.call = none) :
    task.progress = .begun task.call task.copy := by
  rw [progress, early]

theorem Task.progress_done (late : task.place.outcome task.call = some result) :
    task.progress = .done task.call result := by
  rw [progress, late]

theorem Place.outcome_inside (inside : place.inside = true)
    (early : ∀ result, place ≠ .unlocking result) : place.outcome c = none := by
  cases place with
  | unlocking result => exact absurd rfl (early result)
  | returning result => cases inside
  | _ => rfl

theorem Place.outcome_outside (outside : place.inside = false)
    (early : ∀ result, place ≠ .returning result) : place.outcome c = none := by
  cases place with
  | unlocking result => cases outside
  | returning result => exact absurd rfl (early result)
  | _ => rfl

end Tasks

section Memory

theorem Device.uses_allocated (device : Device seek s j assembling)
    (uses : s.kernel.Uses assembling a) : s.kernel.heap.block a ≠ none := by
  cases device with
  | free models => exact models.uses_allocated uses
  | held thread task fpos here lock copied critical => exact critical.uses_allocated uses

/-- The lock is taken exactly while a call is inside it. -/
theorem Device.lock (device : Device seek s j assembling) :
    s.kernel.dev.lock = true ↔
      ∃ thread task, s.task thread = some task ∧ task.place.inside = true := by
  cases device with
  | free models outside =>
    simp only [models.free, Bool.false_eq_true, false_iff]
    rintro ⟨thread, task, here, inside⟩
    exact Bool.noConfusion ((outside thread task here).symm.trans inside)
  | held thread task fpos here lock copied critical =>
    exact iff_of_true lock ⟨thread, task, here, critical.inside⟩

theorem Device.critical (device : Device seek s j assembling) (here : s.task thread = some task)
    (inside : task.place.inside = true) :
    ∃ fpos, (task.call.seeks = false → fpos = task.copy) ∧
      Critical seek j fpos s.kernel task.call task.place ∧
      assembling = task.place.assembling ∧ s.kernel.dev.lock = true ∧
      ∀ other task, s.task other = some task → task.place.inside = true → other = thread := by
  cases device with
  | free models outside => exact Bool.noConfusion ((outside thread task here).symm.trans inside)
  | held holder task' fpos here' lock copied critical only =>
    obtain rfl := only thread task here inside
    rw [here, Option.some.injEq] at here'
    subst here'
    exact ⟨fpos, copied, critical, rfl, lock, only⟩

theorem Coherent.allocated (coherent : Coherent seek s j assembling)
    (here : s.task thread = some task) (own : task.place.own = some a) : s.kernel.heap.block a ≠ none := by
  cases inside : task.place.inside with
  | false => exact (coherent.guest thread task here inside).allocated own
  | true =>
    obtain ⟨_, _, critical, _⟩ := coherent.device.critical here inside
    exact critical.allocated own

/-- The effect of one call's move on everything else: blocks that are neither its own nor the
device's are unchanged, and a new block of its own was free. -/
structure Gentle (kernel : Kernel) (assembling : Bool) (place : Place) (kernel' : Kernel)
    (assembling' : Bool) (place' : Place) : Prop where
  spares : ∀ b, kernel.heap.block b ≠ none → ¬kernel.Uses assembling b → place.own ≠ some b →
    kernel'.heap.block b = kernel.heap.block b ∧ ¬kernel'.Uses assembling' b
  own : ∀ b, place'.own = some b → (place.own = some b ∨ kernel.heap.block b = none) ∧
    ¬kernel'.Uses assembling' b

theorem Coherent.others (coherent : Coherent seek s j assembling) (here : s.task thread = some task)
    (gentle : Gentle s.kernel assembling task.place kernel' assembling' place')
    (there : s.task other = some task') (different : other ≠ thread)
    (own : task'.place.own = some a) :
    kernel'.heap.block a = s.kernel.heap.block a ∧ ¬kernel'.Uses assembling' a := by
  apply gentle.spares a (coherent.allocated there own) (coherent.spared other task' a there own)
  exact fun mine => different (coherent.apart other thread task' task a there here own mine)

theorem Coherent.move (coherent : Coherent seek s j assembling) (here : s.task thread = some task)
    (gentle : Gentle s.kernel assembling task.place kernel' assembling' place')
    (guest : place'.inside = false → Guest kernel'.heap task.call place')
    (device : Device seek (s.move thread task place' kernel') j' assembling') :
    Coherent seek (s.move thread task place' kernel') j' assembling' where
  device := device
  guest other task' given outside := by
    rcases System.move_cases given with ⟨rfl, rfl⟩ | ⟨different, there⟩
    · exact guest outside
    · apply (coherent.guest other task' there outside).frame
      exact fun a own => (coherent.others here gentle there different own).1
  apart first second task₁ task₂ a given₁ given₂ own₁ own₂ := by
    have fresh : ∀ other task', s.task other = some task' → other ≠ thread →
        task'.place.own = some a → place'.own = some a → False := by
      intro other task' there different own mine
      rcases (gentle.own a mine).1 with kept | free
      · exact different (coherent.apart other thread task' task a there here own kept)
      · exact coherent.allocated there own free
    rcases System.move_cases given₁ with ⟨rfl, rfl⟩ | ⟨different₁, there₁⟩
    · rcases System.move_cases given₂ with ⟨rfl, rfl⟩ | ⟨different₂, there₂⟩
      · rfl
      · exact (fresh second task₂ there₂ different₂ own₂ own₁).elim
    · rcases System.move_cases given₂ with ⟨rfl, rfl⟩ | ⟨different₂, there₂⟩
      · exact (fresh first task₁ there₁ different₁ own₁ own₂).elim
      · exact coherent.apart first second task₁ task₂ a there₁ there₂ own₁ own₂
  spared other task' a given own := by
    rcases System.move_cases given with ⟨rfl, rfl⟩ | ⟨different, there⟩
    · exact (gentle.own a own).2
    · exact (coherent.others here gentle there different own).2

theorem Guest.outside {h : Heap} (guest : Guest h c place) : place.inside = false := by
  cases guest <;> rfl

theorem Guest.fine {h : Heap} (guest : Guest h c place) : place ≠ .faulted := by
  cases guest <;> simp

theorem Coherent.device_outside (coherent : Coherent seek s j assembling)
    (here : s.task thread = some task) (outside : task.place.inside = false) (outside' : place'.inside = false)
    (dev : kernel'.dev = s.kernel.dev)
    (same : ∀ b, s.kernel.heap.block b ≠ none → task.place.own ≠ some b →
      kernel'.heap.block b = s.kernel.heap.block b) :
    Device seek (s.move thread task place' kernel') j assembling := by
  have used : ∀ b, s.kernel.Uses assembling b → kernel'.heap.block b = s.kernel.heap.block b := by
    intro b uses
    apply same b (coherent.device.uses_allocated uses)
    exact fun own => coherent.spared thread task b here own uses
  obtain ⟨heap, dev'⟩ := kernel'
  simp only at dev used same
  subst dev
  cases coherent.device with
  | free models others =>
    refine .free (models.frame_used used) ?_
    intro other task' given
    rcases System.move_cases given with ⟨rfl, rfl⟩ | ⟨_, there⟩
    · exact outside'
    · exact others other task' there
  | held holder task' fpos here' lock copied critical only =>
    have different : holder ≠ thread := by
      rintro rfl
      rw [here, Option.some.injEq] at here'
      subst here'
      exact Bool.noConfusion (outside.symm.trans critical.inside)
    refine .held holder task' fpos ?_ lock copied ?_ ?_
    · rw [System.move_other different]
      exact here'
    · apply critical.frame used
      intro a own
      apply same a (critical.allocated own)
      exact fun mine => different (coherent.apart holder thread task' task a here' here own mine)
    · intro other task'' given inside
      rcases System.move_cases given with ⟨rfl, rfl⟩ | ⟨_, there⟩
      · exact Bool.noConfusion (outside'.symm.trans inside)
      · exact only other task'' there inside

/-- A call begins or ends outside the lock and without a block of its own. -/
theorem Coherent.exchange (coherent : Coherent seek s j assembling) {new : Option Task}
    {fpos : Nat → Int}
    (old : ∀ task, s.task thread = some task → task.place.inside = false)
    (fresh : ∀ task, new = some task → task.place = .enter) :
    Coherent seek ⟨s.kernel, fpos, Function.update s.task thread new⟩ j assembling where
  device := by
    cases coherent.device with
    | free models others =>
      refine .free models ?_
      intro other task' given
      rcases update_cases given with ⟨rfl, begun⟩ | ⟨_, there⟩
      · rw [fresh task' begun]
        rfl
      · exact others other task' there
    | held holder task' position here' lock copied critical only =>
      have different : holder ≠ thread := by
        rintro rfl
        exact Bool.noConfusion ((old task' here').symm.trans critical.inside)
      refine .held holder task' position ?_ lock copied critical ?_
      · simp only [Function.update_of_ne different]
        exact here'
      · intro other task'' given inside
        rcases update_cases given with ⟨rfl, begun⟩ | ⟨_, there⟩
        · rw [fresh task'' begun] at inside
          cases inside
        · exact only other task'' there inside
  guest other task' given outside := by
    rcases update_cases given with ⟨rfl, begun⟩ | ⟨_, there⟩
    · rw [fresh task' begun]
      exact .enter _
    · exact coherent.guest other task' there outside
  apart first second task₁ task₂ a given₁ given₂ own₁ own₂ := by
    rcases update_cases given₁ with ⟨rfl, begun⟩ | ⟨_, there₁⟩
    · rw [fresh task₁ begun] at own₁
      cases own₁
    · rcases update_cases given₂ with ⟨rfl, begun⟩ | ⟨_, there₂⟩
      · rw [fresh task₂ begun] at own₂
        cases own₂
      · exact coherent.apart first second task₁ task₂ a there₁ there₂ own₁ own₂
  spared other task' a given own := by
    rcases update_cases given with ⟨rfl, begun⟩ | ⟨_, there⟩
    · rw [fresh task' begun] at own
      cases own
    · exact coherent.spared other task' a there own

end Memory

section Moves

def Matched (seek : Int → Int → Int → Int → Int) (o : AtomicSystem) (s' : System)
    (event : Option (Event Nat Call Reply)) : Prop :=
  ∃ moves o' shows, Transition.execute (AtomicSystem.step seek) moves o = some (o', shows) ∧
    shows.filterMap id = event.toList ∧ ∃ j assembling, Simulates seek s' o' j assembling

theorem Matched.step {move : AtomicMove} {event : Option (Event Nat Call Reply)}
    (one : AtomicSystem.step seek move o = some (o', event))
    (after : Simulates seek s' o' j assembling) : Matched seek o s' event := by
  refine ⟨[move], o', [event], Transition.execute_singleton.mpr ⟨_, one, rfl⟩, ?_, j, assembling,
    after⟩
  cases event <;> rfl

theorem Simulates.silent (simulates : Simulates seek s o j assembling)
    (here : s.task thread = some task) (early : task.place.outcome task.call = none)
    (early' : place'.outcome task.call = none)
    (coherent : Coherent seek (s.move thread task place' kernel') j assembling') :
    Matched seek o (s.move thread task place' kernel') none := by
  refine ⟨[], o, [], rfl, rfl, j, assembling', coherent, simulates.models, ?_, ?_⟩
  · rw [System.move_fpos early']
    exact simulates.fpos
  · intro other
    rw [simulates.progress other]
    by_cases same : other = thread
    · subst same
      have begun : Task.progress { task with place := place' } = .begun task.call task.copy :=
        Task.progress_begun early'
      rw [here, System.move_here, Option.map_some, Option.map_some, Task.progress_begun early,
        begun]
    · rw [System.move_other same]

theorem Simulates.effect (simulates : Simulates seek s o j assembling)
    (here : s.task thread = some task) (early : task.place.outcome task.call = none)
    (late : place'.outcome task.call = some result)
    (kept : ∀ result, place' = .returning result → task.call.seeks = true →
      result.fpos = s.fpos task.call.file)
    (yields : j.Yields seek task.call (task.call.position s.fpos task.copy) result j')
    (coherent : Coherent seek (s.move thread task place' kernel') j' assembling') :
    Matched seek o (s.move thread task place' kernel') none := by
  have begun : o.progress thread = some (.begun task.call task.copy) := by
    rw [simulates.progress, here, Option.map_some, Task.progress_begun early]
  obtain ⟨r, operated, refines⟩ :=
    operate_refines simulates.models seek task.call (task.call.position o.fpos task.copy)
  rw [Journal.Yields] at yields
  rw [simulates.fpos, yields] at refines
  have same : (⟨r.ret, r.fpos, r.delivered⟩ : Result) = result := by
    rw [refines.ret, refines.fpos, refines.delivered]
  have one : AtomicSystem.step seek (.operate thread) o = some
      ({ kernel := r.kernel
         fpos := if task.call.seeks then setFpos o.fpos task.call.file r.fpos else o.fpos
         progress := Function.update o.progress thread (some (.done task.call result)) },
        none) := by
    simp only [AtomicSystem.step, begun, operated, Option.map_some, same]
  apply Matched.step one
  refine ⟨coherent, refines.models, ?_, ?_⟩
  · have stored : r.fpos = result.fpos := refines.fpos
    rw [simulates.fpos, stored]
    cases place' with
    | returning final =>
      cases late
      cases seeks : task.call.seeks with
      | false => simp only [System.move, Bool.false_eq_true, if_false]
      | true =>
        exact setFpos_eq_self (kept _ rfl seeks)
    | unlocking final =>
      cases seeks : task.call.seeks with
      | false => simp [Place.outcome, seeks] at late
      | true =>
        simp only [Place.outcome, seeks, if_true, Option.some.injEq] at late
        simp only [System.move, seeks, if_true, late]
    | _ => cases late
  · intro other
    by_cases same : other = thread
    · subst same
      have done : Task.progress { task with place := place' } = .done task.call result :=
        Task.progress_done late
      rw [System.move_here, Option.map_some, done]
      exact Function.update_self ..
    · rw [System.move_other same]
      simp only [Function.update_of_ne same]
      exact simulates.progress other

theorem Simulates.detached (simulates : Simulates seek s o j assembling)
    (here : s.task thread = some task) (early : ∀ result, task.place ≠ .returning result)
    (outside : task.place.inside = false)
    (detached : Detached seek (task.call.position s.fpos task.copy) task.call s.kernel task.place
      kernel' place') :
    Matched seek o (s.move thread task place' kernel') none := by
  have coherent := simulates.coherent
  have outside' := detached.guest.outside
  have device := coherent.device_outside here outside outside' detached.dev detached.same
  have gentle : Gentle s.kernel assembling task.place kernel' assembling place' := by
    have kept : ∀ b, kernel'.Uses assembling b ↔ s.kernel.Uses assembling b := by
      intro b
      unfold Kernel.Uses
      rw [detached.dev]
    constructor
    · intro b allocated apart other
      exact ⟨detached.same b allocated other, fun uses => apart ((kept b).mp uses)⟩
    · intro b own
      refine ⟨detached.own b own, fun uses => ?_⟩
      rcases detached.own b own with mine | free
      · exact coherent.spared thread task b here mine ((kept b).mp uses)
      · exact coherent.device.uses_allocated ((kept b).mp uses) free
  have moved := coherent.move here gentle (fun _ => detached.guest) device
  have before : task.place.outcome task.call = none := Place.outcome_outside outside early
  by_cases returns : ∃ result, place' = .returning result
  · obtain ⟨result, rfl⟩ := returns
    apply simulates.effect here before rfl ?_ (detached.yields result rfl j) moved
    rintro final ⟨⟩ seeks
    rw [seek_returning seeks detached.step, Call.position, if_pos seeks]
  · exact simulates.silent here before
      (Place.outcome_outside outside' fun result same => returns ⟨result, same⟩) moved

/-- A signal ends the wait for the lock. The private block stays allocated, and nobody's. -/
theorem Simulates.interrupted (simulates : Simulates seek s o j assembling)
    (here : s.task thread = some task) (waits : task.place = .waiting p)
    (signal : ¬task.call.locked = true) :
    Matched seek o (s.move thread task
      (.returning ⟨-erestartsys, task.call.position s.fpos task.copy, []⟩) s.kernel) none := by
  have outside : task.place.inside = false := by rw [waits]; rfl
  have guest := simulates.coherent.guest thread task here outside
  rw [waits] at guest
  have device : Device seek (s.move thread task
      (.returning ⟨-erestartsys, task.call.position s.fpos task.copy, []⟩) s.kernel) j assembling :=
    simulates.coherent.device_outside here outside rfl rfl fun _ _ _ => rfl
  apply simulates.effect here (by rw [waits]; rfl) rfl ?_ (guest.interrupted signal _ _)
  · apply simulates.coherent.move here ?_ (fun _ => .returning _ _) device
    exact ⟨fun _ _ apart _ => ⟨rfl, apart⟩, fun _ own => by cases own⟩
  · rintro final ⟨⟩ seeks
    exact if_pos seeks

/-- Taking the lock: the device is as it is between calls. -/
theorem Simulates.lock (simulates : Simulates seek s o j assembling)
    (here : s.task thread = some task) (waits : task.place = .waiting p)
    (granted : task.call.locked = true) (free : s.kernel.dev.lock = false) :
    Matched seek o (s.move thread task (.locked p)
      { s.kernel with dev := { s.kernel.dev with lock := true } }) none := by
  have outside : task.place.inside = false := by rw [waits]; rfl
  have guest := simulates.coherent.guest thread task here outside
  have spared := simulates.coherent.spared thread task
  rw [waits] at guest
  cases simulates.coherent.device with
  | held _ _ _ _ lock => exact Bool.noConfusion (free.symm.trans lock)
  | free models others =>
    have relocked : Models (Kernel.unlocked
        { s.kernel with dev := { s.kernel.dev with lock := true } }) j := by
      rw [Kernel.unlocked, models.relock]
      exact models
    have moved : Coherent seek (s.move thread task (.locked p)
        { s.kernel with dev := { s.kernel.dev with lock := true } }) j false := by
      apply simulates.coherent.move here
      · refine ⟨fun _ _ apart _ => ⟨rfl, apart⟩, fun b own => ⟨.inl ?_, ?_⟩⟩
        · rw [waits]
          exact own
        · exact spared b here (by rw [waits]; exact own)
      · intro inside
        cases inside
      · refine .held thread { task with place := .locked p } task.copy System.move_here rfl
          (fun _ => rfl) (.locked _ _ relocked guest granted) ?_
        intro other task' given inside
        rcases System.move_cases given with ⟨rfl, rfl⟩ | ⟨_, there⟩
        · rfl
        · exact Bool.noConfusion ((others other task' there).symm.trans inside)
    exact simulates.silent here (by rw [waits]; rfl) rfl moved

/-- A step inside the lock. A seek stores the position in it and so takes effect. -/
theorem Simulates.passage (simulates : Simulates seek s o j assembling)
    (here : s.task thread = some task) (inside : task.place.inside = true)
    (early : ∀ result, task.place ≠ .unlocking result)
    (passage : Passage seek j (task.call.position s.fpos task.copy) task.call s.kernel task.place
      kernel' place') :
    Matched seek o (s.move thread task place' kernel') none := by
  obtain ⟨fpos, copied, critical, rfl, lock, only⟩ := simulates.coherent.device.critical here inside
  have inside' := passage.critical.inside
  have before : task.place.outcome task.call = none := Place.outcome_inside inside early
  have moved : Coherent seek (s.move thread task place' kernel') j place'.assembling := by
    apply simulates.coherent.move here
    · exact ⟨passage.spares, fun b own => ⟨.inl (passage.own b own).1, (passage.own b own).2⟩⟩
    · intro outside
      exact Bool.noConfusion (outside.symm.trans inside')
    · refine .held thread { task with place := place' } _ System.move_here
        (passage.lock.trans lock) ?_ passage.critical ?_
      · intro copies
        exact if_neg (by simp [copies])
      · intro other task' given within
        rcases System.move_cases given with ⟨rfl, rfl⟩ | ⟨_, there⟩
        · rfl
        · exact only other task' there within
  cases seeks : task.call.seeks with
  | false =>
    apply simulates.silent here before ?_ moved
    cases place' with
    | unlocking result => simp only [Place.outcome, seeks, Bool.false_eq_true, if_false]
    | returning result => cases inside'
    | _ => rfl
  | true =>
    obtain ⟨result, rfl⟩ := seek_inside seeks inside passage.step
    have late : (Place.unlocking result).outcome task.call = some result := by
      simp only [Place.outcome, seeks, if_true]
    have yields : j.Yields seek task.call (task.call.position s.fpos task.copy) result j := by
      have after := passage.critical
      generalize call : task.call = c at after seeks
      cases after with
      | unlocking c result j' models yields =>
        obtain rfl := yields.seek_same seeks
        exact yields
    apply simulates.effect here before late ?_ yields moved
    intro final same
    cases same

/-- Giving back the lock is the moment in which another call takes effect. -/
theorem Simulates.unlock (simulates : Simulates seek s o j assembling)
    (here : s.task thread = some task) (unlocks : task.place = .unlocking result) :
    Matched seek o (s.move thread task (.returning result) s.kernel.unlocked) none := by
  have inside : task.place.inside = true := by rw [unlocks]; rfl
  obtain ⟨fpos, copied, critical, rfl, lock, only⟩ := simulates.coherent.device.critical here inside
  have outside : ∀ other task',
      (s.move thread task (.returning result) s.kernel.unlocked).task other = some task' →
      task'.place.inside = false := by
    intro other task' given
    rcases System.move_cases given with ⟨rfl, rfl⟩ | ⟨different, there⟩
    · rfl
    · rw [Bool.eq_false_iff]
      exact fun within => different (only other task' there within)
  have gentle : Gentle s.kernel task.place.assembling task.place s.kernel.unlocked false
      (.returning result) :=
    ⟨fun b _ apart _ => ⟨rfl, fun uses => apart uses.weaken⟩, fun _ own => by cases own⟩
  have moved : ∀ j', Models s.kernel.unlocked j' →
      Coherent seek (s.move thread task (.returning result) s.kernel.unlocked) j' false :=
    fun j' models => simulates.coherent.move here gentle (fun _ => .returning _ _)
      (.free models outside)
  rw [unlocks] at critical
  cases seeks : task.call.seeks with
  | false =>
    generalize call : task.call = c at critical
    cases critical with
    | unlocking c result j' models yields =>
      subst call
      apply simulates.effect here ?_ rfl ?_ ?_ (moved j' models)
      · simp only [unlocks, Place.outcome, seeks, Bool.false_eq_true, if_false]
      · intro final _ seeks'
        exact Bool.noConfusion (seeks.symm.trans seeks')
      · rw [Call.position, if_neg (by simp [seeks]), ← copied seeks]
        exact yields
  | true =>
    have models : Models s.kernel.unlocked j := by
      generalize call : task.call = c at critical
      cases critical with
      | unlocking c result j' models yields =>
        obtain rfl := yields.seek_same (call ▸ seeks)
        exact models
    -- the seek took effect in the step before
    refine ⟨[], o, [], rfl, rfl, j, false, moved j models, simulates.models, ?_, ?_⟩
    · simp only [System.move]
      exact simulates.fpos
    · intro other
      rw [simulates.progress other]
      by_cases same : other = thread
      · subst same
        have late : task.place.outcome task.call = some result := by
          simp only [unlocks, Place.outcome, seeks, if_true]
        rw [here, System.move_here, Option.map_some, Option.map_some, Task.progress_done late]
        rfl
      · rw [System.move_other same]

theorem Simulates.call (simulates : Simulates seek s o j assembling) (idle : s.task thread = none)
    (c : Call) :
    Matched seek o
      { s with task := Function.update s.task thread (some ⟨c, s.fpos c.file, .enter⟩) }
      (some (.call thread c)) := by
  have idle' : o.progress thread = none := by
    rw [simulates.progress, idle, Option.map_none]
  have one : AtomicSystem.step seek (.call thread c) o = some ({ o with
      progress := Function.update o.progress thread (some (.begun c (o.fpos c.file))) },
      some (.call thread c)) := by
    simp only [AtomicSystem.step, idle']
  have coherent : Coherent seek
      { s with task := Function.update s.task thread (some ⟨c, s.fpos c.file, .enter⟩) } j
      assembling := by
    apply simulates.coherent.exchange
    · intro task here
      rw [idle] at here
      cases here
    · rintro task ⟨⟩
      rfl
  refine Matched.step one ⟨coherent, simulates.models, simulates.fpos, ?_⟩
  intro other
  by_cases same : other = thread
  · subst same
    simp only [Function.update_self, simulates.fpos]
    rfl
  · simp only [Function.update_of_ne same]
    exact simulates.progress other

theorem Simulates.returns (simulates : Simulates seek s o j assembling)
    (here : s.task thread = some task) (back : task.place = .returning result) :
    Matched seek o { s with
      fpos := task.call.storeBack result s.fpos
      task := Function.update s.task thread none }
      (some (.ret thread ⟨result.ret, result.delivered⟩)) := by
  have late : task.place.outcome task.call = some result := by rw [back]; rfl
  have done : o.progress thread = some (.done task.call result) := by
    rw [simulates.progress, here, Option.map_some, Task.progress_done late]
  have one : AtomicSystem.step seek (.ret thread) o = some ({ o with
      fpos := task.call.storeBack result o.fpos
      progress := Function.update o.progress thread none },
      some (.ret thread ⟨result.ret, result.delivered⟩)) := by
    simp only [AtomicSystem.step, done]
  have coherent : Coherent seek { s with
      fpos := task.call.storeBack result s.fpos
      task := Function.update s.task thread none } j assembling := by
    apply simulates.coherent.exchange
    · intro task' here'
      rw [here, Option.some.injEq] at here'
      rw [← here', back]
      rfl
    · intro task begun
      cases begun
  refine Matched.step one ⟨coherent, simulates.models, ?_, ?_⟩
  · simp only [simulates.fpos]
  · intro other
    by_cases same : other = thread
    · subst same
      simp only [Function.update_self, Option.map_none]
    · simp only [Function.update_of_ne same]
      exact simulates.progress other

end Moves

section Steps

inductive Stepped (seek : Int → Int → Int → Int → Int) (j : Journal) (s : System) (thread : Nat)
    (task : Task) : System → Option (Event Nat Call Reply) → Prop
  | detached (kernel : Kernel) (place : Place) (early : ∀ result, task.place ≠ .returning result)
      (outside : task.place.inside = false)
      (detached : Detached seek (task.call.position s.fpos task.copy) task.call s.kernel task.place
        kernel place) :
      Stepped seek j s thread task (s.move thread task place kernel) none
  | interrupted (p : Pointer) (waits : task.place = .waiting p)
      (signal : ¬task.call.locked = true) :
      Stepped seek j s thread task (s.move thread task
        (.returning ⟨-erestartsys, task.call.position s.fpos task.copy, []⟩) s.kernel) none
  | lock (p : Pointer) (waits : task.place = .waiting p) (granted : task.call.locked = true)
      (free : s.kernel.dev.lock = false) :
      Stepped seek j s thread task (s.move thread task (.locked p)
        { s.kernel with dev := { s.kernel.dev with lock := true } }) none
  | passage (kernel : Kernel) (place : Place) (inside : task.place.inside = true)
      (early : ∀ result, task.place ≠ .unlocking result)
      (passage : Passage seek j (task.call.position s.fpos task.copy) task.call s.kernel task.place
        kernel place) :
      Stepped seek j s thread task (s.move thread task place kernel) none
  | unlock (result : Result) (unlocks : task.place = .unlocking result) :
      Stepped seek j s thread task (s.move thread task (.returning result) s.kernel.unlocked) none
  | returns (result : Result) (back : task.place = .returning result) :
      Stepped seek j s thread task { s with
        fpos := task.call.storeBack result s.fpos
        task := Function.update s.task thread none }
        (some (.ret thread ⟨result.ret, result.delivered⟩))

/-- Inside the lock the critical state is that of the position which the next step uses. -/
theorem Coherent.critical (coherent : Coherent seek s j assembling)
    (here : s.task thread = some task) (within : task.place.inside = true)
    (early : ∀ result, task.place ≠ .unlocking result) :
    Critical seek j (task.call.position s.fpos task.copy) s.kernel task.call task.place := by
  obtain ⟨fpos, copied, critical, _⟩ := coherent.device.critical here within
  cases seeks : task.call.seeks with
  | true => exact critical.reposition seeks early _
  | false =>
    rw [Call.position, if_neg (by simp [seeks]), ← copied seeks]
    exact critical

theorem Coherent.step_cases (coherent : Coherent seek s j assembling)
    (here : s.task thread = some task) :
    (∃ p, task.place = .waiting p ∧ task.call.locked = true ∧
      s.step seek (.step thread) = (mutexLock s.kernel.dev).map fun dev =>
        (s.move thread task (.locked p) { s.kernel with dev }, none)) ∨
    (∃ s' event, s.step seek (.step thread) = some (s', event) ∧
      Stepped seek j s thread task s' event) := by
  have advance : ∀ kernel' place', (∀ p, task.place ≠ .waiting p) →
      (∀ result, task.place ≠ .unlocking result) → (∀ result, task.place ≠ .returning result) →
      task.place ≠ .faulted →
      task.call.advance seek (task.call.position s.fpos task.copy) task.place s.kernel =
        some (kernel', place') →
      s.step seek (.step thread) = some (s.move thread task place' kernel', none) := by
    intro kernel' place' busy inside early fine step
    simp only [System.step, here, Option.bind_eq_bind, Option.bind_some]
    cases place : task.place with
    | waiting p => exact absurd place (busy p)
    | unlocking result => exact absurd place (inside result)
    | returning result => exact absurd place (early result)
    | faulted => exact absurd place fine
    | _ => simp only [← place, step]
  cases within : task.place.inside with
  | false =>
    have guest := coherent.guest thread task here within
    by_cases waits : ∃ p, task.place = .waiting p
    · obtain ⟨p, waits⟩ := waits
      by_cases granted : task.call.locked = true
      · refine .inl ⟨p, waits, granted, ?_⟩
        simp only [System.step, here, Option.bind_eq_bind, Option.bind_some, waits, if_pos granted]
        cases mutexLock s.kernel.dev <;> rfl
      · refine .inr ⟨_, _, ?_, .interrupted p waits granted⟩
        simp only [System.step, here, Option.bind_eq_bind, Option.bind_some, waits, if_neg granted]
    · have busy : ∀ p, task.place ≠ .waiting p := fun p same => waits ⟨p, same⟩
      by_cases returns : ∃ result, task.place = .returning result
      · obtain ⟨result, back⟩ := returns
        refine .inr ⟨_, _, ?_, .returns result back⟩
        simp only [System.step, here, Option.bind_eq_bind, Option.bind_some, back]
      · have early : ∀ result, task.place ≠ .returning result := fun r same => returns ⟨r, same⟩
        obtain ⟨kernel', place', detached⟩ : ∃ kernel' place',
            Detached seek (task.call.position s.fpos task.copy) task.call s.kernel task.place
              kernel' place' :=
          guest.detached busy early _
        refine .inr ⟨_, _, advance _ _ busy ?_ early ?_ detached.step,
          .detached kernel' place' early within detached⟩
        · intro result same
          rw [same] at within
          cases within
        · exact guest.fine
  | true =>
    by_cases unlocks : ∃ result, task.place = .unlocking result
    · obtain ⟨result, unlocks⟩ := unlocks
      refine .inr ⟨_, _, ?_, .unlock result unlocks⟩
      simp only [System.step, here, Option.bind_eq_bind, Option.bind_some, unlocks]
      rfl
    · have inside : ∀ result, task.place ≠ .unlocking result := fun r same => unlocks ⟨r, same⟩
      obtain ⟨_, _, _, rfl, _, _⟩ := coherent.device.critical here within
      obtain ⟨kernel', place', passage⟩ := (coherent.critical here within inside).passage
        (fun b own => coherent.spared thread task b here own) inside
      refine .inr ⟨_, _, advance _ _ ?_ inside ?_ ?_ passage.step,
        .passage kernel' place' within inside passage⟩
      all_goals
        intros
        intro same
        rw [same] at within
        cases within

theorem Coherent.stepped (coherent : Coherent seek s j assembling)
    (here : s.task thread = some task) (one : s.step seek (.step thread) = some (s', event)) :
    Stepped seek j s thread task s' event := by
  rcases coherent.step_cases here with ⟨p, waits, granted, result⟩ | ⟨next, event', result, stepped⟩
  · rw [one] at result
    obtain ⟨dev, taken, same⟩ := Option.map_eq_some_iff.mp result.symm
    cases same
    simp only [mutexLock] at taken
    split at taken
    · contradiction
    · rename_i free
      cases taken
      exact .lock p waits granted (Bool.eq_false_iff.mpr free)
  · rw [one] at result
    cases result
    exact stepped

theorem Simulates.matched (simulates : Simulates seek s o j assembling)
    (here : s.task thread = some task) (stepped : Stepped seek j s thread task s' event) :
    Matched seek o s' event := by
  cases stepped with
  | detached kernel place early outside detached =>
    exact simulates.detached here early outside detached
  | interrupted p waits signal => exact simulates.interrupted here waits signal
  | lock p waits granted free => exact simulates.lock here waits granted free
  | passage kernel place inside early passage => exact simulates.passage here inside early passage
  | unlock result unlocks => exact simulates.unlock here unlocks
  | returns result back => exact simulates.returns here back

theorem Simulates.step (simulates : Simulates seek s o j assembling) {move : Move}
    (one : s.step seek move = some (s', event)) : Matched seek o s' event := by
  cases move with
  | call thread c =>
    simp only [System.step] at one
    split at one
    · cases one
      exact simulates.call ‹_› c
    · contradiction
  | step thread =>
    cases here : s.task thread with
    | none => simp [System.step, here] at one
    | some task => exact simulates.matched here (simulates.coherent.stepped here one)

end Steps

section Runs

variable {moves : List Move} {events : List (Option (Event Nat Call Reply))}

theorem System.simulated
    (run : Transition.execute (System.step seek) moves .initial = some (s, events)) :
    ∃ steps o shows, Transition.execute (AtomicSystem.step seek) steps .initial =
        some (o, shows) ∧ shows.reduceOption = events.reduceOption ∧
      ∃ j assembling, Simulates seek s o j assembling :=
  Transition.execute_refinement
    (fun s o => ∃ j assembling, Simulates seek s o j assembling) id id
    (by
      rintro move s s' event o ⟨j, assembling, simulates⟩ one
      exact simulates.step one)
    run ⟨.empty, false, System.initial_simulates⟩

end Runs

end Aesd
