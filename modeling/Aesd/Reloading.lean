import Aesd.Leaks
import Aesd.LoadingRefinement

/-! Loading and unloading the module as often as one likes: what the users see, what happens to the
device numbers, and when no memory is lost. -/
namespace Aesd

variable {seek : Int → Int → Int → Int → Int} {s s' : AesdModule} {event : ModuleEvent}
  {device : Option Presence} {action : ModuleAction} {actions : List ModuleAction}
  {events log : List ModuleEvent} {garbage : AesdDev} {k : Kernel} {c : Call}

section Users

/-- Whatever is loaded, opened, called and unloaded in whatever order, and whatever fails: the users
see a device that starts each time without a line, and answers as its journal says. -/
theorem module_refines
    (run : Transition.execute (AesdModule.step seek) actions (.initial garbage) =
      some (s, events)) :
    ∃ device, Transition.execute (Visit.perform seek) ((events.flatMap ModuleEvent.visits).map
        Prod.fst) none = some (device, (events.flatMap ModuleEvent.visits).map Prod.snd) ∧
      s.Presents device := by
  obtain ⟨device, visits, refines⟩ := Transition.execute_simulation AesdModule.Refines
    ModuleEvent.visits (fun _ _ _ _ _ refines step => refines.step step) run
    (initial_refines garbage)
  exact ⟨device, visits, refines.presents⟩

def loads (address major : Nat) : List ModuleAction :=
  [.insmod address, .work (.region 0 major), .work .quiet, .work (.added 0), .work .quiet]

def unloads : List ModuleAction := .rmmod :: List.replicate 3 (.work .quiet)

/-- A line is written in the first load; the second one fails, and in the third the number that the
first had leads nowhere. -/
def threeLoads : List ModuleAction :=
  loads 4096 240 ++ [.openFile 0 (mkdev 240 0), .call (.write 0 .success true (some [97, newline])),
    .release 0] ++ unloads ++
  [.insmod 8192, .work (.region 0 241), .work .quiet, .work (.added (-12)), .work .quiet,
    .other (mkdev 240 0) true] ++
  loads 4096 242 ++ [.openFile 1 (mkdev 240 0), .openFile 1 (mkdev 242 0),
    .call (.read 1 .success true true 5), .release 1] ++ unloads

def noise : AesdDev := ⟨true, aesdCircularBufferInit, some 7, 3, 0⟩

theorem threeLoads_runs : ∃ s events,
    Transition.execute (AesdModule.step fun _ _ _ _ => 0) threeLoads (.initial noise) =
      some (s, events) ∧ s.pc = .unloaded := by
  have runs : (Transition.execute (AesdModule.step fun _ _ _ _ => 0) threeLoads
      (.initial noise)).map (fun last => last.1.pc) = some .unloaded := by
    decide +kernel
  obtain ⟨⟨s, events⟩, run, unloaded⟩ := Option.map_eq_some_iff.mp runs
  exact ⟨s, events, run, unloaded⟩

theorem module_refines_loads : ∃ s events,
    Transition.execute (AesdModule.step fun _ _ _ _ => 0) threeLoads (.initial noise) =
        some (s, events) ∧
      ∃ device, Transition.execute (Visit.perform fun _ _ _ _ => 0)
          ((events.flatMap ModuleEvent.visits).map Prod.fst) none =
            some (device, (events.flatMap ModuleEvent.visits).map Prod.snd) ∧
        s.Presents device := by
  obtain ⟨s, events, run, _⟩ := threeLoads_runs
  exact ⟨s, events, run, module_refines run⟩

end Users

section Numbers

def ModuleEvent.taken (dev : Nat) (before : Bool) : ModuleEvent → Bool
  | .other dev' registers => if dev' = dev then registers else before
  | _ => before

/-- What the other drivers did last with the number. -/
def takenOf (dev : Nat) (log : List ModuleEvent) : Bool :=
  log.foldl (ModuleEvent.taken dev) false

@[simp] theorem takenOf_snoc (dev : Nat) :
    takenOf dev (log ++ [event]) = event.taken dev (takenOf dev log) := by
  simp [takenOf]

inductive RegionEffect (s s' : AesdModule) : ModuleEvent → Prop
  | keep {event : ModuleEvent} (regions : s'.regions = s.regions) (plain : event ≠ .oops)
      (quiet : ∀ dev before, event.taken dev before = before) : RegionEffect s s' event
  | take (dev : Nat) (free : s.regions dev = none)
      (regions : s'.regions = Function.update s.regions dev (some .aesdchar)) :
      RegionEffect s s' .internal
  | give {event : ModuleEvent} (dev : Nat) (here : s.pc.devno = some dev)
      (registered : s.pc.registered = true)
      (regions : s'.regions = Function.update s.regions dev none) (plain : event ≠ .oops)
      (quiet : ∀ dev before, event.taken dev before = before) : RegionEffect s s' event
  | other (dev : Nat) (registers : Bool)
      (before : s.regions dev = if registers then none else some .other)
      (regions : s'.regions =
        Function.update s.regions dev (if registers then some .other else none)) :
      RegionEffect s s' (.other dev registers)
  | oops (stuck : s'.pc = .oops) : RegionEffect s s' .oops

theorem AesdModule.work_regions {answer : ModuleAnswer}
    (step : s.work answer = some (s', event)) : RegionEffect s s' event := by
  unfold AesdModule.work at step
  split at step
  · unfold AesdModule.allocRegion at step
    split at step
    · cases step
      exact .keep rfl ModuleEvent.noConfusion (fun _ _ => rfl)
    · dsimp only at step
      split at step
      · rename_i free
        cases step
        exact .take _ free rfl
      · cases step
  · cases step
    exact .keep rfl ModuleEvent.noConfusion (fun _ _ => rfl)
  · simp only [AesdModule.setupCdev, Option.some.injEq] at step
    split at step
    all_goals
      cases step
      exact .keep rfl ModuleEvent.noConfusion (fun _ _ => rfl)
  · rename_i dev result here
    cases step
    exact .give dev (by rw [here]; rfl) (by rw [here]; rfl) rfl ModuleEvent.noConfusion
      (fun _ _ => rfl)
  · cases step
    exact .keep rfl ModuleEvent.noConfusion (fun _ _ => rfl)
  · split at step
    · cases step
      exact .keep rfl ModuleEvent.noConfusion (fun _ _ => rfl)
    · cases step
      exact .oops rfl
  · split at step
    · cases step
      exact .keep rfl ModuleEvent.noConfusion (fun _ _ => rfl)
    · cases step
      exact .oops rfl
  · rename_i devno here
    cases step
    exact .give devno (by rw [here]; rfl) (by rw [here]; rfl) rfl ModuleEvent.noConfusion
      (fun _ _ => rfl)
  · cases step

theorem AesdModule.step_regions (step : s.step seek action = some (s', event)) :
    RegionEffect s s' event := by
  unfold AesdModule.step at step
  split at step
  · cases step
  cases action with
  | insmod address =>
    simp only at step
    split at step
    · cases step
      exact .keep rfl ModuleEvent.noConfusion (fun _ _ => rfl)
    · cases step
  | work answer => exact AesdModule.work_regions step
  | rmmod =>
    simp only at step
    split at step
    · cases step
      exact .keep rfl ModuleEvent.noConfusion (fun _ _ => rfl)
    · cases step
  | openFile file node =>
    simp only [AesdModule.chrdevOpen] at step
    repeat' split at step
    all_goals
      cases step <;> exact .keep rfl ModuleEvent.noConfusion (fun _ _ => rfl)
  | call c =>
    obtain ⟨filp, opened, same⟩ := Option.map_eq_some_iff.mp step
    unfold AesdModule.callFile at same
    repeat' split at same
    · cases same
      exact .keep rfl ModuleEvent.noConfusion (fun _ _ => rfl)
    · cases same
      exact .oops rfl
    · cases same
      exact .oops rfl
  | release file =>
    simp only at step
    split at step
    · cases step
    · cases step
      exact .keep rfl ModuleEvent.noConfusion (fun _ _ => rfl)
  | other dev registers =>
    simp only at step
    by_cases before : s.regions dev = if registers then none else some .other
    · rw [if_pos before] at step
      cases step
      exact .other dev registers before rfl
    · rw [if_neg before] at step
      cases step

/-- Whenever the module holds a number it is registered to it, nothing else of the table changes,
and files and `cdev` lead to the device of the present load. -/
structure AesdModule.Safe (s : AesdModule) (log : List ModuleEvent) : Prop where
  sound : .oops ∉ log
  others : ∀ dev, s.regions dev = some .other ↔ takenOf dev log = true
  own : ∀ dev, s.regions dev = some .aesdchar ↔ s.pc.registered = true ∧ dev = s.number
  cdev : ∀ number iCdev, s.cdev = some (number, iCdev) →
    s.regions number = some .aesdchar ∧ containerOf iCdev = s.aesdDevice
  files : ∀ file filp, s.files file = some filp →
    s.pc.attached = true ∧ filp.privateData = s.aesdDevice

structure AesdModule.Follower (s : AesdModule) (log : List ModuleEvent) : Prop where
  refines : ∃ device, s.Refines device
  sound : .oops ∉ log
  others : ∀ dev, s.regions dev = some .other ↔ takenOf dev log = true

theorem AesdModule.Follower.step (follower : s.Follower log)
    (step : s.step seek action = some (s', event)) : s'.Follower (log ++ [event]) := by
  obtain ⟨device, refines⟩ := follower.refines
  obtain ⟨device', _, after⟩ := refines.step step
  have others := follower.others
  have effect := AesdModule.step_regions step
  refine ⟨⟨device', after⟩, ?_, ?_⟩
  · rw [List.mem_append, List.mem_singleton]
    rintro (earlier | now)
    · exact follower.sound earlier
    · cases effect with
      | keep regions plain => exact plain now.symm
      | give dev here registered regions plain => exact plain now.symm
      | take dev free regions => cases now
      | other dev registers before regions => cases now
      | oops stuck => exact after.sound stuck
  · intro dev'
    rw [takenOf_snoc]
    cases effect with
    | keep regions plain quiet => rw [regions, quiet, others]
    | take dev free regions =>
      rw [regions]
      by_cases same : dev' = dev
      · subst same
        have untaken := (others dev').not
        rw [free] at untaken
        simpa [ModuleEvent.taken] using untaken
      · rw [Function.update_of_ne same]
        exact others dev'
    | give dev here registered regions plain quiet =>
      have own := (refines.numbered.own dev).mpr ⟨registered, refines.numbered.devno dev here⟩
      rw [regions, quiet]
      by_cases same : dev' = dev
      · subst same
        have untaken := (others dev').not
        rw [own] at untaken
        simpa using untaken
      · rw [Function.update_of_ne same]
        exact others dev'
    | other dev registers before regions =>
      rw [regions]
      by_cases same : dev' = dev
      · subst same
        cases registers <;> simp [ModuleEvent.taken]
      · rw [Function.update_of_ne same, ModuleEvent.taken, if_neg (Ne.symm same)]
        exact others dev'
    | oops stuck => exact absurd stuck after.sound

/-- At every point of every run, whichever calls fail and whatever the other drivers do. -/
theorem module_safe (seek : Int → Int → Int → Int → Int) (garbage : AesdDev)
    (actions : List ModuleAction) :
    Transition.Throughout (AesdModule.step seek) actions (.initial garbage) AesdModule.Safe := by
  intro n s events run
  have start : (AesdModule.initial garbage).Follower [] :=
    ⟨⟨none, initial_refines garbage⟩, List.not_mem_nil, fun dev => by
      simp [AesdModule.initial, takenOf]⟩
  have follower := Transition.execute_history AesdModule.Follower
    (fun _ _ _ _ _ follower step => follower.step step) run start
  obtain ⟨device, refines⟩ := follower.refines
  have numbered := refines.numbered
  refine ⟨follower.sound, follower.others, numbered.own, ?_, ?_⟩
  · intro number iCdev added
    have cdev := numbered.cdev
    rw [added] at cdev
    split at cdev
    · rename_i within
      cases cdev
      refine ⟨(numbered.own s.number).mpr ⟨?_, rfl⟩, rfl⟩
      by_contra unregistered
      have unadded := ModulePc.added_registered (Bool.eq_false_iff.mpr unregistered)
      rw [unadded] at within
      cases within
    · cases cdev
  · intro file filp opened
    exact ⟨refines.counted.attached file (opened ▸ Option.some_ne_none filp),
      refines.counted.privateData file filp opened⟩

end Numbers

section Memory

/-- No line with a buffer is unfinished. -/
def Kernel.Idle (k : Kernel) : Prop := k.dev.writeBufferSize = 0 ∨ k.dev.writeBuffer = none

/-- No call leaks, and the module is not unloaded in the middle of a line. -/
def Retains (action : ModuleAction) (s : AesdModule) : Prop :=
  match action with
  | .call c => ¬Leaks c s.kernel
  | .rmmod => s.kernel.Idle
  | _ => True

def AesdModule.Neat (s : AesdModule) : Prop :=
  match s.pc with
  | .entered | .live => Tight s.kernel
  | .del _ | .free _ => Tight s.kernel ∧ s.kernel.Idle
  | _ => ∀ a, s.kernel.heap.block a = none

theorem Models.tight_empty (models : Models k .empty) :
    Tight k ↔ ∀ a, k.heap.block a = none := by
  have unused : ∀ i, k.dev.buffer.get i = default := fun i =>
    models.committed.ring.unused i (Nat.zero_le i)
  have size : k.dev.writeBufferSize = 0 := models.assembled.1
  constructor
  · intro tight a
    by_contra used
    apply tight a
    refine ⟨used, fun i points => ?_, fun unfinished => unfinished.1 size⟩
    rw [unused i] at points
    cases points
  · intro empty a stray
    exact stray.allocated (empty a)

theorem AesdModule.Refines.call_neat {filp : OpenFile} (refines : s.Refines device)
    (opened : s.files c.file = some filp) :
    (s.callFile seek c filp).1.Neat ↔ s.Neat ∧ ¬Leaks c s.kernel := by
  have here := refines.counted.attached c.file (opened ▸ Option.some_ne_none filp)
  obtain ⟨j, models⟩ : ∃ j, Models s.kernel j := by
    refine refines.presents.models ?_
    generalize s.pc = pc at here
    cases pc <;> first | rfl | cases here
  have loaded : s.pc ≠ .unloaded := by
    intro unloaded
    rw [unloaded] at here
    cases here
  obtain ⟨r, operated, _⟩ := operate_refines models seek c filp.fpos
  obtain ⟨New, strays, leaks⟩ := models.operate_stray c operated
  have tight : Tight r.kernel ↔ Tight s.kernel ∧ ¬Leaks c s.kernel := by
    simp only [Tight, strays, ← leaks, not_or, not_exists, forall_and]
  have own := refines.counted.privateData c.file filp opened
  simp only [AesdModule.callFile, loaded, own, operated, ne_eq, not_false_eq_true, and_self, if_true]
  unfold AesdModule.Neat
  generalize s.pc = pc at here
  cases pc <;> first | exact tight | cases here

theorem AesdModule.Refines.work_neat {answer : ModuleAnswer} (refines : s.Refines device)
    (step : s.work answer = some (s', event)) : s'.Neat ↔ s.Neat := by
  unfold AesdModule.work at step
  split at step
  · rename_i result major here
    simp only [AesdModule.allocRegion] at step
    repeat' split at step
    all_goals
      cases step <;> simp only [AesdModule.Neat, here]
  · rename_i dev here
    cases step
    simp only [AesdModule.Neat, here]
  · rename_i dev err here
    have models : Models s.kernel .empty := by
      obtain ⟨_, _, empty⟩ | ⟨p, attached⟩ := refines.presents
      · exact empty dev here
      · rw [here] at attached
        cases attached
    simp only [AesdModule.setupCdev, Option.some.injEq] at step
    split at step
    · cases step
      simp only [AesdModule.Neat, here]
      exact models.tight_empty
    · cases step
      simp only [AesdModule.Neat, AesdModule.goto, here]
  · rename_i dev result here
    cases step
    simp only [AesdModule.Neat, AesdModule.unregisterChrdevRegion, here]
  · rename_i here
    cases step
    simp only [AesdModule.Neat, AesdModule.goto, here]
  · rename_i devno here
    split at step
    · cases step
      simp only [AesdModule.Neat, here]
    · cases step
      rename_i unadded
      have cdev := refines.numbered.cdev
      rw [here] at cdev
      rw [cdev] at unadded
      exact absurd rfl unadded
  · rename_i devno here
    obtain ⟨j, models⟩ := refines.presents.models (by rw [here]; rfl)
    split at step
    · rename_i kernel cleaned
      cases step
      simp only [AesdModule.Neat, here]
      exact models.cleanup_empty cleaned
    · rename_i faulted
      obtain ⟨k, cleaned, _⟩ := models.cleanup
      rw [cleaned] at faulted
      cases faulted
  · rename_i devno here
    cases step
    simp only [AesdModule.Neat, AesdModule.unregisterChrdevRegion, here]
  · cases step

/-- Memory that a step loses stays lost. -/
theorem AesdModule.Refines.step_neat (refines : s.Refines device)
    (step : s.step seek action = some (s', event)) : s'.Neat ↔ s.Neat ∧ Retains action s := by
  unfold AesdModule.step at step
  rw [if_neg refines.sound] at step
  cases action with
  | insmod address =>
    simp only at step
    split at step
    · rename_i here
      cases step
      simp only [AesdModule.Neat, here, Retains, and_true]
    · cases step
  | work answer => simpa only [Retains, and_true] using refines.work_neat step
  | rmmod =>
    simp only at step
    split at step
    · rename_i both
      cases step
      simp only [AesdModule.Neat, AesdModule.goto, both.1, Retains]
    · cases step
  | openFile file node =>
    simp only [AesdModule.chrdevOpen] at step
    repeat' split at step
    all_goals
      cases step <;> simp only [AesdModule.Neat, Retains, and_true]
  | call c =>
    obtain ⟨filp, opened, same⟩ := Option.map_eq_some_iff.mp step
    have neat : (s.callFile seek c filp).1.Neat ↔ s.Neat ∧ ¬Leaks c s.kernel :=
      refines.call_neat opened
    rw [same] at neat
    exact neat
  | release file =>
    simp only at step
    split at step
    · cases step
    · cases step
      simp only [AesdModule.Neat, Retains, and_true]
  | other dev registers =>
    simp only at step
    by_cases before : s.regions dev = if registers then none else some .other
    · rw [if_pos before] at step
      cases step
      simp only [AesdModule.Neat, Retains, and_true]
    · rw [if_neg before] at step
      cases step

/-- However often the module was loaded and unloaded: no memory is lost exactly when in all loads no
call leaked and no unfinished line was left. -/
theorem module_released
    (run : Transition.execute (AesdModule.step seek) actions (.initial garbage) =
      some (s, events))
    (unloaded : s.pc = .unloaded) :
    (∀ a, s.kernel.heap.block a = none) ↔
      Transition.Guarded (AesdModule.step seek) Retains actions (.initial garbage) := by
  have neat := Transition.guarded_iff AesdModule.Neat (fun s => ∃ device, s.Refines device)
    (fun action s s' event before step => by
      obtain ⟨device, refines⟩ := before
      obtain ⟨device', _, after⟩ := refines.step step
      exact ⟨⟨device', after⟩, refines.step_neat step⟩) run ⟨none, initial_refines garbage⟩
  have start : (AesdModule.initial garbage).Neat := fun a => rfl
  simp only [AesdModule.Neat, unloaded] at neat
  exact neat.trans (and_iff_right start)

theorem module_released_loads : ∃ s events,
    Transition.execute (AesdModule.step fun _ _ _ _ => 0) threeLoads (.initial noise) =
        some (s, events) ∧
      ((∀ a, s.kernel.heap.block a = none) ↔
        Transition.Guarded (AesdModule.step fun _ _ _ _ => 0) Retains threeLoads
          (.initial noise)) := by
  obtain ⟨s, events, run, unloaded⟩ := threeLoads_runs
  exact ⟨s, events, run, module_released run unloaded⟩

end Memory

end Aesd
