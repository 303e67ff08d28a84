import Aesd.DeviceRefinement
import Aesd.Ownership
import Aesd.Loading
import Mathlib.Data.Finset.Card

/-! What the users of the device see over all loads of the module: no device, or one with a number,
a journal and open files. Each load shows a device with an empty journal, whatever the earlier ones
left behind. -/
namespace Aesd

section Abstract

/-- The device while it is there: its number, its journal and the positions of its open files. -/
structure Presence where
  number : Nat
  journal : Journal
  fpos : Nat → Option Int

inductive Visit where
  | appear (number : Nat)
  | openFile (file node : Nat)
  | call (c : Call)
  | release (file : Nat)
  | vanish

def Presence.openFile (p : Presence) (file node : Nat) : Option (Option Presence × Reply) :=
  if p.number ≠ node then some (some p, ⟨-enxio, []⟩)
  else if p.fpos file = none then
    some (some { p with fpos := Function.update p.fpos file (some 0) }, ⟨0, []⟩)
  else none

def Presence.call (seek : Int → Int → Int → Int → Int) (p : Presence) (c : Call) (fpos : Int) :
    Option Presence × Reply :=
  let o := p.journal.operate seek c fpos
  (some { p with
    journal := o.journal
    fpos := Function.update p.fpos c.file (some o.fpos) }, ⟨o.ret, o.delivered⟩)

open Classical in
/-- A device appears without files and with an empty journal, and vanishes when no file is open. -/
noncomputable def Visit.perform (seek : Int → Int → Int → Int → Int) :
    Visit → Option Presence → Option (Option Presence × Reply)
  | .appear number, none => some (some ⟨number, .empty, fun _ => none⟩, ⟨0, []⟩)
  | .openFile _ _, none => some (none, ⟨-enxio, []⟩)
  | .openFile file node, some p => p.openFile file node
  | .call c, some p => (p.fpos c.file).map (p.call seek c)
  | .release file, some p =>
    if p.fpos file = none then none
    else some (some { p with fpos := Function.update p.fpos file none }, ⟨0, []⟩)
  | .vanish, some p => if ∀ file, p.fpos file = none then some (none, ⟨0, []⟩) else none
  | _, _ => none

def ModuleEvent.visits : ModuleEvent → List (Visit × Reply)
  | .appeared number => [(.appear number, ⟨0, []⟩)]
  | .opened file node reply => [(.openFile file node, reply)]
  | .called c reply => [(.call c, reply)]
  | .released file reply => [(.release file, reply)]
  | .vanished => [(.vanish, ⟨0, []⟩)]
  | _ => []

end Abstract

variable {seek : Int → Int → Int → Int → Int} {s s' : AesdModule} {event : ModuleEvent}
  {device : Option Presence} {p : Presence} {c : Call} {file node address dev : Nat}
  {answer : ModuleAnswer} {actions : List ModuleAction} {events : List ModuleEvent}
  {garbage : AesdDev}

section Relation

def AesdModule.number (s : AesdModule) : Nat := mkdev s.aesdMajor aesdMinor

def ModulePc.devno : ModulePc → Option Nat
  | .device dev | .setup dev | .undo dev _ | .del dev | .free dev | .unregister dev => some dev
  | _ => none

/-- From `alloc_chrdev_region` to `unregister_chrdev_region`. -/
def ModulePc.registered : ModulePc → Bool
  | .unloaded | .alloc | .oops => false
  | _ => true

/-- From `cdev_add` to `cdev_del`. -/
def ModulePc.added : ModulePc → Bool
  | .entered | .live | .del _ => true
  | _ => false

def ModulePc.initialised : ModulePc → Bool
  | .setup _ | .entered | .live | .del _ | .free _ => true
  | _ => false

/-- The numbers: the module's own one is registered and added when it should be, and the other
ones are left alone. -/
structure AesdModule.Numbered (s : AesdModule) : Prop where
  devno : ∀ dev, s.pc.devno = some dev → dev = s.number
  own : ∀ dev, s.regions dev = some .aesdchar ↔ s.pc.registered = true ∧ dev = s.number
  cdev : s.cdev = if s.pc.added then some (s.number, ⟨s.aesdDevice⟩) else none

/-- The open files: the kernel counts them, and all are files of this load. -/
structure AesdModule.Counted (s : AesdModule) : Prop where
  count : ∃ opened : Finset Nat, opened.card = s.refcnt ∧ ∀ file, file ∈ opened ↔ s.files file ≠ none
  privateData : ∀ file filp, s.files file = some filp → filp.privateData = s.aesdDevice
  attached : ∀ file, s.files file ≠ none → s.pc.attached = true

inductive AesdModule.Presents (s : AesdModule) : Option Presence → Prop
  | absent (gone : s.pc.attached = false)
      (journal : s.pc.initialised = true → ∃ j, Models s.kernel j)
      (empty : ∀ dev, s.pc = .setup dev → Models s.kernel .empty) : s.Presents none
  | present (p : Presence) (here : s.pc.attached = true) (number : p.number = s.number)
      (models : Models s.kernel p.journal)
      (files : ∀ file, p.fpos file = (s.files file).map OpenFile.fpos) : s.Presents (some p)

structure AesdModule.Refines (s : AesdModule) (device : Option Presence) : Prop where
  sound : s.pc ≠ .oops
  numbered : s.Numbered
  counted : s.Counted
  presents : s.Presents device

/-- The event, as the users see it, and the state after it. -/
def AesdModule.Follows (seek : Int → Int → Int → Int → Int) (device : Option Presence)
    (s' : AesdModule) (event : ModuleEvent) : Prop :=
  ∃ device', Transition.execute (Visit.perform seek) (event.visits.map Prod.fst) device =
    some (device', event.visits.map Prod.snd) ∧ s'.Refines device'

theorem AesdModule.Refines.unseen (refines : s'.Refines device) (unseen : event.visits = []) :
    s'.Follows seek device event := by
  refine ⟨device, ?_, refines⟩
  rw [unseen]
  rfl

theorem AesdModule.Refines.seen {device' : Option Presence} {visit : Visit} {reply : Reply}
    (refines : s'.Refines device') (seen : event.visits = [(visit, reply)])
    (performed : visit.perform seek device = some (device', reply)) :
    s'.Follows seek device event := by
  refine ⟨device', ?_, refines⟩
  rw [seen]
  exact Transition.execute_singleton.mpr ⟨reply, performed, rfl⟩

theorem AesdModule.Presents.gone (presents : s.Presents device) (gone : s.pc.attached = false) :
    device = none := by
  cases presents with
  | absent => rfl
  | present p here =>
    rw [gone] at here
    cases here

theorem AesdModule.Numbered.cdev_none (numbered : s.Numbered) (unadded : s.pc.added = false) :
    s.cdev = none := by
  simpa [unadded] using numbered.cdev

theorem AesdModule.Counted.closed (counted : s.Counted) (gone : s.pc.attached = false)
    (file : Nat) : s.files file = none := by
  by_contra isOpen
  have attached := counted.attached file isOpen
  rw [gone] at attached
  cases attached

end Relation

section Steps

/-- `aesd_init_module` makes an empty journal of the device, whatever is on the heap. -/
theorem fresh_models (heap : Heap) : Models ⟨heap, aesdInitModule.dev⟩ .empty where
  free := rfl
  committed :=
    { ring := CircularBuffer.ring_init
      stored := by intro m bound; simp [Journal.empty] at bound
      apart := by
        intro i i' a points
        simp [CircularBuffer.ring_init.unused i (Nat.zero_le _), aesdInitModule] at points
      commands := by simp [Journal.empty] }
  assembled := ⟨rfl, by simp⟩
  buffSize := rfl

/-- The module comes and goes while nothing can be opened. -/
theorem AesdModule.Refines.transit (refines : s.Refines device) (gone : s.pc.attached = false)
    (numbered : s'.Numbered) (sound : s'.pc ≠ .oops) (unattached : s'.pc.attached = false)
    (files : s'.files = s.files) (refcnt : s'.refcnt = s.refcnt)
    (journal : s'.pc.initialised = true → ∃ j, Models s'.kernel j)
    (empty : ∀ dev, s'.pc = .setup dev → Models s'.kernel .empty) : s'.Refines device where
  sound := sound
  numbered := numbered
  counted := by
    have closed : ∀ file, s'.files file = none := fun file =>
      files ▸ refines.counted.closed gone file
    refine ⟨?_, fun file filp opened => ?_, fun file isOpen => absurd (closed file) isOpen⟩
    · rw [files, refcnt]
      exact refines.counted.count
    · rw [closed file] at opened
      cases opened
  presents := by
    rw [refines.presents.gone gone]
    exact .absent unattached journal empty

theorem ModulePc.added_registered {pc : ModulePc} (unregistered : pc.registered = false) :
    pc.added = false := by
  cases pc <;> first | rfl | cases unregistered

theorem AesdModule.Numbered.idle (numbered : s.Numbered) (unregistered : s.pc.registered = false)
    (later : s'.pc.registered = false) (local' : s'.pc.devno = none)
    (regions : s'.regions = s.regions) (cdev : s'.cdev = s.cdev) : s'.Numbered where
  devno dev carried := by
    rw [local'] at carried
    cases carried
  own dev := by
    have before := numbered.own dev
    rw [unregistered] at before
    rw [regions, later]
    simpa using before
  cdev := by
    rw [cdev, numbered.cdev_none (ModulePc.added_registered unregistered),
      ModulePc.added_registered later]
    rfl

theorem AesdModule.Numbered.pass (numbered : s.Numbered) (number : s'.number = s.number)
    (regions : s'.regions = s.regions) (registered : s'.pc.registered = s.pc.registered)
    (devno : ∀ dev, s'.pc.devno = some dev → dev = s.number)
    (cdev : s'.cdev = if s'.pc.added then some (s.number, ⟨s'.aesdDevice⟩) else none) :
    s'.Numbered where
  devno dev carried := (devno dev carried).trans number.symm
  own dev := by
    rw [regions, registered, number]
    exact numbered.own dev
  cdev := by
    rw [number]
    exact cdev

theorem AesdModule.Numbered.unregister (numbered : s.Numbered) (here : s.pc.devno = some dev)
    (unadded : s.pc.added = false) : (s.unregisterChrdevRegion dev).Numbered where
  devno dev' carried := by cases carried
  own dev' := by
    have same := numbered.devno dev here
    have before := numbered.own dev'
    by_cases at' : dev' = dev
    · subst at'
      simp [AesdModule.unregisterChrdevRegion, ModulePc.registered]
    · have other : dev' ≠ s.number := same ▸ at'
      simp only [AesdModule.unregisterChrdevRegion, Function.update_of_ne at', before, other,
        and_false, ModulePc.registered, Bool.false_eq_true, false_and]
  cdev := numbered.cdev_none unadded

theorem AesdModule.Refines.insmod (refines : s.Refines device) (here : s.pc = .unloaded) :
    ({ s with pc := .alloc, aesdMajor := 0, aesdDevice := address } : AesdModule).Refines device :=
  refines.transit (by rw [here]; rfl)
    (refines.numbered.idle (by rw [here]; rfl) rfl rfl rfl rfl) ModulePc.noConfusion rfl rfl rfl
    Bool.noConfusion (fun _ => ModulePc.noConfusion)

theorem AesdModule.Refines.allocRegion {result : Int} {major : Nat} (refines : s.Refines device)
    (here : s.pc = .alloc) (step : s.allocRegion result major = some (s', event)) :
    s'.Follows seek device event := by
  have numbered := refines.numbered
  have unregistered : s.pc.registered = false := by rw [here]; rfl
  have gone : s.pc.attached = false := by rw [here]; rfl
  unfold AesdModule.allocRegion at step
  split at step
  · cases step
    refine AesdModule.Refines.unseen ?_ rfl
    exact refines.transit gone (numbered.idle unregistered rfl rfl rfl rfl) ModulePc.noConfusion rfl
      rfl rfl Bool.noConfusion (fun _ => ModulePc.noConfusion)
  · dsimp only at step
    split at step
    · rename_i free
      cases step
      refine AesdModule.Refines.unseen ?_ rfl
      refine refines.transit gone ⟨?_, ?_, ?_⟩ ModulePc.noConfusion rfl rfl rfl Bool.noConfusion
        (fun _ => ModulePc.noConfusion)
      · intro dev carried
        cases carried
        simp only [AesdModule.number, majorOf_mkdev]
      · intro dev
        have before := numbered.own dev
        rw [unregistered] at before
        simp only [AesdModule.number, majorOf_mkdev, ModulePc.registered, true_and]
        by_cases at' : dev = mkdev major aesdMinor
        · simp [at']
        · simpa [at'] using before
      · exact numbered.cdev_none (ModulePc.added_registered unregistered)
    · cases step

theorem AesdModule.Refines.setupCdev {err : Int} (refines : s.Refines device)
    (here : s.pc = .setup dev) : (s.setupCdev dev err).1.Follows seek device
      (s.setupCdev dev err).2 := by
  have numbered := refines.numbered
  have gone : s.pc.attached = false := by rw [here]; rfl
  have closed := refines.counted.closed gone
  have absent := refines.presents.gone gone
  unfold AesdModule.setupCdev
  dsimp only
  split
  · obtain ⟨_, _, empty⟩ : s.Presents none := absent ▸ refines.presents
    let fresh : Presence := ⟨s.number, .empty, fun _ => none⟩
    refine AesdModule.Refines.seen (?_ : AesdModule.Refines _ (some fresh)) rfl ?_
    · exact
        { sound := ModulePc.noConfusion
          numbered := numbered.pass rfl rfl (by rw [here]; rfl) (by rintro _ ⟨⟩) rfl
          counted := ⟨refines.counted.count, refines.counted.privateData, fun _ _ => rfl⟩
          presents := .present _ rfl rfl (empty dev here) (fun file => by
            simp [fresh, closed file]) }
    · rw [absent]
      rfl
  · refine AesdModule.Refines.unseen ?_ rfl
    refine refines.transit gone ?_ ModulePc.noConfusion rfl rfl rfl Bool.noConfusion
      (fun _ => ModulePc.noConfusion)
    refine numbered.pass rfl rfl (by rw [here]; rfl) ?_ ?_
    · intro dev' carried
      cases carried
      exact numbered.devno dev (by rw [here]; rfl)
    · exact numbered.cdev_none (by rw [here]; rfl)

theorem AesdModule.Refines.unregister (refines : s.Refines device) (here : s.pc.devno = some dev)
    (unadded : s.pc.added = false) (gone : s.pc.attached = false) :
    (s.unregisterChrdevRegion dev).Refines device :=
  refines.transit gone (refines.numbered.unregister here unadded) ModulePc.noConfusion rfl rfl rfl
    Bool.noConfusion (fun _ => ModulePc.noConfusion)

theorem AesdModule.Presents.models (presents : s.Presents device)
    (initialised : s.pc.initialised = true) : ∃ j, Models s.kernel j := by
  cases presents with
  | absent gone journal => exact journal initialised
  | present p here number models => exact ⟨_, models⟩

theorem AesdModule.Refines.work (refines : s.Refines device)
    (step : s.work answer = some (s', event)) : s'.Follows seek device event := by
  have numbered := refines.numbered
  unfold AesdModule.work at step
  split at step
  · rename_i here
    exact refines.allocRegion here step
  · -- the device is set up over whatever the heap holds
    rename_i dev here
    cases step
    refine AesdModule.Refines.unseen ?_ rfl
    refine refines.transit (by rw [here]; rfl) ?_ ModulePc.noConfusion rfl rfl rfl
      (fun _ => ⟨.empty, fresh_models s.kernel.heap⟩) (fun _ _ => fresh_models s.kernel.heap)
    refine numbered.pass rfl rfl (by rw [here]; rfl) ?_ (numbered.cdev_none (by rw [here]; rfl))
    intro dev' carried
    cases carried
    exact numbered.devno dev (by rw [here]; rfl)
  · rename_i dev err here
    have follows : (s.setupCdev dev err).1.Follows seek device (s.setupCdev dev err).2 :=
      refines.setupCdev here
    rw [Option.some.inj step] at follows
    exact follows
  · rename_i dev result here
    cases step
    refine AesdModule.Refines.unseen (refines.unregister ?_ ?_ ?_) rfl <;> rw [here] <;> rfl
  · rename_i here
    cases step
    have cdev := numbered.cdev
    rw [here] at cdev
    refine AesdModule.Refines.unseen ?_ rfl
    exact
      { sound := ModulePc.noConfusion
        numbered := numbered.pass rfl rfl (by rw [here]; rfl) (fun _ carried => by cases carried)
          cdev
        counted := ⟨refines.counted.count, refines.counted.privateData, fun _ _ => rfl⟩
        presents := by
          obtain ⟨gone⟩ | ⟨p, _, number, models, files⟩ := refines.presents
          · rw [here] at gone
            cases gone
          · exact .present p rfl number models files }
  · rename_i devno here
    have cdev := numbered.cdev
    rw [here] at cdev
    split at step
    · cases step
      obtain ⟨j, models⟩ := refines.presents.models (by rw [here]; rfl)
      refine AesdModule.Refines.unseen ?_ rfl
      refine refines.transit (by rw [here]; rfl) ?_ ModulePc.noConfusion rfl rfl rfl
        (fun _ => ⟨j, models⟩) (fun _ => ModulePc.noConfusion)
      refine numbered.pass rfl rfl (by rw [here]; rfl) ?_ rfl
      intro dev carried
      cases carried
      exact numbered.devno devno (by rw [here]; rfl)
    · rename_i unadded
      rw [cdev] at unadded
      exact absurd rfl unadded
  · rename_i devno here
    obtain ⟨j, models⟩ := refines.presents.models (by rw [here]; rfl)
    obtain ⟨k, cleaned, _⟩ := models.cleanup
    rw [cleaned] at step
    cases step
    refine AesdModule.Refines.unseen ?_ rfl
    refine refines.transit (by rw [here]; rfl) ?_ ModulePc.noConfusion rfl rfl rfl
      Bool.noConfusion (fun _ => ModulePc.noConfusion)
    refine numbered.pass rfl rfl (by rw [here]; rfl) ?_ (numbered.cdev_none (by rw [here]; rfl))
    intro dev carried
    cases carried
    exact numbered.devno devno (by rw [here]; rfl)
  · rename_i devno here
    cases step
    refine AesdModule.Refines.unseen (refines.unregister ?_ ?_ ?_) rfl <;> rw [here] <;> rfl
  · cases step

theorem AesdModule.Refines.rmmod (refines : s.Refines device) (here : s.pc = .live)
    (unused : s.refcnt = 0) :
    (s.goto (.del (mkdev s.aesdMajor aesdMinor))).Follows seek device .vanished := by
  have numbered := refines.numbered
  obtain ⟨opened, card, members⟩ := refines.counted.count
  have closed : ∀ file, s.files file = none := by
    intro file
    by_contra isOpen
    have member := (members file).mpr isOpen
    rw [Finset.card_eq_zero.mp (card.trans unused)] at member
    exact absurd member (Finset.notMem_empty file)
  have cdev := numbered.cdev
  rw [here] at cdev
  obtain ⟨gone⟩ | ⟨p, _, number, models, files⟩ := refines.presents
  · rw [here] at gone
    cases gone
  · refine AesdModule.Refines.seen (?_ : AesdModule.Refines _ none) rfl ?_
    · exact
        { sound := ModulePc.noConfusion
          numbered := by
            refine numbered.pass rfl rfl (by rw [here]; rfl) ?_ cdev
            intro dev carried
            cases carried
            rfl
          counted := ⟨refines.counted.count, refines.counted.privateData,
            fun file isOpen => absurd (closed file) isOpen⟩
          presents := .absent rfl (fun _ => ⟨_, models⟩) (fun _ => ModulePc.noConfusion) }
    · have none' : ∀ file, p.fpos file = none := by
        intro file
        rw [files, closed]
        rfl
      simp only [Visit.perform, if_pos none']

theorem AesdModule.Counted.update {filp : OpenFile} {refcnt : Nat} (counted : s.Counted)
    (here : s.pc.attached = true) (own : filp.privateData = s.aesdDevice)
    (count : refcnt = s.refcnt + if s.files file = none then 1 else 0)
    (pc : s'.pc = s.pc) (address : s'.aesdDevice = s.aesdDevice) (refcnt' : s'.refcnt = refcnt)
    (files : s'.files = Function.update s.files file (some filp)) : s'.Counted where
  count := by
    obtain ⟨opened, card, members⟩ := counted.count
    refine ⟨insert file opened, ?_, ?_⟩
    · rw [refcnt', count, ← card]
      by_cases new : s.files file = none
      · have outside : file ∉ opened := fun member => (members file).mp member new
        rw [if_pos new, Finset.card_insert_of_notMem outside]
      · rw [if_neg new, Finset.insert_eq_of_mem ((members file).mpr new), Nat.add_zero]
    · intro other
      rw [files, Finset.mem_insert, members]
      by_cases same : other = file
      · simp [same]
      · simp [same]
  privateData other filp' opened := by
    rw [files] at opened
    by_cases same : other = file
    · rw [same, Function.update_self, Option.some.injEq] at opened
      rw [← opened, own, address]
    · rw [Function.update_of_ne same] at opened
      rw [counted.privateData other filp' opened, address]
  attached _ _ := by
    rw [pc]
    exact here

theorem AesdModule.Counted.release (counted : s.Counted) (isOpen : s.files file ≠ none)
    (pc : s'.pc = s.pc) (address : s'.aesdDevice = s.aesdDevice)
    (refcnt : s'.refcnt = s.refcnt - 1)
    (files : s'.files = Function.update s.files file none) : s'.Counted where
  count := by
    obtain ⟨opened, card, members⟩ := counted.count
    refine ⟨opened.erase file, ?_, ?_⟩
    · rw [Finset.card_erase_of_mem ((members file).mpr isOpen), card, refcnt]
    · intro other
      rw [files, Finset.mem_erase, members]
      by_cases same : other = file
      · simp [same]
      · simp [same]
  privateData other filp opened := by
    rw [files] at opened
    by_cases same : other = file
    · rw [same, Function.update_self] at opened
      cases opened
    · rw [Function.update_of_ne same] at opened
      rw [counted.privateData other filp opened, address]
  attached _ _ := by
    rw [pc]
    exact counted.attached file isOpen

/-- A step between `cdev_add` and `rmmod` that changes the files and the journal only. -/
theorem AesdModule.Numbered.files (numbered : s.Numbered) (pc : s'.pc = s.pc)
    (address : s'.aesdDevice = s.aesdDevice) (number : s'.number = s.number)
    (regions : s'.regions = s.regions) (cdev : s'.cdev = s.cdev) : s'.Numbered :=
  numbered.pass number regions (by rw [pc]) (fun dev carried => numbered.devno dev (pc ▸ carried))
    (by rw [cdev, pc, address]; exact numbered.cdev)

theorem AesdModule.Refines.chrdevOpen (refines : s.Refines device) (new : s.files file = none) :
    (s.chrdevOpen file node).1.Follows seek device (s.chrdevOpen file node).2 := by
  have numbered := refines.numbered
  have presents := refines.presents
  cases presents with
  | absent gone =>
    have refused : s.chrdevOpen file node = (s, .opened file node ⟨-enxio, []⟩) := by
      unfold AesdModule.chrdevOpen
      rw [gone]
      cases s.cdev <;> simp
    rw [refused]
    exact refines.seen rfl rfl
  | present p here number models files =>
    have added : s.pc.added = true := by
      generalize s.pc = pc at here
      cases pc <;> first | rfl | cases here
    have cdev := numbered.cdev
    rw [added, if_pos rfl] at cdev
    by_cases same : s.number = node
    · have opens : s.chrdevOpen file node = ({ s with
          refcnt := s.refcnt + 1
          files := Function.update s.files file (some ⟨s.aesdDevice, 0⟩) },
          .opened file node ⟨0, []⟩) := by
        simp only [AesdModule.chrdevOpen, cdev, same, here, and_self, if_true, aesdOpen, containerOf]
      rw [opens]
      let p' : Presence := { p with fpos := Function.update p.fpos file (some 0) }
      have visit : (Visit.openFile file node).perform seek (some p) = some (some p', ⟨0, []⟩) := by
        have closed : p.fpos file = none := by rw [files, new]; rfl
        simp only [Visit.perform, Presence.openFile, number, same, ne_eq, not_true_eq_false,
          if_false, closed, if_true, p']
      refine AesdModule.Refines.seen ?_ rfl visit
      exact
        { sound := refines.sound
          numbered := numbered.files rfl rfl rfl rfl rfl
          counted := refines.counted.update here rfl (by rw [if_pos new]) rfl rfl rfl rfl
          presents := .present p' here number models (fun other => by
            by_cases at' : other = file
            · simp [p', at']
            · simp [p', at', files]) }
    · have refused : s.chrdevOpen file node = (s, .opened file node ⟨-enxio, []⟩) := by
        simp only [AesdModule.chrdevOpen, cdev, same, false_and, if_false]
      rw [refused]
      refine refines.seen rfl ?_
      simp only [Visit.perform, Presence.openFile, number, ne_eq, same, not_false_eq_true, if_true]

theorem AesdModule.Refines.callFile {filp : OpenFile} (refines : s.Refines device)
    (opened : s.files c.file = some filp) :
    (s.callFile seek c filp).1.Follows seek device (s.callFile seek c filp).2 := by
  have isOpen : s.files c.file ≠ none := opened ▸ Option.some_ne_none filp
  have here := refines.counted.attached c.file isOpen
  have presents := refines.presents
  cases presents with
  | absent gone =>
    rw [here] at gone
    cases gone
  | present p here' number models files =>
    have loaded : s.pc ≠ .unloaded := by
      intro unloaded
      rw [unloaded] at here
      cases here
    have own := refines.counted.privateData c.file filp opened
    obtain ⟨r, operated, after⟩ := operate_refines models seek c filp.fpos
    have calls : s.callFile seek c filp = ({ s with
        kernel := r.kernel
        files := Function.update s.files c.file (some ⟨filp.privateData, r.fpos⟩) },
        .called c ⟨r.ret, r.delivered⟩) := by
      simp only [AesdModule.callFile, loaded, own, operated, ne_eq, not_false_eq_true, and_self,
        if_true]
    rw [calls]
    let o := p.journal.operate seek c filp.fpos
    let p' : Presence := { p with
      journal := o.journal
      fpos := Function.update p.fpos c.file (some o.fpos) }
    have visit : (Visit.call c).perform seek (some p) = some (some p', ⟨r.ret, r.delivered⟩) := by
      have position : p.fpos c.file = some filp.fpos := by rw [files, opened]; rfl
      rw [after.ret, after.delivered]
      simp only [Visit.perform, position, Option.map_some, Presence.call, p', o]
    have own' : (OpenFile.mk filp.privateData r.fpos).privateData = s.aesdDevice := own
    refine AesdModule.Refines.seen ?_ rfl visit
    exact
      { sound := refines.sound
        numbered := refines.numbered.files rfl rfl rfl rfl rfl
        counted := refines.counted.update here own' (by rw [if_neg isOpen]; rfl) rfl rfl rfl rfl
        presents := .present p' here number after.models (fun other => by
          by_cases at' : other = c.file
          · simp [p', at', after.fpos, o]
          · simp [p', at', files]) }

theorem AesdModule.Refines.release (refines : s.Refines device) (isOpen : s.files file ≠ none) :
    AesdModule.Follows seek device ({ s with
      refcnt := s.refcnt - 1
      files := Function.update s.files file none }) (.released file ⟨aesdRelease, []⟩) := by
  have here := refines.counted.attached file isOpen
  have presents := refines.presents
  cases presents with
  | absent gone =>
    rw [here] at gone
    cases gone
  | present p here' number models files =>
    let p' : Presence := { p with fpos := Function.update p.fpos file none }
    have visit : (Visit.release file).perform seek (some p) = some (some p', ⟨0, []⟩) := by
      have position : p.fpos file ≠ none := by
        rw [files]
        simpa using isOpen
      simp only [Visit.perform, if_neg position, p']
    refine AesdModule.Refines.seen ?_ rfl visit
    exact
      { sound := refines.sound
        numbered := refines.numbered.files rfl rfl rfl rfl rfl
        counted := refines.counted.release isOpen rfl rfl rfl rfl
        presents := .present p' here number models (fun other => by
          by_cases at' : other = file
          · simp [p', at']
          · simp [p', at', files]) }

/-- Another driver takes a free number, or gives back one that is not the module's. -/
theorem AesdModule.Refines.other {owner owner' : Option Registrant} (refines : s.Refines device)
    (before : s.regions dev = owner) (foreign : owner ≠ some .aesdchar)
    (foreign' : owner' ≠ some .aesdchar) :
    ({ s with regions := Function.update s.regions dev owner' } : AesdModule).Refines device where
  sound := refines.sound
  numbered := by
    have numbered := refines.numbered
    refine ⟨numbered.devno, fun dev' => ?_, numbered.cdev⟩
    have own := numbered.own dev'
    change Function.update s.regions dev owner' dev' = some .aesdchar ↔
      s.pc.registered = true ∧ dev' = s.number
    by_cases same : dev' = dev
    · subst same
      rw [before] at own
      simpa [foreign, foreign'] using own
    · simpa [same] using own
  counted := ⟨refines.counted.count, refines.counted.privateData, refines.counted.attached⟩
  presents := by
    have presents := refines.presents
    cases presents with
    | absent gone journal empty => exact .absent gone journal empty
    | present p here number models files => exact .present p here number models files

/-- Every step shows the users what the device does for them, and keeps the relation. -/
theorem AesdModule.Refines.step {action : ModuleAction} (refines : s.Refines device)
    (step : s.step seek action = some (s', event)) : s'.Follows seek device event := by
  unfold AesdModule.step at step
  rw [if_neg refines.sound] at step
  cases action with
  | insmod address =>
    simp only at step
    split at step
    · rename_i here
      cases step
      exact (refines.insmod here).unseen rfl
    · cases step
  | work answer => exact refines.work step
  | rmmod =>
    simp only at step
    split at step
    · rename_i both
      cases step
      exact refines.rmmod both.1 both.2
    · cases step
  | openFile file node =>
    simp only at step
    split at step
    · rename_i new
      have follows : (s.chrdevOpen file node).1.Follows seek device (s.chrdevOpen file node).2 :=
        refines.chrdevOpen new
      rw [Option.some.injEq] at step
      rw [step] at follows
      exact follows
    · cases step
  | call c =>
    obtain ⟨filp, opened, same⟩ := Option.map_eq_some_iff.mp step
    have follows : (s.callFile seek c filp).1.Follows seek device (s.callFile seek c filp).2 :=
      refines.callFile opened
    rw [same] at follows
    exact follows
  | release file =>
    simp only at step
    split at step
    · cases step
    · rename_i isOpen
      cases step
      exact refines.release isOpen
  | other dev registers =>
    simp only at step
    by_cases before : s.regions dev = if registers then none else some .other
    · rw [if_pos before] at step
      cases step
      refine (refines.other before ?_ ?_).unseen rfl <;> cases registers <;> decide
    · rw [if_neg before] at step
      cases step

theorem initial_refines (garbage : AesdDev) : (AesdModule.initial garbage).Refines none where
  sound := ModulePc.noConfusion
  numbered :=
    { devno := by rintro _ ⟨⟩
      own := fun dev => by simp [AesdModule.initial, ModulePc.registered]
      cdev := rfl }
  counted :=
    { count := ⟨∅, rfl, fun file => by simp [AesdModule.initial]⟩
      privateData := by rintro _ _ ⟨⟩
      attached := fun _ isOpen => absurd rfl isOpen }
  presents := .absent rfl Bool.noConfusion (fun _ => ModulePc.noConfusion)

end Steps

end Aesd
