import Aesd.Device

/-! The module's life: `aesd_init_module`, `aesd_open`, `aesd_release` and `aesd_cleanup_module`, as
often as the module is loaded and unloaded, while other drivers take and give back device numbers.
What an earlier load left on the heap is still there in the next one. -/
namespace Aesd

def enxio : Int := 6

def minorbits : Nat := 20

def mkdev (major minor : Nat) : Nat := major <<< minorbits ||| minor
def majorOf (dev : Nat) : Nat := dev >>> minorbits

def aesdMinor : Nat := 0

inductive Registrant where
  | aesdchar
  | other
  deriving DecidableEq, Repr

/-- A pointer to the member `cdev` of the `struct aesd_dev` at an address. -/
structure CdevPointer where
  container : Nat
  deriving DecidableEq, Repr

def containerOf (cdev : CdevPointer) : Nat := cdev.container

structure OpenFile where
  privateData : Nat
  fpos : Int
  deriving DecidableEq, Repr

/-- Its return value and the file that it has set up; the kernel starts a file at position 0. -/
def aesdOpen (iCdev : CdevPointer) : Int × OpenFile := (0, ⟨containerOf iCdev, 0⟩)

def aesdRelease : Int := 0

/-- What `aesd_init_module` or `aesd_cleanup_module` does next, with its local `dev` or `devno`. -/
inductive ModulePc where
  | unloaded
  | alloc
  | device (dev : Nat)
  | setup (dev : Nat)
  | undo (dev : Nat) (result : Int)
  | entered
  | live
  | del (devno : Nat)
  | free (devno : Nat)
  | unregister (devno : Nat)
  | oops
  deriving DecidableEq, Repr

/-- The module and what the kernel keeps about it. `aesdDevice` is where this load has the variable,
and `cdev` the number under which its member was added. -/
structure AesdModule where
  pc : ModulePc
  aesdMajor : Nat
  aesdDevice : Nat
  kernel : Kernel
  cdev : Option (Nat × CdevPointer)
  regions : Nat → Option Registrant
  refcnt : Nat
  files : Nat → Option OpenFile

/-- What the kernel functions answer: the result of `alloc_chrdev_region` with the major number it
takes, and that of `cdev_add`. -/
inductive ModuleAnswer where
  | region (result : Int) (major : Nat)
  | added (err : Int)
  | quiet
  deriving DecidableEq, Repr

inductive ModuleAction where
  | insmod (address : Nat)
  | work (answer : ModuleAnswer)
  | rmmod
  | openFile (file node : Nat)
  | call (c : Call)
  | release (file : Nat)
  | other (dev : Nat) (registers : Bool)

inductive ModuleEvent where
  | internal
  | other (dev : Nat) (registers : Bool)
  | appeared (number : Nat)
  | opened (file node : Nat) (reply : Reply)
  | called (c : Call) (reply : Reply)
  | released (file : Nat) (reply : Reply)
  | vanished
  | failed (result : Int)
  | oops

def ModulePc.attached : ModulePc → Bool
  | .entered | .live => true
  | _ => false

def AesdModule.goto (s : AesdModule) (pc : ModulePc) : AesdModule := { s with pc }

def AesdModule.fault (s : AesdModule) : AesdModule × ModuleEvent := (s.goto .oops, .oops)

def AesdModule.allocRegion (s : AesdModule) (result : Int) (major : Nat) :
    Option (AesdModule × ModuleEvent) :=
  if result < 0 then some ({ s with pc := .unloaded, aesdMajor := majorOf 0 }, .failed result)
  else
    let dev := mkdev major aesdMinor
    if s.regions dev = none then
      some ({ s with
        pc := .device dev
        aesdMajor := majorOf dev
        regions := Function.update s.regions dev (some .aesdchar) }, .internal)
    else none

def AesdModule.setupCdev (s : AesdModule) (dev : Nat) (err : Int) : AesdModule × ModuleEvent :=
  let devno := mkdev s.aesdMajor aesdMinor
  if err = 0 then
    ({ s with pc := .entered, cdev := some (devno, ⟨s.aesdDevice⟩) }, .appeared devno)
  else (s.goto (.undo dev err), .internal)

def AesdModule.unregisterChrdevRegion (s : AesdModule) (dev : Nat) : AesdModule :=
  { s with pc := .unloaded, regions := Function.update s.regions dev none }

/-- One statement of `aesd_init_module` or `aesd_cleanup_module`. -/
def AesdModule.work (answer : ModuleAnswer) (s : AesdModule) : Option (AesdModule × ModuleEvent) :=
  match s.pc, answer with
  | .alloc, .region result major => s.allocRegion result major
  -- `aesd_device.write_buffer ==NULL` only compares, the pointer is NULL since the `memset`
  | .device dev, .quiet =>
    some ({ s with pc := .setup dev, kernel.dev := aesdInitModule.dev }, .internal)
  | .setup dev, .added err => some (s.setupCdev dev err)
  | .undo dev result, .quiet => some (s.unregisterChrdevRegion dev, .failed result)
  | .entered, .quiet => some (s.goto .live, .internal)
  | .del devno, .quiet =>
    if s.cdev.isSome then some ({ s with pc := .free devno, cdev := none }, .internal)
    else some s.fault
  | .free devno, .quiet =>
    match aesdCleanupModule s.kernel with
    | some kernel => some ({ s with pc := .unregister devno, kernel }, .internal)
    | none => some s.fault
  | .unregister devno, .quiet => some (s.unregisterChrdevRegion devno, .internal)
  | _, _ => none

/-- `chrdev_open`: the node's number leads to a `cdev`, whose owner must not be on its way out. -/
def AesdModule.chrdevOpen (s : AesdModule) (file node : Nat) : AesdModule × ModuleEvent :=
  let refused := (s, ModuleEvent.opened file node ⟨-enxio, []⟩)
  match s.cdev with
  | some (number, iCdev) =>
    if number = node ∧ s.pc.attached = true then
      let (ret, filp) := aesdOpen iCdev
      ({ s with
        refcnt := s.refcnt + 1
        files := Function.update s.files file (some filp) }, .opened file node ⟨ret, []⟩)
    else refused
  | none => refused

/-- The file's operation works on the device that `private_data` points to. -/
def AesdModule.callFile (fixedSizeLlseek : Int → Int → Int → Int → Int) (s : AesdModule) (c : Call)
    (filp : OpenFile) : AesdModule × ModuleEvent :=
  if s.pc ≠ .unloaded ∧ filp.privateData = s.aesdDevice then
    match c.operate fixedSizeLlseek filp.fpos s.kernel with
    | some r =>
      ({ s with
        kernel := r.kernel
        files := Function.update s.files c.file (some { filp with fpos := r.fpos }) },
        .called c ⟨r.ret, r.delivered⟩)
    | none => s.fault
  else s.fault

/-- `rmmod` is refused as long as a file is open, and other drivers give back their own numbers. -/
def AesdModule.step (fixedSizeLlseek : Int → Int → Int → Int → Int) (action : ModuleAction)
    (s : AesdModule) : Option (AesdModule × ModuleEvent) :=
  if s.pc = .oops then none
  else match action with
  | .insmod address =>
    if s.pc = .unloaded then
      some ({ s with pc := .alloc, aesdMajor := 0, aesdDevice := address }, .internal)
    else none
  | .work answer => s.work answer
  | .rmmod =>
    if s.pc = .live ∧ s.refcnt = 0 then
      some (s.goto (.del (mkdev s.aesdMajor aesdMinor)), .vanished)
    else none
  | .openFile file node => if s.files file = none then some (s.chrdevOpen file node) else none
  | .call c => (s.files c.file).map (s.callFile fixedSizeLlseek c)
  | .release file =>
    if s.files file = none then none
    else some ({ s with
      refcnt := s.refcnt - 1
      files := Function.update s.files file none }, .released file ⟨aesdRelease, []⟩)
  | .other dev registers =>
    if s.regions dev = (if registers then none else some .other) then
      some ({ s with
        regions := Function.update s.regions dev (if registers then some .other else none) },
        .other dev registers)
    else none

/-- Before the first `insmod`; `garbage` lies where the variable will be. -/
def AesdModule.initial (garbage : AesdDev) : AesdModule where
  pc := .unloaded
  aesdMajor := 0
  aesdDevice := 0
  kernel := ⟨.empty, garbage⟩
  cdev := none
  regions _ := none
  refcnt := 0
  files _ := none

@[simp] theorem majorOf_mkdev (major : Nat) : majorOf (mkdev major aesdMinor) = major := by
  simp [majorOf, mkdev, aesdMinor]

end Aesd
