import Aesd.Balance
import Aesd.Mutex

/-! When the next call of a thread that runs by itself can succeed. A thread to which no call
has failed is poised for its next step, and stays so as long as no call fails. -/
namespace Aesd

variable {id fd n : Nat} {answer : Answer} {h h' : Handler} {s s' : Shared} {event : Event}
  {j : Journal}

def Shared.Roomy (s : Shared) : Prop := ∃ limit, ∀ n, limit ≤ n → s.files n = none

/-- The thread works with an open data file; in the data branch it may write to it. -/
def Pc.Works (pc : Pc) (s : Shared) : Prop :=
  pc.working = true → ∃ n fpos writable, pc.current s.dataFileDescriptor = some n ∧
    s.files n = some (.data fpos writable) ∧ (pc.branch = some .data → writable = true)

/-- What the next call of the thread needs. -/
structure Poised (id : Nat) (h : Handler) (s : Shared) : Prop where
  device : ∃ j, Models s.kernel j
  roomy : s.Roomy
  lock : s.lock = if h.pc.critical then some id else none
  works : h.pc.Works s
  loaded : ∀ use cur, h.pc = .use use cur → s.dataFileDescriptor = cur
  client : h.pc.attached = true → s.files h.clientSocketFd = some .socket

theorem Frame.data (frame : Frame s s') {fpos : Int} {writable : Bool}
    (file : s.files n = some (.data fpos writable)) :
    ∃ fpos', s'.files n = some (.data fpos' writable) := by
  have kind := frame.kind n
  rw [file] at kind
  obtain ⟨description, after, same⟩ := Option.map_eq_some_iff.mp kind
  cases description with
  | data fpos' writable' =>
    cases same
    exact ⟨fpos', after⟩
  | socket => cases same

theorem Frame.socket (frame : Frame s s') (file : s.files n = some .socket) :
    s'.files n = some .socket := by
  have kind := frame.kind n
  rw [file] at kind
  obtain ⟨description, after, same⟩ := Option.map_eq_some_iff.mp kind
  cases description with
  | data fpos writable => cases same
  | socket => exact after

theorem Frame.roomy (frame : Frame s s') (roomy : s.Roomy) : s'.Roomy := by
  obtain ⟨limit, free⟩ := roomy
  refine ⟨limit, fun n beyond => ?_⟩
  have kind := frame.kind n
  rw [free n beyond] at kind
  exact Option.map_eq_none_iff.mp kind

theorem Shared.Roomy.close (roomy : s.Roomy) (cur : Option Nat) : (s.close cur).Roomy := by
  obtain ⟨limit, free⟩ := roomy
  refine ⟨limit, fun n beyond => ?_⟩
  cases cur with
  | none => exact free n beyond
  | some m =>
    by_cases same : n = m
    · rw [same]
      exact setFile_same _ _ _
    · exact (setFile_other _ _ same).trans (free n beyond)

theorem Shared.Roomy.opened (roomy : s.Roomy) (m : Nat) (d : Option Description) :
    Shared.Roomy { s with files := setFile s.files m d } := by
  obtain ⟨limit, free⟩ := roomy
  refine ⟨max limit (m + 1), fun n beyond => ?_⟩
  have different : n ≠ m := by omega
  exact (setFile_other _ _ different).trans (free n (by omega))

theorem Advance.device (step : Advance id h s answer h' s' event) (models : Models s.kernel j) :
    ∃ j', Models s'.kernel j' := by
  cases step with
  | ioctl env cur here call => exact ⟨j, (Shared.ioctl_frame call).2 j models⟩
  | write env socket cur ok here call =>
    rcases Shared.write_journal models call with ⟨_, fill, after⟩ | ⟨_, j', after, _⟩ | ⟨_, rfl, _⟩
    · exact ⟨_, after⟩
    · exact ⟨j', after⟩
    · exact ⟨j, models⟩
  | readFailed env socket cur here call | read env socket cur bytes here call =>
    exact ⟨j, (Shared.read_frame call).2 j models⟩
  | closeData cur here | closeEnd cur here | closeSocket here =>
    exact ⟨j, by rwa [Shared.close_kernel]⟩
  | _ => exact ⟨j, models⟩

theorem Advance.roomy (step : Advance id h s answer h' s' event) (roomy : s.Roomy) :
    s'.Roomy := by
  cases step with
  | opened phase m here free => exact roomy.opened m _
  | ioctl env cur here call => exact (Shared.ioctl_frame call).1.roomy roomy
  | write env socket cur ok here call => exact (Shared.write_frame call).roomy roomy
  | readFailed env socket cur here call | read env socket cur bytes here call =>
    exact (Shared.read_frame call).1.roomy roomy
  | closeData cur here | closeEnd cur here | closeSocket here => exact roomy.close _
  | _ => exact roomy

theorem Poised.keepsLock (poised : Poised id h s) (step : Advance id h s answer h' s' event)
    (fine : event.failed = false) : s'.lock = if h'.pc.critical then some id else none := by
  have before := poised.lock
  obtain ⟨_, effect⟩ := step.lockEffect
  cases effect with
  | keep same critical finished clean => rw [same, before, critical]
  | acquire free taken critical finished clean => rw [taken, critical, if_pos rfl]
  | release inside given critical clean => rw [given, critical, if_neg Bool.false_ne_true]
  | abandon inside same critical finished fails =>
    cases event with
    | wrote id cur ok consumed committed =>
      cases ok with
      | true => cases fails
      | false => cases fine
    | fetched id cur ok =>
      cases ok with
      | true => cases fails
      | false => cases fine
    | _ => cases fails

theorem Pc.Works.keep (works : h.pc.Works s) {pc : Pc} (here : h.pc = pc)
    (working : pc.working = true)
    (current : h'.pc.current s'.dataFileDescriptor = pc.current s.dataFileDescriptor)
    (files : ∀ n fpos writable, s.files n = some (.data fpos writable) →
      ∃ fpos', s'.files n = some (.data fpos' writable))
    (branch : h'.pc.branch = some .data → pc.branch = some .data) : h'.pc.Works s' := by
  subst here
  intro _
  obtain ⟨n, fpos, writable, mine, file, writes⟩ := works working
  obtain ⟨fpos', after⟩ := files n fpos writable file
  exact ⟨n, fpos', writable, current.trans mine, after, fun inside => writes (branch inside)⟩

theorem Pc.Works.idle {pc : Pc} (idle : pc.working = false) : pc.Works s := by
  intro working
  rw [idle] at working
  cases working

theorem Phase.checked_known (phase : Phase) (n : Nat) :
    (phase.checked (some n)).current (some n) = some n ∧
      ((phase.checked (some n)).branch = some .data → phase = .data) := by
  cases phase with
  | data => exact ⟨rfl, fun _ => rfl⟩
  | seek => exact ⟨rfl, fun inside => by cases inside⟩
  | reply => exact ⟨rfl, fun inside => by cases inside⟩

theorem Poised.keepsWorks (poised : Poised id h s) (routed : h.Routed)
    (step : Advance id h s answer h' s' event) (fine : event.failed = false) : h'.pc.Works s' := by
  have works := poised.works
  have same : ∀ n fpos writable, s.files n = some (.data fpos writable) →
      ∃ fpos', s.files n = some (.data fpos' writable) := fun _ fpos _ file => ⟨fpos, file⟩
  cases step with
  | recvFailed stack beyond here | openFailed phase here | readFailed env socket cur here call
  | sendFailed here => cases fine
  | recv bytes stack beyond here fits => exact .idle rfl
  | opened phase m here free =>
    intro _
    refine ⟨m, 0, phase.writable, rfl, setFile_same _ _ _, fun inside => ?_⟩
    cases phase with
    | data => rfl
    | seek => cases inside
    | reply => cases inside
  | assign phase cur here =>
    refine works.keep here rfl rfl same ?_
    cases phase <;> exact fun inside => inside
  | check phase here =>
    rw [here] at works
    obtain ⟨n, fpos, writable, mine, file, writes⟩ := works rfl
    have known : s.dataFileDescriptor = some n := mine
    intro _
    dsimp only
    rw [known]
    obtain ⟨current, inside⟩ := phase.checked_known n
    exact ⟨n, fpos, writable, current, file, fun branch => writes (by rw [inside branch]; rfl)⟩
  | lock phase here free =>
    refine works.keep here rfl rfl same ?_
    cases phase <;> exact fun inside => inside
  | load use here =>
    refine works.keep here rfl rfl same ?_
    cases use <;> exact fun inside => inside
  | ioctl env cur here call =>
    have frame := (Shared.ioctl_frame call).1
    have current := frame.dataFileDescriptor.trans (poised.loaded .ioctl cur here)
    rcases nextIteration_pc h with next | ⟨_, next⟩ | ⟨_, next⟩
    · exact .idle (by rw [next]; rfl)
    · exact .idle (by rw [next]; rfl)
    · refine works.keep here rfl ?_ (fun _ _ _ file => frame.data file) ?_
      · rw [next]
        exact current
      · rw [next]
        intro inside
        cases inside
  | write env socket cur ok here call =>
    cases ok with
    | false => cases fine
    | true =>
      have frame := Shared.write_frame call
      exact works.keep here rfl (frame.dataFileDescriptor.trans (poised.loaded .write cur here))
        (fun _ _ _ file => frame.data file) (fun inside => inside)
  | closeData cur here =>
    have plain : h.seeks = false := routed.2 (by rw [here]; rfl)
    rcases nextIteration_pc h with next | ⟨_, next⟩ | ⟨seeks, _⟩
    · exact .idle (by rw [next]; rfl)
    · exact .idle (by rw [next]; rfl)
    · cases plain.symm.trans seeks
  | read env socket cur bytes here call =>
    have frame := (Shared.read_frame call).1
    refine works.keep here rfl (frame.dataFileDescriptor.trans (poised.loaded .read cur here))
      (fun _ _ _ file => frame.data file) ?_
    intro inside
    cases inside
  | closeEnd cur here => exact .idle rfl
  | unlock phase here =>
    refine works.keep here rfl ?_ same ?_
    · cases phase <;> rfl
    · cases phase <;> intro inside <;> first | rfl | cases inside
  | send count here =>
    refine works.keep here rfl ?_ same ?_
    · dsimp only
      split <;> rfl
    · dsimp only
      split <;> intro inside <;> cases inside
  | closeSocket here =>
    have client := poised.client (by rw [here]; rfl)
    rw [here] at works
    obtain ⟨n, fpos, writable, mine, file, _⟩ := works rfl
    have different : n ≠ h.clientSocketFd := by
      rintro rfl
      cases client.symm.trans file
    intro _
    exact ⟨n, fpos, writable, mine, (setFile_other _ _ different).trans file,
      fun inside => by cases inside⟩
  | complete here =>
    refine works.keep here rfl rfl same ?_
    intro inside
    cases inside

theorem Advance.loaded (step : Advance id h s answer h' s' event) {use : Use} {cur : Option Nat}
    (here : h'.pc = .use use cur) : s'.dataFileDescriptor = cur := by
  cases step with
  | load use' before =>
    cases here
    rfl
  | ioctl env fd before call | closeData fd before =>
    rcases nextIteration_pc h with next | ⟨_, next⟩ | ⟨_, next⟩ <;> cases next.symm.trans here
  | check phase before =>
    rcases phase.checked_cases s.dataFileDescriptor with next | ⟨_, _, _, unused, _⟩
    · cases next.symm.trans here
    · exact absurd here (unused use cur)
  | write env socket fd ok before call => cases ok <;> cases here
  | unlock phase before => cases phase <;> cases here
  | send count before =>
    dsimp only at here
    split at here <;> cases here
  | _ => cases here

theorem Poised.apart (poised : Poised id h s) (attached : h.pc.attached = true)
    (working : h.pc.working = true) (current : h.pc.current s.dataFileDescriptor = some n) :
    h.clientSocketFd ≠ n := by
  obtain ⟨m, fpos, writable, mine, file, _⟩ := poised.works working
  cases current.symm.trans mine
  rintro rfl
  cases (poised.client attached).symm.trans file

theorem Poised.keepsClient (poised : Poised id h s) (step : Advance id h s answer h' s' event)
    (attached : h'.pc.attached = true) : s'.files h'.clientSocketFd = some .socket := by
  have client := poised.client
  cases step with
  | opened phase m here free =>
    rw [here] at client
    have different : h.clientSocketFd ≠ m := by
      rintro rfl
      cases (client rfl).symm.trans free
    exact (setFile_other _ _ different).trans (client rfl)
  | closeData cur here =>
    cases cur with
    | none => exact client (by rw [here]; rfl)
    | some m =>
      have different : h.clientSocketFd ≠ m :=
        poised.apart (by rw [here]; rfl) (by rw [here]; rfl) (by rw [here]; rfl)
      exact (setFile_other _ _ different).trans (client (by rw [here]; rfl))
  | ioctl env cur here call =>
    rw [here] at client
    exact (Shared.ioctl_frame call).1.socket (client rfl)
  | write env socket cur ok here call =>
    rw [here] at client
    exact (Shared.write_frame call).socket (client rfl)
  | readFailed env socket cur here call | read env socket cur bytes here call =>
    rw [here] at client
    exact (Shared.read_frame call).1.socket (client rfl)
  | closeEnd cur here | closeSocket here | complete here => cases attached
  | load use here =>
    apply client
    rw [here]
    cases use with
    | closeEnd => cases attached
    | _ => rfl
  | _ => exact client (by simp_all [Pc.attached])

/-- As long as no call fails, the thread stays poised. -/
theorem Poised.step (poised : Poised id h s) (routed : h.Routed)
    (step : Advance id h s answer h' s' event) (fine : event.failed = false) :
    Poised id h' s' where
  device := by
    obtain ⟨j, models⟩ := poised.device
    exact step.device models
  roomy := step.roomy poised.roomy
  lock := poised.keepsLock step fine
  works := poised.keepsWorks routed step fine
  loaded _ _ := step.loaded
  client := poised.keepsClient step

def Event.healthy : Event → Bool
  | .sent _ bytes count => count == some bytes.length
  | event => !event.failed

theorem Event.healthy_fine (healthy : event.healthy = true) : event.failed = false := by
  cases event with
  | sent id bytes count =>
    cases count with
    | none => cases healthy
    | some count => rfl
  | _ => simpa [Event.healthy] using healthy

theorem Journal.read_nonneg (j : Journal) (count : Nat) (fpos : Int) :
    0 ≤ (j.read .success true true count fpos).ret := by
  simp only [read, ReadEnv.success, Bool.and_self, if_true]
  split <;> simp

theorem Shared.read_total (models : Models s.kernel j) {fpos : Int} {writable : Bool}
    (file : s.files n = some (.data fpos writable)) :
    ∃ bytes s', s.read .success none (some n) = some (some bytes, s') := by
  obtain ⟨r, result, refines⟩ := aesdRead_refines models .success true true bufLen fpos
  have fine : 0 ≤ r.ret := refines.ret ▸ j.read_nonneg bufLen fpos
  refine ⟨r.delivered, (s.returned n writable r).2, ?_⟩
  simp only [Shared.read, lookup_of_file file, result, Option.map_some, Shared.returned, fine,
    decide_true, if_true]

theorem Shared.write_total {chunk : List Byte} (models : Models s.kernel j) {fpos : Int}
    (file : s.files n = some (.data fpos true)) (ok : Succeeds .success s.kernel chunk) :
    ∃ s', s.write .success false (some n) chunk = some (true, s') := by
  obtain ⟨k', result, _⟩ := aesdWrite_accepts models ok fpos
  have fine : (0 : Int) ≤ appendIndex chunk := Int.natCast_nonneg _
  let returned : Return := ⟨appendIndex chunk, fpos + appendIndex chunk, [], k'⟩
  refine ⟨(s.returned n true returned).2, ?_⟩
  simp only [Shared.write, lookup_of_file file, result, Option.map_some, Shared.returned, fine,
    decide_true, returned]

theorem Shared.ioctl_total (models : Models s.kernel j) (cur : Option Nat) (seekto : Seekto) :
    ∃ s', s.ioctl .success cur seekto = some s' := by
  unfold Shared.ioctl
  split
  · rename_i m fpos writable found
    obtain ⟨r, result, _⟩ := aesdIoctl_refines models .success aesdcharIocseekto seekto fpos
    exact ⟨_, by rw [result, Option.map_some]⟩
  · exact ⟨s, rfl⟩

/-- The thread `id` can go on with a healthy step; a `recv` delivers `bytes` there. -/
def CanGoOn (id : Nat) (bytes : List Byte) (h : Handler) (s : Shared) : Prop :=
  ∃ answer h' s' event, threadStep id answer (h, s) = some ((h', s'), event) ∧
    event.healthy = true ∧ event.result.map Prod.fst = if h.pc = .recv then [bytes] else []

theorem CanGoOn.of_advance {bytes : List Byte} {pc : Pc} (here : h.pc = pc)
    (step : Advance id h s answer h' s' event) (healthy : event.healthy = true)
    (result : event.result.map Prod.fst = if pc = .recv then [bytes] else []) :
    CanGoOn id bytes h s := by
  subst here
  exact ⟨answer, h', s', event, by rw [threadStep, step.taken, Option.map_some], healthy, result⟩

/-- A poised thread that is running and has room in the device for what it writes can go on. -/
theorem Poised.progress (poised : Poised id h s) (started : h.pc ≠ .idle)
    (running : h.pc.finished = false) (bytes : List Byte) (fits : bytes.length ≤ bufLen)
    (writes : ∀ cur, h.pc = .use .write cur → Succeeds .success s.kernel h.chunk) :
    CanGoOn id bytes h s := by
  obtain ⟨j, models⟩ := poised.device
  have works := poised.works
  cases here : h.pc with
  | idle => exact absurd here started
  | returned ok =>
    rw [here] at running
    cases running
  | recv => exact .of_advance here (.recv bytes ⟨0, 0⟩ [] here fits) rfl rfl
  | opening phase =>
    obtain ⟨limit, free⟩ := poised.roomy
    exact .of_advance here (.opened phase limit here (free limit (Nat.le_refl limit))) rfl rfl
  | assign phase cur => exact .of_advance here (.assign phase cur here) rfl rfl
  | check phase => exact .of_advance here (.check phase here) rfl rfl
  | lock phase =>
    have free : s.lock = none := by simpa [here, Pc.critical] using poised.lock
    exact .of_advance here (.lock phase here free) rfl rfl
  | load use => exact .of_advance here (.load use here) rfl rfl
  | use use cur =>
    rw [here] at works
    obtain ⟨n, fpos, writable, mine, file, writing⟩ := works rfl
    have given : cur = some n := mine
    subst given
    cases use with
    | ioctl =>
      obtain ⟨s', call⟩ := Shared.ioctl_total models (some n) h.seekto
      exact .of_advance here (.ioctl .success _ here call) rfl rfl
    | write =>
      obtain rfl := writing rfl
      obtain ⟨s', call⟩ := Shared.write_total models file (writes (some n) here)
      exact .of_advance here (.write .success false _ true here call) rfl rfl
    | closeData => exact .of_advance here (.closeData _ here) rfl rfl
    | read =>
      obtain ⟨delivered, s', call⟩ := Shared.read_total models file
      exact .of_advance here (.read .success none _ delivered here call) rfl rfl
    | closeEnd => exact .of_advance here (.closeEnd _ here) rfl rfl
  | unlock phase => exact .of_advance here (.unlock phase here) rfl rfl
  | send =>
    refine .of_advance here (.send (h.sendBuffer.take h.bytesFromFile).length here) ?_ rfl
    simp [Event.healthy]
  | closeSocket => exact .of_advance here (.closeSocket here) rfl rfl
  | complete => exact .of_advance here (.complete here) rfl rfl

end Aesd
