import Aesd.Server

/-! What the steps of the server can do. `Advance` lists the steps of one handler; every
invariant of the server is proved by a case analysis over it. The calls on descriptors
change the device only as the driver's operations do. -/
namespace Aesd

inductive Advance (id : Nat) (h : Handler) (s : Shared) :
    Answer → Handler → Shared → Event → Prop
  | recvFailed (stack : Seekto) (beyond : List Byte) (here : h.pc = .recv) :
      Advance id h s (.recv none stack beyond) { h with pc := .returned false } s
        (.received id none none)
  | recv (bytes : List Byte) (stack : Seekto) (beyond : List Byte) (here : h.pc = .recv)
      (fits : bytes.length ≤ bufLen) :
      Advance id h s (.recv (some bytes) stack beyond) (h.receive bytes stack beyond) s
        (.received id (some bytes) (if (h.receive bytes stack beyond).seeks then
          some (h.receive bytes stack beyond).seekto else none))
  | openFailed (phase : Phase) (here : h.pc = .opening phase) :
      Advance id h s (.opened none) { h with pc := .assign phase none } s (.opened id none)
  | opened (phase : Phase) (fd : Nat) (here : h.pc = .opening phase) (free : s.files fd = none) :
      Advance id h s (.opened (some fd)) { h with pc := .assign phase (some fd) }
        { s with files := setFile s.files fd (some (.data 0 phase.writable)) } (.opened id (some fd))
  | assign (phase : Phase) (fd : Option Nat) (here : h.pc = .assign phase fd) :
      Advance id h s .quiet { h with pc := .check phase } { s with dataFileDescriptor := fd }
        (.assigned id fd)
  | check (phase : Phase) (here : h.pc = .check phase) :
      Advance id h s .quiet { h with pc := phase.checked s.dataFileDescriptor } s (.checked id)
  | lock (phase : Phase) (here : h.pc = .lock phase) (free : s.lock = none) :
      Advance id h s .quiet { h with pc := .load (if phase = .data then .write else .read) }
        { s with lock := some id } (.locked id)
  | load (use : Use) (here : h.pc = .load use) :
      Advance id h s .quiet { h with pc := .use use s.dataFileDescriptor } s
        (.loaded id s.dataFileDescriptor)
  | ioctl (env : ReadEnv) (fd : Option Nat) {s' : Shared} (here : h.pc = .use .ioctl fd)
      (call : s.ioctl env fd h.seekto = some s') :
      Advance id h s (.ioctl env) h.nextIteration s' (.sought id fd h.seekto)
  | write (env : WriteEnv) (socket : Bool) (fd : Option Nat) (ok : Bool) {s' : Shared}
      (here : h.pc = .use .write fd) (call : s.write env socket fd h.chunk = some (ok, s')) :
      Advance id h s (.write env socket)
        { h with pc := if ok then .unlock .data else .returned false } s'
        (.wrote id fd ok (s.kernel.consumed s'.kernel) (s.kernel.committed s'.kernel))
  | closeData (fd : Option Nat) (here : h.pc = .use .closeData fd) :
      Advance id h s .quiet h.nextIteration (s.close fd) (.closed id fd)
  | readFailed (env : ReadEnv) (socket : Option (List Byte)) (fd : Option Nat) {s' : Shared}
      (here : h.pc = .use .read fd) (call : s.read env socket fd = some (none, s')) :
      Advance id h s (.read env socket) { h with pc := .returned false } s' (.fetched id fd false)
  | read (env : ReadEnv) (socket : Option (List Byte)) (fd : Option Nat) (bytes : List Byte)
      {s' : Shared}
      (here : h.pc = .use .read fd) (call : s.read env socket fd = some (some bytes, s')) :
      Advance id h s (.read env socket)
        { h with
          pc := .unlock .reply
          sendBuffer := overlay h.sendBuffer bytes
          bytesFromFile := bytes.length } s' (.fetched id fd true)
  | closeEnd (fd : Option Nat) (here : h.pc = .use .closeEnd fd) :
      Advance id h s .quiet { h with pc := .returned true } (s.close fd) (.closed id fd)
  | unlock (phase : Phase) (here : h.pc = .unlock phase) :
      Advance id h s .quiet { h with pc := if phase = .data then .load .closeData else .send }
        { s with lock := none } (.unlocked id)
  | sendFailed (here : h.pc = .send) :
      Advance id h s (.send none) { h with pc := .returned false } s
        (.sent id (h.sendBuffer.take h.bytesFromFile) none)
  | send (count : Nat) (here : h.pc = .send) :
      Advance id h s (.send (some count))
        { h with pc := if 0 < h.bytesFromFile then .lock .reply else .closeSocket } s
        (.sent id (h.sendBuffer.take h.bytesFromFile) (some count))
  | closeSocket (here : h.pc = .closeSocket) :
      Advance id h s .quiet { h with pc := .complete } (s.close (some h.clientSocketFd))
        (.socketClosed id h.clientSocketFd)
  | complete (here : h.pc = .complete) :
      Advance id h s .quiet { h with pc := .load .closeEnd, isThreadComplete := true } s
        (.completed id)

variable {id : Nat} {answer : Answer} {h h' : Handler} {s s' : Shared} {event : Event}

theorem advance_cases (result : advance id answer h s = some (h', s', event)) :
    Advance id h s answer h' s' event := by
  unfold advance at result
  split at result
  · rename_i stack beyond here
    cases result
    exact .recvFailed stack beyond here
  · rename_i bytes stack beyond here
    split at result
    · rename_i fits
      cases result
      exact .recv bytes stack beyond here fits
    · cases result
  · rename_i phase here
    cases result
    exact .openFailed phase here
  · rename_i phase fd here
    split at result
    · rename_i free
      cases result
      exact .opened phase fd here (Option.isNone_iff_eq_none.mp free)
    · cases result
  · rename_i phase fd here
    cases result
    exact .assign phase fd here
  · rename_i phase here
    cases result
    exact .check phase here
  · rename_i phase here
    split at result
    · rename_i free
      cases result
      exact .lock phase here (Option.isNone_iff_eq_none.mp free)
    · cases result
  · rename_i use here
    cases result
    exact .load use here
  · rename_i fd env here
    obtain ⟨_, call, same⟩ := Option.map_eq_some_iff.mp result
    cases same
    exact .ioctl env fd here call
  · rename_i fd env socket here
    obtain ⟨⟨ok, _⟩, call, same⟩ := Option.map_eq_some_iff.mp result
    cases same
    exact .write env socket fd ok here call
  · rename_i fd here
    cases result
    exact .closeData fd here
  · rename_i fd env socket here
    obtain ⟨⟨delivered, _⟩, call, same⟩ := Option.map_eq_some_iff.mp result
    cases delivered with
    | none =>
      cases same
      exact .readFailed env socket fd here call
    | some bytes =>
      cases same
      exact .read env socket fd bytes here call
  · rename_i fd here
    cases result
    exact .closeEnd fd here
  · rename_i phase here
    cases result
    exact .unlock phase here
  · rename_i here
    cases result
    exact .sendFailed here
  · rename_i count here
    cases result
    exact .send count here
  · rename_i here
    cases result
    exact .closeSocket here
  · rename_i here
    cases result
    exact .complete here
  · cases result

theorem Advance.taken (step : Advance id h s answer h' s' event) :
    advance id answer h s = some (h', s', event) := by
  cases step with
  | recv bytes stack beyond here fits => simp only [advance, here, if_pos fits]
  | opened phase fd here free => simp only [advance, here, free, Option.isNone_none, if_true]
  | lock phase here free => simp only [advance, here, free, Option.isNone_none, if_true]
  | ioctl env fd here call => simp only [advance, here, call, Option.map_some]
  | write env socket fd ok here call => simp only [advance, here, call, Option.map_some]
  | readFailed env socket fd here call => simp only [advance, here, call, Option.map_some]
  | read env socket fd bytes here call => simp only [advance, here, call, Option.map_some]
  | recvFailed stack beyond here | openFailed phase here | assign phase fd here | check phase here
  | load use here | closeData fd here | closeEnd fd here | unlock phase here | sendFailed here
  | send count here | closeSocket here | complete here => simp only [advance, here]

@[simp] theorem update_shared (s : Server) : (s.update id h shared).shared = shared := rfl

@[simp] theorem update_handler (s : Server) : (s.update id h shared).handler id = h := by
  simp [Server.update, setHandler]

@[simp] theorem update_other (s : Server) (different : other ≠ id) :
    (s.update id h shared).handler other = s.handler other := by
  simp [Server.update, setHandler, different]

/-- What holds of the handler that took the step, and of every other one, holds of all. -/
theorem update_all {P : Nat → Handler → Prop} {s : Server} (own : P id h)
    (others : ∀ x, x ≠ id → P x (s.handler x)) (x : Nat) :
    P x ((s.update id h shared).handler x) := by
  by_cases self : x = id
  · subst self
    rwa [update_handler]
  · rw [update_other _ self]
    exact others x self

@[simp] theorem setFile_same (files : Nat → Option Description) (fd : Nat)
    (d : Option Description) : setFile files fd d fd = d := by simp [setFile]

@[simp] theorem setFile_other (files : Nat → Option Description) (d : Option Description)
    (different : other ≠ fd) : setFile files fd d other = files other := by simp [setFile, different]

theorem Advance.served {s : Server} (step : Advance id (s.handler id) s.shared answer h' s' event) :
    Server.step (.run id answer) s = some (s.update id h' s', event) := by
  rw [Server.step, step.taken, Option.map_some]

theorem step_cases {action : Action} {s s' : Server}
    (result : Server.step action s = some (s', event)) :
    (∃ id fd, action = .accept id fd ∧ (s.handler id).pc = .idle ∧ s.shared.files fd = none ∧
      s' = s.update id (.fresh fd)
        { s.shared with files := setFile s.shared.files fd (some .socket) } ∧
      event = .accepted id fd) ∨
    (∃ id answer h' shared, action = .run id answer ∧
      Advance id (s.handler id) s.shared answer h' shared event ∧
      s' = s.update id h' shared) := by
  cases action with
  | accept id fd =>
    left
    simp only [Server.step] at result
    split at result
    · rename_i guard
      cases result
      exact ⟨id, fd, rfl, guard.1, Option.isNone_iff_eq_none.mp guard.2, rfl, rfl⟩
    · cases result
  | run id answer =>
    right
    obtain ⟨⟨h', shared, e⟩, one, same⟩ := Option.map_eq_some_iff.mp result
    cases same
    exact ⟨id, answer, h', shared, rfl, advance_cases one, rfl⟩

theorem lookup_some (found : s.lookup fd = some (n, d)) : fd = some n ∧ s.files n = some d := by
  obtain ⟨m, given, entry⟩ := Option.bind_eq_some_iff.mp found
  obtain ⟨d', file, same⟩ := Option.map_eq_some_iff.mp entry
  cases same
  exact ⟨given, file⟩

theorem lookup_of_file (file : s.files n = some d) : s.lookup (some n) = some (n, d) := by
  simp [Shared.lookup, file]

/-- A `write` reaches the device through a writable descriptor of it, or changes nothing. -/
theorem Shared.write_cases {ok : Bool} (call : s.write env socket fd bytes = some (ok, s')) :
    (∃ n fpos r, fd = some n ∧ s.files n = some (.data fpos true) ∧
      aesdWrite env true (some bytes) fpos s.kernel = some r ∧ ok = decide (0 ≤ r.ret) ∧
      s' = (s.returned n true r).2) ∨
    (s' = s ∧ (∀ n fpos, fd = some n → s.files n ≠ some (.data fpos true)) ∧
      (ok = true → ∃ n, fd = some n ∧ s.files n = some .socket)) := by
  simp only [Shared.write] at call
  split at call
  · rename_i n fpos found
    obtain ⟨r, result, same⟩ := Option.map_eq_some_iff.mp call
    obtain ⟨given, file⟩ := lookup_some found
    cases same
    exact .inl ⟨n, fpos, r, given, file, result, rfl, rfl⟩
  · rename_i n found
    obtain ⟨given, file⟩ := lookup_some found
    cases call
    refine .inr ⟨rfl, ?_, fun _ => ⟨n, given, file⟩⟩
    intro m fpos other data
    rw [given] at other
    cases other
    rw [file] at data
    cases data
  · rename_i unwritable _
    cases call
    refine .inr ⟨rfl, ?_, fun success => Bool.noConfusion success⟩
    rintro n fpos rfl file
    exact unwritable n fpos (lookup_of_file file)

/-- A `write` makes the device take a first part of the bytes, fails with the committed
commands as they were, or goes to a socket. -/
theorem Shared.write_journal {ok : Bool} {j : Journal} (models : Models s.kernel j)
    (call : s.write env socket fd bytes = some (ok, s')) :
    (ok = true ∧ ∃ fill, Models s'.kernel (j.accept fill bytes)) ∨
    (ok = false ∧ ∃ j', Models s'.kernel j' ∧ j'.history = j.history) ∨
    (ok = true ∧ s' = s ∧ ∃ n, s.lookup fd = some (n, .socket)) := by
  rcases Shared.write_cases call with ⟨n, fpos, r, _, _, result, rfl, rfl⟩ | ⟨rfl, _, connected⟩
  · obtain ⟨r', result', refines⟩ := aesdWrite_refines models env true (some bytes) fpos
    rw [result, Option.some.injEq] at result'
    subst result'
    obtain ⟨ret, _, _, after⟩ := refines
    rcases j.write_cases env true (some bytes) fpos with ⟨value, negative, _, outcome⟩ |
      ⟨chunk, reaches, ⟨_, outcome⟩ | ⟨_, outcome⟩⟩
    · rw [outcome] at ret after
      exact .inr (.inl ⟨by simpa [ret] using negative, j, after, rfl⟩)
    · rw [outcome] at ret after
      exact .inr (.inl ⟨by simp [ret, enomem], _, after, rfl⟩)
    · cases reaches.buf
      rw [outcome] at ret after
      exact .inl ⟨by simp [ret], env.buffer.fill, after⟩
  · cases ok with
    | false => exact .inr (.inl ⟨rfl, j, models, rfl⟩)
    | true =>
      obtain ⟨n, rfl, file⟩ := connected rfl
      exact .inr (.inr ⟨rfl, rfl, n, lookup_of_file file⟩)

def Description.kind : Description → Option Bool
  | .data _ writable => some writable
  | .socket => none

/-- A call through a descriptor leaves the mutex, the global and the kinds of descriptors. -/
structure Frame (s s' : Shared) : Prop where
  lock : s'.lock = s.lock
  dataFileDescriptor : s'.dataFileDescriptor = s.dataFileDescriptor
  kind : ∀ n, (s'.files n).map Description.kind = (s.files n).map Description.kind

theorem Frame.refl (s : Shared) : Frame s s := ⟨rfl, rfl, fun _ => rfl⟩

theorem frame_returned (file : s.files n = some (.data fpos writable)) (r : Return) :
    Frame s (s.returned n writable r).2 where
  lock := rfl
  dataFileDescriptor := rfl
  kind other := by
    by_cases same : other = n
    · simp [Shared.returned, same, file, Description.kind]
    · simp [Shared.returned, same]

theorem Shared.write_frame {ok : Bool} (call : s.write env socket fd bytes = some (ok, s')) :
    Frame s s' := by
  rcases Shared.write_cases call with ⟨n, fpos, r, _, file, _, _, rfl⟩ | ⟨rfl, _⟩
  · exact frame_returned file r
  · exact .refl _

theorem aesdRead_journal (models : Models k j) (result : aesdRead env filp buf count fpos k = some r) :
    Models r.kernel j := by
  obtain ⟨r', result', refines⟩ := aesdRead_refines models env filp buf count fpos
  rw [result, Option.some.injEq] at result'
  subst result'
  have same : (j.read env filp buf count fpos).journal = j := by
    simp only [Journal.read]
    repeat' split
    all_goals rfl
  exact same ▸ refines.models

theorem aesdIoctl_journal (models : Models k j) (result : aesdIoctl env cmd arg fpos k = some r) :
    Models r.kernel j := by
  obtain ⟨r', result', refines⟩ := aesdIoctl_refines models env cmd arg fpos
  rw [result, Option.some.injEq] at result'
  subst result'
  have same : (j.ioctl env cmd arg fpos).journal = j := by
    simp only [Journal.ioctl, Journal.adjust]
    repeat' split
    all_goals rfl
  exact same ▸ refines.models

/-- A `read` leaves the device as it is, whatever the descriptor stands for. -/
theorem Shared.read_frame {delivered : Option (List Byte)}
    (call : s.read env socket fd = some (delivered, s')) :
    Frame s s' ∧ ∀ j, Models s.kernel j → Models s'.kernel j := by
  simp only [Shared.read] at call
  split at call
  · rename_i n fpos writable found
    obtain ⟨r, result, same⟩ := Option.map_eq_some_iff.mp call
    cases same
    exact ⟨frame_returned (lookup_some found).2 r, fun j models => aesdRead_journal models result⟩
  · cases call
    exact ⟨.refl _, fun _ models => models⟩
  · cases call
    exact ⟨.refl _, fun _ models => models⟩

theorem Shared.ioctl_frame (call : s.ioctl env fd seekto = some s') :
    Frame s s' ∧ ∀ j, Models s.kernel j → Models s'.kernel j := by
  simp only [Shared.ioctl] at call
  split at call
  · rename_i n fpos writable found
    obtain ⟨r, result, same⟩ := Option.map_eq_some_iff.mp call
    cases same
    exact ⟨frame_returned (lookup_some found).2 r, fun j models => aesdIoctl_journal models result⟩
  · cases call
    exact ⟨.refl _, fun _ models => models⟩

@[simp] theorem Shared.close_lock (s : Shared) (fd : Option Nat) : (s.close fd).lock = s.lock := by
  cases fd <;> rfl

@[simp] theorem Shared.close_dataFileDescriptor (s : Shared) (fd : Option Nat) :
    (s.close fd).dataFileDescriptor = s.dataFileDescriptor := by cases fd <;> rfl

@[simp] theorem Shared.close_kernel (s : Shared) (fd : Option Nat) :
    (s.close fd).kernel = s.kernel := by cases fd <;> rfl

/-- The branch of the receive loop that a handler is in. -/
def Pc.branch : Pc → Option Phase
  | .opening .seek | .assign .seek _ | .check .seek | .load .ioctl | .use .ioctl _ => some .seek
  | .opening .data | .assign .data _ | .check .data | .lock .data | .load .write | .use .write _
  | .unlock .data | .load .closeData | .use .closeData _ => some .data
  | _ => none

def Handler.Routed (h : Handler) : Prop :=
  (h.pc.branch = some .seek → h.seeks = true) ∧ (h.pc.branch = some .data → h.seeks = false)

theorem nextIteration_pc (h : Handler) :
    h.nextIteration.pc = .recv ∨ (h.seeks = false ∧ h.nextIteration.pc = .opening .reply) ∨
      (h.seeks = true ∧ h.nextIteration.pc = .lock .reply) := by
  simp only [Handler.nextIteration]
  split
  · cases seeks : h.seeks with
    | true => exact .inr (.inr ⟨rfl, rfl⟩)
    | false => exact .inr (.inl ⟨rfl, rfl⟩)
  · exact .inl rfl

theorem Handler.Routed.outside (none : h.pc.branch = none) : h.Routed := by
  constructor <;> intro inside <;> rw [none] at inside <;> cases inside

theorem Handler.Routed.stays (routed : h.Routed) (seeks : h'.seeks = h.seeks)
    (branch : h'.pc.branch = h.pc.branch) : h'.Routed := by
  constructor <;> intro inside <;> rw [seeks] <;> rw [branch] at inside
  · exact routed.1 inside
  · exact routed.2 inside

theorem Advance.routed (step : Advance id h s answer h' s' event) (routed : h.Routed) :
    h'.Routed := by
  cases step with
  | recvFailed stack beyond here => exact .outside rfl
  | recv bytes stack beyond here fits =>
    simp only [Handler.receive]
    cases isSeek (overlay h.receiveBuffer bytes)
    · exact ⟨fun seek => Phase.noConfusion (Option.some.inj seek), fun _ => rfl⟩
    · exact ⟨fun _ => rfl, fun data => Phase.noConfusion (Option.some.inj data)⟩
  | openFailed phase here | opened phase fd here free =>
    refine routed.stays rfl ?_
    rw [here]
    cases phase <;> rfl
  | assign phase fd here =>
    refine routed.stays rfl ?_
    rw [here]
    cases phase <;> rfl
  | check phase here =>
    cases phase with
    | seek =>
      cases s.dataFileDescriptor with
      | none => exact .outside rfl
      | some fd => exact routed.stays rfl (by rw [here]; rfl)
    | data => exact routed.stays rfl (by rw [here]; rfl)
    | reply => cases s.dataFileDescriptor <;> exact .outside rfl
  | lock phase here free =>
    refine routed.stays rfl ?_
    rw [here]
    cases phase <;> rfl
  | load use here =>
    refine routed.stays rfl ?_
    rw [here]
    cases use <;> rfl
  | ioctl env fd here call | closeData fd here =>
    rcases nextIteration_pc h with next | ⟨_, next⟩ | ⟨_, next⟩ <;> exact .outside (by rw [next]; rfl)
  | write env socket fd ok here call =>
    cases ok with
    | false => exact .outside rfl
    | true => exact routed.stays rfl (by rw [here]; rfl)
  | readFailed env socket fd here call => exact .outside rfl
  | read env socket fd bytes here call => exact .outside rfl
  | closeEnd fd here => exact .outside rfl
  | unlock phase here =>
    refine routed.stays rfl ?_
    rw [here]
    cases phase <;> rfl
  | sendFailed here => exact .outside rfl
  | send count here =>
    refine .outside ?_
    by_cases more : 0 < h.bytesFromFile <;> simp [more, Pc.branch]
  | closeSocket here => exact .outside rfl
  | complete here => exact .outside rfl

/-- In every state, each handler is in the branch that its last prefix test chose. -/
theorem step_routed {action : Action} {s s' : Server} (routed : ∀ id, (s.handler id).Routed)
    (result : Server.step action s = some (s', event)) : ∀ id, (s'.handler id).Routed := by
  rcases step_cases result with ⟨id, fd, _, _, _, rfl, _⟩ |
    ⟨id, answer, h', shared, _, step, rfl⟩
  · exact update_all (P := fun _ h => h.Routed) (.outside rfl) fun x _ => routed x
  · exact update_all (P := fun _ h => h.Routed) (step.routed (routed id)) fun x _ => routed x

end Aesd
