import Aesd.ServerSteps

/-! What the steps of a handler do with the bytes that it received: a `recv` brings them, a
`write` or an `ioctl` acts on them, and every other step leaves them and the device alone. -/
namespace Aesd

variable {id : Nat} {answer : Answer} {h h' : Handler} {shared shared' : Shared} {event : Event}

/-- What is to be done with the bytes of the last `recv`: nothing more, as the receive loop goes
on; a `write`; an `ioctl`; nothing, as the loop is over. -/
inductive Stage where
  | settled
  | writing
  | seeking
  | ended
  deriving DecidableEq, Repr

def Pc.stage : Pc → Stage
  | .idle | .recv | .unlock .data | .load .closeData | .use .closeData _ => .settled
  | .opening .data | .assign .data _ | .check .data | .lock .data | .load .write | .use .write _ =>
    .writing
  | .opening .seek | .assign .seek _ | .check .seek | .load .ioctl | .use .ioctl _ => .seeking
  | _ => .ended

/-- No received bytes and no call that the device saw, except for reads. -/
def Event.quiet : Event → Bool
  | .received _ (some _) _ | .wrote _ _ _ _ _ | .sought _ _ _ => false
  | _ => true

def Handler.input (h : Handler) : List Byte × Nat × Bool × Seekto :=
  (h.receiveBuffer, h.bytesReceived, h.seeks, h.seekto)

theorem input_fields (same : h'.input = h.input) :
    h'.receiveBuffer = h.receiveBuffer ∧ h'.bytesReceived = h.bytesReceived ∧
      h'.seeks = h.seeks ∧ h'.seekto = h.seekto := by
  simpa [Handler.input] using same

theorem input_chunk (same : h'.input = h.input) : h'.chunk = h.chunk := by
  obtain ⟨buffer, received, _⟩ := input_fields same
  rw [Handler.chunk, Handler.chunk, buffer, received]

@[simp] theorem receive_chunk (h : Handler) (bytes : List Byte) (stack : Seekto)
    (beyond : List Byte) : (h.receive bytes stack beyond).chunk = bytes := by
  simp [Handler.receive, Handler.chunk, overlay]

theorem stage_seeking {pc : Pc} : pc.stage = .seeking ↔ pc.branch = some .seek := by
  unfold Pc.stage Pc.branch
  split <;> simp

theorem stage_writing {pc : Pc} (writing : pc.stage = .writing) : pc.branch = some .data := by
  unfold Pc.stage at writing
  split at writing <;> first | rfl | cases writing

inductive InputEffect (id : Nat) (answer : Answer) (h h' : Handler) (shared shared' : Shared)
    (event : Event) : Prop
  | receive (bytes : List Byte) (stack : Seekto) (beyond : List Byte)
      (sent : answer = .recv (some bytes) stack beyond) (here : h.pc = .recv)
      (fits : bytes.length ≤ bufLen) (next : h' = h.receive bytes stack beyond)
      (same : shared' = shared)
      (record : event = .received id (some bytes) (if h'.seeks then some h'.seekto else none))
  | write (env : WriteEnv) (socket : Bool) (fd : Option Nat) (ok : Bool)
      (given : answer = .write env socket) (here : h.pc = .use .write fd)
      (call : shared.write env socket fd h.chunk = some (ok, shared'))
      (next : h' = { h with pc := if ok then .unlock .data else .returned false })
      (record : event = .wrote id fd ok (shared.kernel.consumed shared'.kernel)
        (shared.kernel.committed shared'.kernel))
  | seek (fd : Option Nat) (here : h.pc = .use .ioctl fd)
      (models : ∀ j, Models shared.kernel j → Models shared'.kernel j) (next : h' = h.nextIteration)
      (record : event = .sought id fd h.seekto)
  | refused (here : h.pc = .check .seek) (failed : shared.dataFileDescriptor = none)
  | quiet (quiet : event.quiet = true)
      (models : ∀ j, Models shared.kernel j → Models shared'.kernel j) (input : h'.input = h.input)
      (stage : h'.pc.stage = h.pc.stage ∨ (h.pc.stage = .settled ∧ h'.pc.stage = .ended))

theorem nextIteration_stage (h : Handler) :
    h.nextIteration.pc.stage = .settled ∨ h.nextIteration.pc.stage = .ended := by
  rcases nextIteration_pc h with next | ⟨_, next⟩ | ⟨_, next⟩ <;> rw [next]
  · exact .inl rfl
  · exact .inr rfl
  · exact .inr rfl

theorem InputEffect.keep {pc : Pc} (here : h.pc = pc) (quiet : event.quiet = true)
    (kernel : shared'.kernel = shared.kernel) (input : h'.input = h.input)
    (stage : h'.pc.stage = pc.stage) : InputEffect id answer h h' shared shared' event := by
  subst here
  refine .quiet quiet ?_ input (.inl stage)
  intro j models
  rwa [kernel]

theorem Advance.inputEffect (step : Advance id h shared answer h' shared' event) :
    InputEffect id answer h h' shared shared' event := by
  cases step with
  | recvFailed stack beyond here =>
    exact .quiet rfl (fun _ models => models) rfl (.inr ⟨by rw [here]; rfl, rfl⟩)
  | recv bytes stack beyond here fits => exact .receive bytes stack beyond rfl here fits rfl rfl rfl
  | openFailed phase here | opened phase fd here free | assign phase fd here
  | lock phase here free | unlock phase here =>
    exact .keep here rfl rfl rfl (by cases phase <;> rfl)
  | check phase here =>
    cases phase with
    | seek =>
      cases given : shared.dataFileDescriptor with
      | none => exact .refused here given
      | some fd => exact .keep here rfl rfl rfl rfl
    | data => exact .keep here rfl rfl rfl rfl
    | reply => exact .keep here rfl rfl rfl (by cases shared.dataFileDescriptor <;> rfl)
  | load use here => exact .keep here rfl rfl rfl (by cases use <;> rfl)
  | ioctl env fd here call => exact .seek fd here (Shared.ioctl_frame call).2 rfl rfl
  | write env socket fd ok here call => exact .write env socket fd ok rfl here call rfl rfl
  | closeData fd here =>
    have settled : h.pc.stage = .settled := by
      rw [here]
      rfl
    refine .quiet rfl (fun _ models => ?_) rfl ?_
    · rwa [Shared.close_kernel]
    · rcases nextIteration_stage h with next | next
      · exact .inl (next.trans settled.symm)
      · exact .inr ⟨settled, next⟩
  | readFailed env socket fd here call | read env socket fd bytes here call =>
    exact .quiet rfl (Shared.read_frame call).2 rfl (.inl (by rw [here]; rfl))
  | closeEnd fd here => exact .keep here rfl (Shared.close_kernel _ _) rfl rfl
  | sendFailed here | complete here => exact .keep here rfl rfl rfl rfl
  | send count here =>
    refine .keep here rfl rfl rfl ?_
    by_cases more : 0 < h.bytesFromFile <;> simp [more, Pc.stage]
  | closeSocket here => exact .keep here rfl (Shared.close_kernel _ _) rfl rfl

/-- A handler writes what it has received: open, assign, check, lock, load, write, unlock, load
and close. -/
def writeChunk (id fd : Nat) : List Action :=
  [.run id (.opened (some fd)), .run id .quiet, .run id .quiet, .run id .quiet, .run id .quiet,
    .run id (.write .success false), .run id .quiet, .run id .quiet, .run id .quiet]

end Aesd
