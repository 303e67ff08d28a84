import Aesd.Input

/-! One handler alone, while `open` and `write` succeed. Each result of `recv` becomes a seek
or a write as the prefix test decides over the buffer, and a write consumes its chunk up to
the first newline. -/
namespace Aesd

variable {id : Nat} {answer : Answer} {h h' : Handler} {shared shared' : Shared} {event : Event}
  {action : Action} {actions : List Action} {log events : List Event} {s s' s₀ : Server} {j : Journal}
  {results : List (List Byte × Option Seekto)} {bytes : List Byte} {seek : Option Seekto}

def Event.result : Event → List (List Byte × Option Seekto)
  | .received _ (some bytes) seek => [(bytes, seek)]
  | _ => []

def resultsOf (events : List Event) : List (List Byte × Option Seekto) :=
  events.flatMap Event.result

def routed (results : List (List Byte × Option Seekto)) : List (List Byte) :=
  (results.filter (·.2.isNone)).map Prod.fst

def requests (results : List (List Byte × Option Seekto)) : List Seekto :=
  results.filterMap Prod.snd

def Event.consumed : Event → List Byte
  | .wrote _ _ _ consumed _ => consumed
  | _ => []

def consumedOf (events : List Event) : List Byte := events.flatMap Event.consumed

def Event.seeks : Event → List Seekto
  | .sought _ _ seekto => [seekto]
  | _ => []

def soughtOf (events : List Event) : List Seekto := events.flatMap Event.seeks

def emptyBuffer : List Byte := List.replicate bufLen 0

def buffers (buffer : List Byte) : List (List Byte) → List (List Byte)
  | [] => []
  | bytes :: rest => overlay buffer bytes :: buffers (overlay buffer bytes) rest

/-- What the handler makes of a buffer. -/
def Interprets (buffer : List Byte) (seek : Option Seekto) : Prop :=
  if isSeek buffer then
    ∃ stack beyond, seek = some (sscanfSeekto (cString (buffer ++ beyond)) stack)
  else seek = none

/-- Only the handler `id` takes steps, and `open` and `write` succeed; the other calls may
fail. -/
def WorksAlone (id : Nat) (action : Action) (s : Server) : Prop :=
  match action with
  | .accept _ _ => False
  | .run other answer => other = id ∧
    match (s.handler id).pc, answer with
    | .opening _, .opened fd => fd ≠ none
    | .use .write _, .write env _ => Succeeds env s.shared.kernel (s.handler id).chunk
    | _, _ => True

instance : Decidable (Succeeds env k chunk) :=
  decidable_of_iff (env.data.ok = true ∧ chunk.length ≤ kmallocMax ∧ env.copied = true ∧
      env.locked = true ∧ env.buffer.ok = true ∧ k.request chunk ≤ kmallocMax)
    ⟨fun ⟨data, dataSize, copied, locked, buffer, size⟩ =>
      ⟨data, dataSize, copied, locked, buffer, size⟩,
      fun ok => ⟨ok.data, ok.dataSize, ok.copied, ok.locked, ok.buffer, ok.bufferSize⟩⟩

instance : ∀ action s, Decidable (WorksAlone id action s)
  | .accept _ _, _ => isFalse False.elim
  | .run other answer, s => by
    unfold WorksAlone
    dsimp only
    cases answer <;> split <;> infer_instance

@[simp] theorem resultsOf_snoc : resultsOf (log ++ [event]) = resultsOf log ++ event.result := by
  simp [resultsOf]

@[simp] theorem consumedOf_snoc :
    consumedOf (log ++ [event]) = consumedOf log ++ event.consumed := by simp [consumedOf]

@[simp] theorem soughtOf_snoc : soughtOf (log ++ [event]) = soughtOf log ++ event.seeks := by
  simp [soughtOf]

@[simp] theorem routed_data : routed (results ++ [(bytes, none)]) = routed results ++ [bytes] := by
  simp [routed]

@[simp] theorem routed_seek (seekto : Seekto) :
    routed (results ++ [(bytes, some seekto)]) = routed results := by simp [routed]

@[simp] theorem requests_data : requests (results ++ [(bytes, none)]) = requests results := by
  simp [requests]

@[simp] theorem requests_seek (seekto : Seekto) :
    requests (results ++ [(bytes, some seekto)]) = requests results ++ [seekto] := by
  simp [requests]

theorem buffers_snoc (buffer : List Byte) (chunks : List (List Byte)) :
    buffers buffer (chunks ++ [bytes]) =
      buffers buffer chunks ++ [overlay (chunks.foldl overlay buffer) bytes] := by
  induction chunks generalizing buffer with
  | nil => rfl
  | cons first rest ih => simp [buffers, ih]

theorem quiet_results (quiet : event.quiet = true) :
    event.result = [] ∧ event.consumed = [] ∧ event.seeks = [] := by
  cases event with
  | received id bytes seek =>
    cases bytes with
    | none => exact ⟨rfl, rfl, rfl⟩
    | some bytes => exact Bool.noConfusion quiet
  | wrote id fd ok consumed committed => exact Bool.noConfusion quiet
  | sought id fd seekto => exact Bool.noConfusion quiet
  | _ => exact ⟨rfl, rfl, rfl⟩

def Writable (s : Shared) (fd : Option Nat) : Prop :=
  ∃ n fpos, fd = some n ∧ s.files n = some (.data fpos true)

/-- The descriptor that the handler is about to use is writable. -/
def Pc.Ready (pc : Pc) (s : Shared) : Prop :=
  match pc with
  | .assign .seek fd | .assign .data fd | .use .write fd => Writable s fd
  | .check .seek | .check .data | .lock .data | .load .write => Writable s s.dataFileDescriptor
  | _ => True

theorem Advance.ready (step : Advance id (s.handler id) s.shared answer h' shared' event)
    (guard : WorksAlone id (.run id answer) s) (ready : (s.handler id).pc.Ready s.shared) :
    h'.pc.Ready shared' := by
  cases step with
  | openFailed phase here =>
    simp only [WorksAlone, here] at guard
    exact absurd rfl guard.2
  | opened phase fd here free =>
    have writable : phase.writable = true → Writable
        { s.shared with files := setFile s.shared.files fd (some (.data 0 phase.writable)) }
        (some fd) := by
      intro writes
      exact ⟨fd, 0, rfl, by simp [writes]⟩
    cases phase with
    | seek => exact writable rfl
    | data => exact writable rfl
    | reply => trivial
  | assign phase fd here =>
    rw [here] at ready
    cases phase with
    | seek => exact ready
    | data => exact ready
    | reply => trivial
  | check phase here =>
    rw [here] at ready
    cases phase with
    | data => exact ready
    | seek => cases s.shared.dataFileDescriptor <;> trivial
    | reply => cases s.shared.dataFileDescriptor <;> trivial
  | lock phase here free =>
    rw [here] at ready
    cases phase with
    | data => exact ready
    | seek => trivial
    | reply => trivial
  | load use here =>
    rw [here] at ready
    cases use with
    | write => exact ready
    | _ => trivial
  | ioctl env fd here call | closeData fd here =>
    rcases nextIteration_pc (s.handler id) with next | ⟨_, next⟩ | ⟨_, next⟩ <;> rw [next] <;> trivial
  | write env socket fd ok here call => cases ok <;> trivial
  | unlock phase here => cases phase <;> trivial
  | send count here =>
    simp only
    split <;> trivial
  | _ => trivial

/-- A write that succeeds takes the chunk up to its first newline. -/
theorem Shared.write_succeeds {ok : Bool} {env : WriteEnv} (models : Models shared.kernel j)
    (writable : Writable shared fd) (succeeds : Succeeds env shared.kernel bytes)
    (call : shared.write env socket fd bytes = some (ok, shared')) :
    ok = true ∧ (∃ j', Models shared'.kernel j') ∧
      shared.kernel.consumed shared'.kernel = Delimited.cut newline bytes := by
  obtain ⟨n, fpos, rfl, file⟩ := writable
  rcases Shared.write_cases call with ⟨m, fpos', r, same, _, result, rfl, rfl⟩ | ⟨_, unwritable, _⟩
  · obtain ⟨k', result', after, consumed⟩ := aesdWrite_accepts models succeeds fpos'
    rw [result, Option.some.injEq] at result'
    subst result'
    exact ⟨by simp, ⟨_, after⟩, consumed⟩
  · exact absurd file (unwritable n fpos rfl)

/-- What the last `recv` still has to become. -/
def Handler.unwritten (h : Handler) : List Byte :=
  if h.pc.stage = .writing then Delimited.cut newline h.chunk else []

def Handler.unsought (h : Handler) : List Seekto :=
  if h.pc.stage = .seeking then [h.seekto] else []

/-- The course of a handler that runs alone. -/
structure Course (id : Nat) (s : Server) (log : List Event) : Prop where
  device : ∃ j, Models s.shared.kernel j
  ready : (s.handler id).pc.Ready s.shared
  consumed : ((routed (resultsOf log)).map (Delimited.cut newline)).flatten =
    consumedOf log ++ (s.handler id).unwritten
  sought : requests (resultsOf log) = soughtOf log ++ (s.handler id).unsought
  buffer : (s.handler id).receiveBuffer =
    ((resultsOf log).map Prod.fst).foldl overlay emptyBuffer
  interpreted : List.Forall₂ Interprets (buffers emptyBuffer ((resultsOf log).map Prod.fst))
    ((resultsOf log).map Prod.snd)

theorem todo_same (same : h'.input = h.input) (stage : h'.pc.stage = h.pc.stage) :
    h'.unwritten = h.unwritten ∧ h'.unsought = h.unsought := by
  obtain ⟨_, _, _, seekto⟩ := input_fields same
  constructor
  · rw [Handler.unwritten, Handler.unwritten, stage, input_chunk same]
  · rw [Handler.unsought, Handler.unsought, stage, seekto]

theorem todo_done (writing : h.pc.stage ≠ .writing) (seeking : h.pc.stage ≠ .seeking) :
    h.unwritten = [] ∧ h.unsought = [] :=
  ⟨if_neg writing, if_neg seeking⟩

theorem todo_writing (stage : h.pc.stage = .writing) :
    h.unwritten = Delimited.cut newline h.chunk ∧ h.unsought = [] :=
  ⟨if_pos stage, if_neg (by rw [stage]; exact Stage.noConfusion)⟩

theorem todo_seeking (stage : h.pc.stage = .seeking) :
    h.unwritten = [] ∧ h.unsought = [h.seekto] :=
  ⟨if_neg (by rw [stage]; exact Stage.noConfusion), if_pos stage⟩

theorem receive_stage (h : Handler) (bytes : List Byte) (stack : Seekto) (beyond : List Byte) :
    (h.receive bytes stack beyond).pc.stage =
      if (h.receive bytes stack beyond).seeks then .seeking else .writing := by
  simp only [Handler.receive]
  by_cases seeks : isSeek (overlay h.receiveBuffer bytes) = true <;> simp [seeks, Pc.stage]

theorem Course.receive (course : Course id s log) (here : (s.handler id).pc = .recv)
    (bytes : List Byte) (stack : Seekto) (beyond : List Byte)
    (next : h' = (s.handler id).receive bytes stack beyond)
    (record : event = .received id (some bytes) (if h'.seeks then some h'.seekto else none)) :
    Course id (s.update id h' s.shared) (log ++ [event]) := by
  obtain ⟨written, sought⟩ := todo_done (h := s.handler id)
    (by rw [here]; exact Stage.noConfusion) (by rw [here]; exact Stage.noConfusion)
  have buffer : h'.receiveBuffer = overlay (s.handler id).receiveBuffer bytes := by rw [next]; rfl
  have chunk : h'.chunk = bytes := by rw [next, receive_chunk]
  have stage : h'.pc.stage = if h'.seeks then .seeking else .writing := by
    rw [next]
    exact receive_stage _ _ _ _
  have consumedBefore := course.consumed
  have soughtBefore := course.sought
  rw [written, List.append_nil] at consumedBefore
  rw [sought, List.append_nil] at soughtBefore
  have result : resultsOf (log ++ [event]) =
      resultsOf log ++ [(bytes, if h'.seeks then some h'.seekto else none)] := by
    rw [resultsOf_snoc, record, Event.result]
  have nothing : event.consumed = [] ∧ event.seeks = [] := by
    rw [record]
    exact ⟨rfl, rfl⟩
  have interprets : Interprets h'.receiveBuffer (if h'.seeks then some h'.seekto else none) := by
    rw [buffer, Interprets, next]
    simp only [Handler.receive]
    split
    · exact ⟨stack, beyond, rfl⟩
    · rfl
  refine ⟨course.device, ?_, ?_, ?_, ?_, ?_⟩
  · rw [update_handler, next]
    trivial
  · rw [update_handler, result, consumedOf_snoc, nothing.1, List.append_nil]
    cases seeks : h'.seeks with
    | true => simp [(todo_seeking (stage.trans (if_pos seeks))).1, consumedBefore]
    | false =>
      rw [(todo_writing (stage.trans (if_neg (by simp [seeks])))).1, chunk]
      simp [consumedBefore]
  · rw [update_handler, result, soughtOf_snoc, nothing.2, List.append_nil]
    cases seeks : h'.seeks with
    | true => simp [(todo_seeking (stage.trans (if_pos seeks))).2, soughtBefore]
    | false => simp [(todo_writing (stage.trans (if_neg (by simp [seeks])))).2, soughtBefore]
  · rw [update_handler, result, List.map_append, List.foldl_append, ← course.buffer, buffer]
    rfl
  · rw [result, List.map_append, List.map_append, List.map_singleton, List.map_singleton,
      buffers_snoc, ← course.buffer, ← buffer]
    exact List.rel_append course.interpreted (.cons interprets .nil)

theorem Course.act (course : Course id s log) (device : ∃ j, Models shared'.kernel j)
    (ready : h'.pc.Ready shared') (buffer : h'.receiveBuffer = (s.handler id).receiveBuffer)
    (result : event.result = [])
    (consumed : (s.handler id).unwritten = event.consumed ++ h'.unwritten)
    (sought : (s.handler id).unsought = event.seeks ++ h'.unsought) :
    Course id (s.update id h' shared') (log ++ [event]) := by
  refine ⟨device, ?_, ?_, ?_, ?_, ?_⟩ <;>
    simp only [update_handler, resultsOf_snoc, result, List.append_nil]
  · exact ready
  · rw [consumedOf_snoc, List.append_assoc, ← consumed]
    exact course.consumed
  · rw [soughtOf_snoc, List.append_assoc, ← sought]
    exact course.sought
  · rw [buffer]
    exact course.buffer
  · exact course.interpreted

theorem Course.step (course : Course id s log) (guard : WorksAlone id action s)
    (result : Server.step action s = some (s', event)) : Course id s' (log ++ [event]) := by
  rcases step_cases result with ⟨_, _, rfl, _⟩ | ⟨other, answer, h', shared', rfl, step, rfl⟩
  · exact guard.elim
  · obtain rfl : other = id := guard.1
    have ready := step.ready guard course.ready
    obtain ⟨j, models⟩ := course.device
    cases step.inputEffect with
    | receive bytes stack beyond sent here fits next same record =>
      subst same
      exact course.receive here bytes stack beyond next record
    | write env socket fd ok given here call next record =>
      simp only [WorksAlone, here, given, true_and] at guard
      have writable := course.ready
      rw [here] at writable
      obtain ⟨rfl, device, consumed⟩ := Shared.write_succeeds models writable guard call
      obtain ⟨unwritten, unsought⟩ := todo_writing (h := s.handler other) (by rw [here]; rfl)
      obtain ⟨written, sought⟩ := todo_done (h := h') (by rw [next]; exact Stage.noConfusion)
        (by rw [next]; exact Stage.noConfusion)
      rw [consumed] at record
      refine course.act device ready (by rw [next]) (by rw [record]; rfl) ?_ ?_
      · rw [unwritten, written, record, List.append_nil]
        rfl
      · rw [unsought, sought, record]
        rfl
    | seek fd here models' next record =>
      obtain ⟨unwritten, unsought⟩ := todo_seeking (h := s.handler other) (by rw [here]; rfl)
      obtain ⟨written, sought⟩ : h'.unwritten = [] ∧ h'.unsought = [] := by
        rw [next]
        apply todo_done
        all_goals
          rcases nextIteration_stage (s.handler other) with same | same <;> rw [same] <;>
            exact Stage.noConfusion
      refine course.act ⟨j, models' j models⟩ ready (by rw [next]; rfl) (by rw [record]; rfl) ?_ ?_
      · rw [unwritten, written, record]
        rfl
      · rw [unsought, sought, record]
        rfl
    | refused here failed =>
      have writable := course.ready
      rw [here] at writable
      obtain ⟨n, fpos, given, _⟩ := writable
      rw [failed] at given
      cases given
    | quiet quiet models' input stage =>
      obtain ⟨result, consumed, seeks⟩ := quiet_results quiet
      have same : h'.unwritten = (s.handler other).unwritten ∧
          h'.unsought = (s.handler other).unsought := by
        rcases stage with same | ⟨settled, ended⟩
        · exact todo_same input same
        · obtain ⟨written, sought⟩ := todo_done (h := h') (by rw [ended]; exact Stage.noConfusion)
            (by rw [ended]; exact Stage.noConfusion)
          obtain ⟨written', sought'⟩ := todo_done (h := s.handler other)
            (by rw [settled]; exact Stage.noConfusion) (by rw [settled]; exact Stage.noConfusion)
          exact ⟨written.trans written'.symm, sought.trans sought'.symm⟩
      refine course.act ⟨j, models' j models⟩ ready (input_fields input).1 result ?_ ?_
      · rw [consumed, same.1, List.nil_append]
      · rw [seeks, same.2, List.nil_append]

theorem Course.initial (models : Models s.shared.kernel j) (fresh : s.handler id = .fresh fd) :
    Course id s [] := by
  refine ⟨⟨j, models⟩, ?_, ?_, ?_, ?_, .nil⟩ <;> rw [fresh]
  · trivial
  · rfl
  · rfl
  · rfl

theorem Course.run (models : Models s₀.shared.kernel j) (fresh : s₀.handler id = .fresh fd)
    (alone : Transition.Guarded Server.step (WorksAlone id) actions s₀)
    (run : Transition.execute Server.step actions s₀ = some (s, events)) : Course id s events := by
  have course := alone.history (Course id)
    (fun _ _ _ _ _ before guard result => before.step guard result) run (.initial models fresh)
  exact course

/-- Between two iterations of the receive loop, and after it, nothing is left to be done. -/
theorem Course.handled (course : Course id s log) (handled : (s.handler id).pc.branch = none) :
    ((routed (resultsOf log)).map (Delimited.cut newline)).flatten = consumedOf log ∧
      requests (resultsOf log) = soughtOf log := by
  have outside : ∀ phase, (s.handler id).pc.branch ≠ some phase := by
    intro phase
    rw [handled]
    exact (Option.some_ne_none phase).symm
  obtain ⟨written, sought⟩ := todo_done (fun writing => outside .data (stage_writing writing))
    (fun seeking => outside .seek (stage_seeking.mp seeking))
  have consumed := course.consumed
  have issued := course.sought
  rw [written, List.append_nil] at consumed
  rw [sought, List.append_nil] at issued
  exact ⟨consumed, issued⟩

/-- With one handler at work, the device consumes all that is routed to the data branch exactly
when nothing follows the first newline of a result of `recv`. -/
theorem bytes_kept_iff (models : Models s₀.shared.kernel j) (fresh : s₀.handler id = .fresh fd)
    (alone : Transition.Guarded Server.step (WorksAlone id) actions s₀)
    (run : Transition.execute Server.step actions s₀ = some (s, events))
    (handled : (s.handler id).pc.branch = none) :
    consumedOf events = (routed (resultsOf events)).flatten ↔
      ∀ chunk ∈ routed (resultsOf events), newline ∈ chunk → Delimited.Segment newline chunk := by
  have course := Course.run models fresh alone run
  rw [← (course.handled handled).1, Delimited.flatten_map_cut_iff]
  simp only [Delimited.cut_eq_self_iff]

/-- A handler that has just been started for the first client. -/
def soleServer : Server :=
  Server.initial.update 0 (.fresh 4)
    { Server.initial.shared with files := setFile (fun _ => none) 4 (some .socket) }

example : Server.step (.accept 0 4) .initial = some (soleServer, .accepted 0 4) := rfl

/-- "a\nb" comes in one piece. -/
def twoInOne : List Action :=
  .run 0 (.recv (some [97, 10, 98]) ⟨0, 0⟩ []) :: writeChunk 0 6

theorem twoInOne_alone :
    Transition.Guarded Server.step (WorksAlone 0) twoInOne soleServer := by decide +kernel

theorem twoInOne_outcome :
    (Transition.execute Server.step twoInOne soleServer).map
      (fun last => (consumedOf last.2, routed (resultsOf last.2), (last.1.handler 0).pc)) =
      some ([97, 10], [[97, 10, 98]], .opening .reply) := by decide +kernel

/-- The byte after the newline is lost. -/
theorem bytes_lost :
    ∃ s events, Transition.execute Server.step twoInOne soleServer = some (s, events) ∧
      Transition.Guarded Server.step (WorksAlone 0) twoInOne soleServer ∧
      (s.handler 0).pc.branch = none ∧
      consumedOf events ≠ (routed (resultsOf events)).flatten := by
  obtain ⟨⟨s, events⟩, run, outcome⟩ := Option.map_eq_some_iff.mp twoInOne_outcome
  simp only [Prod.mk.injEq] at outcome
  obtain ⟨consumed, results, pc⟩ := outcome
  refine ⟨s, events, run, twoInOne_alone, by rw [pc]; rfl, ?_⟩
  rw [consumed, results]
  decide

theorem bytes_kept_iff_two :
    ∃ s events, Transition.execute Server.step twoInOne soleServer = some (s, events) ∧
      (consumedOf events = (routed (resultsOf events)).flatten ↔
        ∀ chunk ∈ routed (resultsOf events), newline ∈ chunk → Delimited.Segment newline chunk) := by
  obtain ⟨⟨s, events⟩, run, outcome⟩ := Option.map_eq_some_iff.mp twoInOne_outcome
  simp only [Prod.mk.injEq] at outcome
  obtain ⟨_, _, pc⟩ := outcome
  exact ⟨s, events, run, bytes_kept_iff aesdInitModule_models rfl twoInOne_alone
    run (by rw [pc]; rfl)⟩

end Aesd
