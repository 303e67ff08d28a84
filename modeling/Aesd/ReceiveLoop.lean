import Aesd.Progress

/-! How the receive loop ends. A newline in the last result of `recv` ends it, and nothing
else does: when the client closes, `recv` returns 0 for ever, and the handler opens the data
file again for each empty result. -/
namespace Aesd

variable {id fd n : Nat} {answer : Answer} {answers : List Answer} {h h' : Handler}
  {s s' s₀ : Shared} {event : Event} {log events : List Event} {chunks : List (List Byte)}

def Pc.looping (pc : Pc) : Bool := pc = .recv || pc.branch.isSome

def Pc.depth : Pc → Nat
  | .opening _ => 1
  | .assign _ _ => 2
  | .check _ => 3
  | .lock _ | .load .ioctl => 4
  | .load .write | .use .ioctl _ => 5
  | .use .write _ => 6
  | .unlock _ => 7
  | .load .closeData => 8
  | .use .closeData _ => 9
  | _ => 10

/-- What the device still has to take of the last result of `recv`. -/
def Handler.toWrite (h : Handler) : List Byte := if h.pc.stage = .writing then h.chunk else []

/-- The results of `recv` are `chunks`, and then 0 bytes for ever. -/
def Delivers (chunks : List (List Byte)) (events : List Event) : Prop :=
  ∀ i bytes, (chunksOf events)[i]? = some bytes → bytes = chunks.getD i []

/-- A run of the thread `id` from its start, for a client that sends `chunks` and closes. No
call fails but perhaps an ioctl. -/
structure Serves (id fd : Nat) (s₀ : Shared) (chunks : List (List Byte)) (h : Handler) (s : Shared)
    (events : List Event) : Prop where
  run : ∃ answers, Transition.execute (threadStep id) answers (.fresh fd, s₀) = some ((h, s), events)
  fine : ∀ event ∈ events, event.failed = false
  delivers : Delivers chunks events

/-- The receive loop ends after finitely many steps, whatever the outside decides, no state of
it is stuck, and after an empty result of `recv` the data file is not opened there. -/
structure LoopEnds (id fd : Nat) (s₀ : Shared) (chunks : List (List Byte)) : Prop where
  exits : ∃ bound, ∀ h s events, Serves id fd s₀ chunks h s events → h.pc.looping = true →
    events.length ≤ bound
  goesOn : ∀ h s events, Serves id fd s₀ chunks h s events → h.pc.looping = true →
    ∃ h' s' event, Serves id fd s₀ chunks h' s' (events ++ [event])
  quiet : ∀ h s events phase, Serves id fd s₀ chunks h s events → h.pc = .opening phase →
    phase ≠ .reply → [] ∉ chunksOf events

/-- A state of the process in which the calls of a thread that gets `size` bytes can succeed. -/
structure Serviceable (fd size : Nat) (s : Shared) : Prop where
  device : ∃ j, Models s.kernel j
  fits : s.kernel.dev.writeBufferSize + size ≤ kmallocMax
  roomy : s.Roomy
  unlocked : s.lock = none
  socket : s.files fd = some .socket

theorem looping_recv {pc : Pc} (here : pc = .recv) : pc.looping = true := by
  rw [here]
  rfl

theorem looping_inside {pc : Pc} (inside : pc.branch ≠ none) : pc.looping = true := by
  rw [Pc.looping, Option.isSome_iff_ne_none.mpr inside, Bool.or_true]

theorem inside_elsewhere {pc : Pc} (inside : pc.branch ≠ none) : pc ≠ .recv := by
  rintro rfl
  exact inside rfl

theorem Pc.depth_le (pc : Pc) : pc.depth ≤ 10 := by
  unfold Pc.depth
  split <;> omega

/-- What a step does in the receive loop: it receives, comes closer to a call, writes, ends the
iteration, or leads out of the loop or was made outside. -/
inductive Turn (h h' : Handler) (s s' : Shared) (event : Event) : Prop
  | receive (bytes : List Byte) (here : h.pc = .recv) (inside : h'.pc.branch ≠ none)
      (depth : h'.pc.depth = 1) (chunk : h'.chunk = bytes) (same : s' = s)
      (result : event.result.map Prod.fst = [bytes])
      (data : (∀ routed ∈ event.result, routed.2 = none) → h'.pc.stage = .writing)
  | act (before : h.pc.branch ≠ none) (branch : h'.pc.branch = h.pc.branch)
      (depth : h'.pc.depth = h.pc.depth + 1) (chunk : h'.chunk = h.chunk) (result : event.result = [])
      (toWrite : h'.toWrite = h.toWrite) (device : ∀ j, Models s.kernel j → Models s'.kernel j)
  | write (env : WriteEnv) (socket : Bool) (cur : Option Nat) (here : h.pc = .use .write cur)
      (call : s.write env socket cur h.chunk = some (true, s'))
      (next : h' = { h with pc := .unlock .data }) (result : event.result = [])
  | turn (before : h.pc.branch ≠ none) (next : h' = h.nextIteration) (result : event.result = [])
      (settled : h.toWrite = []) (device : ∀ j, Models s.kernel j → Models s'.kernel j)
  | leave (outside : h'.pc.looping = false) (result : event.result = [])
      (cause : h.pc.looping = true → event.failed = true ∨
        (h.pc.working = true ∧ h.pc.current s.dataFileDescriptor = none))

theorem Turn.plain {pc : Pc} (here : h.pc = pc) (before : pc.branch ≠ none)
    (branch : h'.pc.branch = pc.branch) (depth : h'.pc.depth = pc.depth + 1)
    (input : h'.input = h.input) (stage : h'.pc.stage = pc.stage) (kernel : s'.kernel = s.kernel)
    (result : event.result = []) : Turn h h' s s' event := by
  subst here
  refine .act before branch depth (input_chunk input) result ?_ (fun j models => by rwa [kernel])
  rw [Handler.toWrite, Handler.toWrite, stage, input_chunk input]

theorem Turn.iteration {pc : Pc} (here : h.pc = pc) (before : pc.branch ≠ none)
    (settled : pc.stage ≠ .writing) (result : event.result = [])
    (device : ∀ j, Models s.kernel j → Models s'.kernel j) :
    Turn h h.nextIteration s s' event := by
  subst here
  exact .turn before rfl result (if_neg settled) device

theorem Turn.outside {pc : Pc} (here : h.pc = pc) (before : pc.looping = false)
    (after : h'.pc.looping = false) (result : event.result = []) : Turn h h' s s' event := by
  subst here
  refine .leave after result ?_
  intro looping
  cases before.symm.trans looping

theorem Journal.accept_size (j : Journal) (fill : Nat → Byte) (chunk : List Byte) :
    (j.accept fill chunk).pending.size ≤ j.pending.size + chunk.length := by
  have cut : (Delimited.cut newline chunk).length ≤ chunk.length := by
    rw [← appendIndex_eq]
    exact appendIndex_le chunk
  by_cases ends : newline ∈ chunk
  · simp [Journal.accept, ends, Pending.size]
  · simp only [Journal.accept, if_neg ends, Pending.size, List.length_append, Pending.base_length]
    omega

theorem receive_inside (h : Handler) (bytes : List Byte) (stack : Seekto) (beyond : List Byte) :
    (h.receive bytes stack beyond).pc.branch ≠ none := by
  simp only [Handler.receive]
  split <;> exact Option.some_ne_none _

theorem Advance.turn (step : Advance id h s answer h' s' event) : Turn h h' s s' event := by
  cases step with
  | recvFailed stack beyond here => exact .leave rfl rfl (fun _ => .inl rfl)
  | recv bytes stack beyond here fits =>
    refine .receive bytes here (receive_inside h bytes stack beyond) rfl
      (receive_chunk h bytes stack beyond) rfl rfl ?_
    intro routed
    have plain := routed _ (List.mem_singleton_self _)
    rw [receive_stage]
    split
    · rename_i seeks
      simp [seeks] at plain
    · rfl
  | openFailed phase here | opened phase m here free | assign phase m here =>
    cases phase with
    | reply => exact .outside here rfl rfl rfl
    | seek | data =>
      exact .plain here (Option.some_ne_none _) rfl rfl rfl rfl rfl rfl
  | check phase here =>
    cases phase with
    | reply =>
      refine .outside here rfl ?_ rfl
      cases s.dataFileDescriptor <;> rfl
    | data =>
      exact .plain here (Option.some_ne_none _) rfl rfl rfl rfl rfl rfl
    | seek =>
      cases known : s.dataFileDescriptor with
      | none => exact .leave rfl rfl (fun _ => .inr ⟨by rw [here]; rfl, by rw [here]; exact known⟩)
      | some m =>
        exact .plain here (Option.some_ne_none _) rfl rfl rfl rfl rfl rfl
  | lock phase here free =>
    cases phase with
    | seek | reply => exact .outside here rfl rfl rfl
    | data =>
      exact .plain here (Option.some_ne_none _) rfl rfl rfl rfl rfl rfl
  | load use here =>
    cases use with
    | read | closeEnd => exact .outside here rfl rfl rfl
    | ioctl | write | closeData =>
      exact .plain here (Option.some_ne_none _) rfl rfl rfl rfl rfl rfl
  | ioctl env cur here call =>
    exact .iteration here (Option.some_ne_none _) Stage.noConfusion rfl (Shared.ioctl_frame call).2
  | write env socket cur ok here call =>
    cases ok with
    | false => exact .leave rfl rfl (fun _ => .inl rfl)
    | true => exact .write env socket cur here call rfl rfl
  | closeData cur here =>
    refine .iteration here (Option.some_ne_none _) Stage.noConfusion rfl ?_
    intro j models
    rwa [Shared.close_kernel]
  | unlock phase here =>
    cases phase with
    | seek | reply => exact .outside here rfl rfl rfl
    | data =>
      exact .plain here (Option.some_ne_none _) rfl rfl rfl rfl rfl rfl
  | send count here =>
    refine .outside here rfl ?_ rfl
    dsimp only
    split <;> rfl
  | readFailed env socket cur here call | read env socket cur bytes here call | closeEnd cur here
  | sendFailed here | closeSocket here | complete here =>
    exact .outside here rfl rfl rfl

def remaining (chunks : List (List Byte)) (log : List Event) : List Byte :=
  (chunks.drop (chunksOf log).length).flatten

/-- The state of a thread in its receive loop: only the last result can hold a newline, an
iteration takes ten steps at most, and what is still to be written fits into the device. -/
structure Lap (id : Nat) (chunks : List (List Byte)) (h : Handler) (s : Shared) (log : List Event) :
    Prop where
  poised : Poised id h s
  routed : h.Routed
  last : h.pc.branch ≠ none → (chunksOf log).getLast? = some h.chunk
  clear : ∀ bytes ∈ (if h.pc = .recv then chunksOf log else (chunksOf log).dropLast),
    newline ∉ bytes
  paced : h.pc.looping = true → log.length + 10 ≤ 10 * (chunksOf log).length + h.pc.depth
  fits : h.pc.looping = true → ∃ j, Models s.kernel j ∧
    j.pending.size + h.toWrite.length + (remaining chunks log).length ≤ kmallocMax

theorem chunksOf_quiet (result : event.result = []) : chunksOf (log ++ [event]) = chunksOf log := by
  rw [chunksOf_snoc, result, List.map_nil, List.append_nil]

theorem remaining_quiet (result : event.result = []) :
    remaining chunks (log ++ [event]) = remaining chunks log := by
  rw [remaining, chunksOf_quiet result, remaining]

theorem remaining_receive (bytes : List Byte) (result : event.result.map Prod.fst = [bytes])
    (script : bytes = chunks.getD (chunksOf log).length []) :
    (remaining chunks log).length = bytes.length + (remaining chunks (log ++ [event])).length := by
  rw [remaining, remaining, chunksOf_snoc, result, List.length_append, List.length_singleton]
  by_cases more : (chunksOf log).length < chunks.length
  · have piece : bytes = chunks[(chunksOf log).length] := by simpa [more] using script
    rw [List.drop_eq_getElem_cons more, List.flatten_cons, List.length_append, piece]
  · have nothing : bytes = [] := by simpa [Nat.le_of_not_lt more] using script
    rw [List.drop_eq_nil_of_le (by omega), List.drop_eq_nil_of_le (by omega), nothing]
    rfl

theorem Delivers.before (delivers : Delivers chunks (log ++ [event])) : Delivers chunks log := by
  intro i bytes found
  apply delivers i bytes
  obtain ⟨inside, _⟩ := List.getElem?_eq_some_iff.mp found
  rw [chunksOf_snoc, List.getElem?_append_left inside]
  exact found

theorem Delivers.next (delivers : Delivers chunks (log ++ [event])) {bytes : List Byte}
    (result : event.result.map Prod.fst = [bytes]) :
    bytes = chunks.getD (chunksOf log).length [] := by
  apply delivers
  rw [chunksOf_snoc, result]
  exact List.getElem?_concat_length ..

theorem Lap.receive (lap : Lap id chunks h s log) (delivers : Delivers chunks (log ++ [event]))
    (poised : Poised id h' s) (routed : h'.Routed) (bytes : List Byte) (here : h.pc = .recv)
    (inside : h'.pc.branch ≠ none) (depth : h'.pc.depth = 1) (chunk : h'.chunk = bytes)
    (result : event.result.map Prod.fst = [bytes]) : Lap id chunks h' s (log ++ [event]) := by
  have heard : chunksOf (log ++ [event]) = chunksOf log ++ [bytes] := by
    rw [chunksOf_snoc, result]
  have clear := lap.clear
  have paced := lap.paced (looping_recv here)
  obtain ⟨j, models, room⟩ := lap.fits (looping_recv here)
  rw [if_pos here] at clear
  refine ⟨poised, routed, ?_, ?_, ?_, ?_⟩
  · intro _
    rw [heard, chunk]
    exact List.getLast?_concat
  · rw [if_neg (inside_elsewhere inside), heard, List.dropLast_concat]
    exact clear
  · intro _
    rw [heard, List.length_append, List.length_append, depth]
    have bound := h.pc.depth_le
    simp only [List.length_singleton]
    omega
  · intro _
    refine ⟨j, models, ?_⟩
    have written : h'.toWrite.length ≤ bytes.length := by
      rw [← chunk, Handler.toWrite]
      split
      · exact Nat.le_refl _
      · exact Nat.zero_le _
    rw [remaining_receive bytes result (delivers.next result)] at room
    omega

theorem Lap.act (lap : Lap id chunks h s log) (poised : Poised id h' s') (routed : h'.Routed)
    (before : h.pc.branch ≠ none) (inside : h'.pc.branch ≠ none)
    (depth : h'.pc.depth = h.pc.depth + 1) (chunk : h'.chunk = h.chunk) (result : event.result = [])
    (device : ∀ j, Models s.kernel j → ∃ j', Models s'.kernel j' ∧
      j'.pending.size + h'.toWrite.length ≤ j.pending.size + h.toWrite.length) :
    Lap id chunks h' s' (log ++ [event]) := by
  have clear := lap.clear
  have paced := lap.paced (looping_inside before)
  obtain ⟨j, models, room⟩ := lap.fits (looping_inside before)
  obtain ⟨j', after, kept⟩ := device j models
  rw [if_neg (inside_elsewhere before)] at clear
  refine ⟨poised, routed, ?_, ?_, ?_, ?_⟩
  · intro _
    rw [chunksOf_quiet result, chunk]
    exact lap.last before
  · rw [if_neg (inside_elsewhere inside), chunksOf_quiet result]
    exact clear
  · intro _
    rw [chunksOf_quiet result, List.length_append, List.length_singleton]
    omega
  · intro _
    refine ⟨j', after, ?_⟩
    rw [remaining_quiet result]
    omega

theorem toWrite_written {env : WriteEnv} {cur : Option Nat} {j : Journal}
    (here : h.pc = .use .write cur) (call : s.write env socket cur h.chunk = some (true, s'))
    (models : Models s.kernel j) :
    ∃ j', Models s'.kernel j' ∧ j'.pending.size + 0 ≤ j.pending.size + h.toWrite.length := by
  have written : h.toWrite = h.chunk := if_pos (by rw [here]; rfl)
  rcases Shared.write_journal models call with ⟨_, fill, after⟩ | ⟨failed, _⟩ | ⟨_, rfl, _⟩
  · refine ⟨_, after, ?_⟩
    rw [written]
    exact j.accept_size fill h.chunk
  · cases failed
  · exact ⟨j, models, Nat.add_le_add_left (Nat.zero_le _) _⟩

theorem nextIteration_recv (h : Handler) : h.nextIteration.pc = .recv ↔ newline ∉ h.chunk := by
  simp only [Handler.nextIteration]
  by_cases ends : newline ∈ h.chunk
  · cases h.seeks <;> simp [ends]
  · simp [ends]

theorem nextIteration_outside (other : h.nextIteration.pc ≠ .recv) :
    h.nextIteration.pc.looping = false := by
  rcases nextIteration_pc h with next | ⟨_, next⟩ | ⟨_, next⟩
  · exact absurd next other
  · rw [next]
    rfl
  · rw [next]
    rfl

theorem depth_inside {pc : Pc} (inside : pc.branch ≠ none) : pc.depth ≤ 9 := by
  unfold Pc.branch at inside
  split at inside <;> first | exact absurd rfl inside | simp [Pc.depth]

theorem Lap.turn (lap : Lap id chunks h s log) (poised : Poised id h.nextIteration s')
    (routed : h.nextIteration.Routed) (before : h.pc.branch ≠ none) (result : event.result = [])
    (device : ∀ j, Models s.kernel j → Models s'.kernel j) :
    Lap id chunks h.nextIteration s' (log ++ [event]) := by
  have clear := lap.clear
  have paced := lap.paced (looping_inside before)
  obtain ⟨j, models, room⟩ := lap.fits (looping_inside before)
  rw [if_neg (inside_elsewhere before)] at clear
  have outside : h.nextIteration.pc.branch = none := by
    rcases nextIteration_pc h with next | ⟨_, next⟩ | ⟨_, next⟩ <;> rw [next] <;> rfl
  refine ⟨poised, routed, fun inside => absurd outside inside, ?_, ?_, ?_⟩
  · rw [chunksOf_quiet result]
    by_cases again : h.nextIteration.pc = .recv
    · rw [if_pos again]
      intro bytes member
      obtain ⟨front, split⟩ := List.getLast?_eq_some_iff.mp (lap.last before)
      rw [split, List.dropLast_concat] at clear
      rw [split] at member
      rcases List.mem_append.mp member with earlier | last
      · exact clear bytes earlier
      · rw [List.mem_singleton.mp last]
        exact (nextIteration_recv h).mp again
    · rw [if_neg again]
      exact clear
  · intro looping
    have again : h.nextIteration.pc = .recv := by
      by_contra other
      cases looping.symm.trans (nextIteration_outside other)
    have inside := depth_inside before
    have depth : h.nextIteration.pc.depth = 10 := by
      rw [again]
      rfl
    rw [chunksOf_quiet result, List.length_append, List.length_singleton, depth]
    omega
  · intro _
    refine ⟨j, device j models, ?_⟩
    have nothing : h.nextIteration.toWrite = [] := by
      apply if_neg
      intro writing
      cases outside.symm.trans (stage_writing writing)
    rw [remaining_quiet result, nothing, List.length_nil]
    omega

theorem Lap.leave (lap : Lap id chunks h s log) (poised : Poised id h' s') (routed : h'.Routed)
    (outside : h'.pc.looping = false) (result : event.result = []) :
    Lap id chunks h' s' (log ++ [event]) := by
  have elsewhere : h'.pc ≠ .recv := by
    intro here
    cases outside.symm.trans (looping_recv here)
  refine ⟨poised, routed, ?_, ?_, ?_, ?_⟩
  · intro inside
    cases outside.symm.trans (looping_inside inside)
  · rw [if_neg elsewhere, chunksOf_quiet result]
    have clear := lap.clear
    split at clear
    · exact fun bytes member => clear bytes (List.mem_of_mem_dropLast member)
    · exact clear
  · intro looping
    cases outside.symm.trans looping
  · intro looping
    cases outside.symm.trans looping

theorem Lap.step (lap : Lap id chunks h s log) (step : Advance id h s answer h' s' event)
    (fine : event.failed = false) (delivers : Delivers chunks (log ++ [event])) :
    Lap id chunks h' s' (log ++ [event]) := by
  have poised := lap.poised.step lap.routed step fine
  have routed := step.routed lap.routed
  cases step.turn with
  | receive bytes here inside depth chunk same result data =>
    subst same
    exact lap.receive delivers poised routed bytes here inside depth chunk result
  | act before branch depth chunk result toWrite device =>
    refine lap.act poised routed before (branch ▸ before) depth chunk result fun j models => ?_
    exact ⟨j, device j models, by rw [toWrite]⟩
  | write env socket cur here call next result =>
    subst next
    refine lap.act poised routed ?_ (Option.some_ne_none _) ?_ rfl result fun j models =>
      toWrite_written here call models
    · rw [here]
      exact Option.some_ne_none _
    · rw [here]
      rfl
  | turn before next result settled device =>
    subst next
    exact lap.turn poised routed before result device
  | leave outside result cause => exact lap.leave poised routed outside result

theorem Lap.start (ready : Serviceable fd chunks.flatten.length s) :
    Lap id chunks (.fresh fd) s [] := by
  obtain ⟨j, models⟩ := ready.device
  refine ⟨⟨ready.device, ready.roomy, ready.unlocked, .idle rfl, ?_, fun _ => ready.socket⟩,
    .outside rfl, ?_, ?_, ?_, ?_⟩
  · intro use cur here
    cases here
  · intro inside
    exact absurd rfl inside
  · intro bytes member
    cases member
  · intro _
    exact Nat.le_refl 10
  · intro _
    have room := ready.fits
    rw [models.writeBufferSize] at room
    exact ⟨j, models, room⟩

theorem Serves.lap (ready : Serviceable fd chunks.flatten.length s₀)
    (serves : Serves id fd s₀ chunks h s events) : Lap id chunks h s events := by
  obtain ⟨answers, run⟩ := serves.run
  apply Transition.execute_history (fun (t : Handler × Shared) log =>
    (∀ event ∈ log, event.failed = false) → Delivers chunks log → Lap id chunks t.1 t.2 log) ?_ run
    (fun _ _ => .start ready) serves.fine serves.delivers
  intro answer t log next event lap step fine delivers
  have before := lap (fun e member => fine e (List.mem_append_left _ member)) delivers.before
  exact before.step (threadStep_cases step) (fine event (by simp)) delivers

theorem Serves.snoc (serves : Serves id fd s₀ chunks h s events)
    (step : threadStep id answer (h, s) = some ((h', s'), event)) (fine : event.failed = false)
    (delivers : Delivers chunks (events ++ [event])) :
    Serves id fd s₀ chunks h' s' (events ++ [event]) := by
  obtain ⟨answers, run⟩ := serves.run
  refine ⟨⟨answers ++ [answer], Transition.execute_snoc_iff.mpr ⟨_, run, step⟩⟩, ?_, delivers⟩
  intro e member
  rcases List.mem_append.mp member with earlier | last
  · exact serves.fine e earlier
  · rw [List.mem_singleton.mp last]
    exact fine

theorem Delivers.snoc (delivers : Delivers chunks log)
    (result : event.result.map Prod.fst =
      if h.pc = .recv then [chunks.getD (chunksOf log).length []] else []) :
    Delivers chunks (log ++ [event]) := by
  intro i bytes found
  rw [chunksOf_snoc, result] at found
  split at found
  · by_cases inside : i < (chunksOf log).length
    · rw [List.getElem?_append_left inside] at found
      exact delivers i bytes found
    · rw [List.getElem?_append_right (Nat.le_of_not_lt inside), List.getElem?_singleton] at found
      split at found
      · rename_i last
        obtain rfl : i = (chunksOf log).length := by omega
        exact (Option.some.inj found).symm
      · cases found
  · rw [List.append_nil] at found
    exact delivers i bytes found

/-- In the receive loop the thread always can go on. -/
theorem Serves.goesOn (ready : Serviceable fd chunks.flatten.length s₀)
    (pieces : ∀ bytes ∈ chunks, bytes.length ≤ bufLen)
    (serves : Serves id fd s₀ chunks h s events) (looping : h.pc.looping = true) :
    ∃ answer h' s' event, threadStep id answer (h, s) = some ((h', s'), event) ∧
      Serves id fd s₀ chunks h' s' (events ++ [event]) := by
  have lap := serves.lap ready
  obtain ⟨j, models, room⟩ := lap.fits looping
  have fits : (chunks.getD (chunksOf events).length []).length ≤ bufLen := by
    by_cases more : (chunksOf events).length < chunks.length
    · simpa [more] using pieces _ (List.getElem_mem more)
    · simp [Nat.le_of_not_lt more]
  have writes : ∀ cur, h.pc = .use .write cur → Succeeds .success s.kernel h.chunk := by
    intro cur here
    have written : h.toWrite = h.chunk := if_pos (by rw [here]; rfl)
    rw [written] at room
    exact models.succeeds_of_room (by omega)
  have started : h.pc ≠ .idle := by
    intro here
    rw [here] at looping
    cases looping
  have running : h.pc.finished = false := by
    cases here : h.pc with
    | returned ok =>
      rw [here] at looping
      cases looping
    | _ => rfl
  obtain ⟨answer, h', s', event, step, healthy, result⟩ :=
    lap.poised.progress started running _ fits writes
  exact ⟨answer, h', s', event, step,
    serves.snoc step (Event.healthy_fine healthy) (serves.delivers.snoc result)⟩

/-- A result of `recv` is one of the chunks, or comes after them and is empty. -/
theorem Delivers.piece (delivers : Delivers chunks log) {i : Nat} {bytes : List Byte}
    (found : (chunksOf log)[i]? = some bytes) :
    bytes ∈ chunks ∨ (chunks.length ≤ i ∧ bytes = []) := by
  rw [delivers i bytes found]
  by_cases more : i < chunks.length
  · left
    simp [more]
  · right
    exact ⟨Nat.le_of_not_lt more, by simp [Nat.le_of_not_lt more]⟩

/-- The number of results of `recv` in the loop, when a chunk holds a newline. -/
theorem Lap.results_le (lap : Lap id chunks h s log) (delivers : Delivers chunks log)
    (ends : newline ∈ chunks.flatten) : (chunksOf log).length ≤ chunks.length := by
  by_contra more
  obtain ⟨bytes, member, inside⟩ := List.mem_flatten.mp ends
  obtain ⟨i, bound, rfl⟩ := List.getElem_of_mem member
  have heard : i < (chunksOf log).length := by omega
  have piece : (chunksOf log)[i] = chunks[i] := by
    have found := delivers i _ (List.getElem?_eq_getElem heard)
    simpa [bound] using found
  refine lap.clear chunks[i] ?_ inside
  rw [← piece]
  split
  · exact List.getElem_mem heard
  · have earlier : i < (chunksOf log).dropLast.length := by
      rw [List.length_dropLast]
      omega
    rw [← List.getElem_dropLast earlier]
    exact List.getElem_mem earlier

/-- Without a newline the loop goes on. -/
theorem Serves.stays (ready : Serviceable fd chunks.flatten.length s₀)
    (endless : newline ∉ chunks.flatten) (serves : Serves id fd s₀ chunks h s events)
    (looping : h.pc.looping = true) (step : threadStep id answer (h, s) = some ((h', s'), event))
    (fine : event.failed = false) : h'.pc.looping = true := by
  have lap := serves.lap ready
  cases (threadStep_cases step).turn with
  | receive bytes here inside depth chunk same result data => exact looping_inside inside
  | act before branch depth chunk result toWrite device => exact looping_inside (branch ▸ before)
  | write env socket cur here call next result =>
    subst next
    exact looping_inside (Option.some_ne_none _)
  | turn before next result settled device =>
    subst next
    apply looping_recv
    apply (nextIteration_recv h).mpr
    intro ends
    obtain ⟨i, found⟩ := List.mem_iff_getElem?.mp (List.mem_of_getLast? (lap.last before))
    rcases serves.delivers.piece found with member | ⟨_, nothing⟩
    · exact endless (List.mem_flatten.mpr ⟨_, member, ends⟩)
    · rw [nothing] at ends
      cases ends
  | leave outside result cause =>
    rcases cause looping with failed | ⟨working, none⟩
    · cases fine.symm.trans failed
    · obtain ⟨n, _, _, known, _⟩ := lap.poised.works working
      cases none.symm.trans known

theorem receive_loop_ends_iff (ready : Serviceable fd chunks.flatten.length s₀)
    (pieces : ∀ bytes ∈ chunks, bytes ≠ [] ∧ bytes.length ≤ bufLen) :
    LoopEnds id fd s₀ chunks ↔ newline ∈ chunks.flatten := by
  have short : ∀ bytes ∈ chunks, bytes.length ≤ bufLen := fun bytes member => (pieces bytes member).2
  constructor
  · intro ends
    by_contra endless
    obtain ⟨bound, exits⟩ := ends.exits
    have runs : ∀ m, ∃ h s events, Serves id fd s₀ chunks h s events ∧ h.pc.looping = true ∧
        events.length = m := by
      intro m
      induction m with
      | zero =>
        refine ⟨.fresh fd, s₀, [], ⟨⟨[], rfl⟩, ?_, ?_⟩, rfl, rfl⟩
        · intro event member
          cases member
        · intro i bytes found
          cases found
      | succ m ih =>
        obtain ⟨h, s, events, serves, looping, rfl⟩ := ih
        obtain ⟨answer, h', s', event, step, next⟩ := serves.goesOn ready short looping
        have stays := serves.stays ready endless looping step (next.fine event (by simp))
        exact ⟨h', s', events ++ [event], next, stays, by simp⟩
    obtain ⟨h, s, events, serves, looping, length⟩ := runs (bound + 1)
    have := exits h s events serves looping
    omega
  · intro ends
    refine ⟨⟨10 * chunks.length, ?_⟩, ?_, ?_⟩
    · intro h s events serves looping
      have lap := serves.lap ready
      have paced := lap.paced looping
      have depth := h.pc.depth_le
      have few := lap.results_le serves.delivers ends
      omega
    · intro h s events serves looping
      obtain ⟨_, h', s', event, _, next⟩ := serves.goesOn ready short looping
      exact ⟨h', s', event, next⟩
    · intro h s events phase serves here other empty
      have few := (serves.lap ready).results_le serves.delivers ends
      obtain ⟨i, found⟩ := List.mem_iff_getElem?.mp empty
      obtain ⟨inside, _⟩ := List.getElem?_eq_some_iff.mp found
      rcases serves.delivers.piece found with member | ⟨beyond, _⟩
      · exact (pieces [] member).1 rfl
      · omega

def closesEarly : List Answer :=
  [.recv (some [97]) ⟨0, 0⟩ [], .opened (some 5), .quiet, .quiet, .quiet, .quiet,
    .write .success false, .quiet, .quiet, .quiet, .recv (some []) ⟨0, 0⟩ []]

theorem closesEarly_outcome :
    (Transition.execute (threadStep 0) closesEarly (.fresh 4, soleServer.shared)).map
      (fun last => (last.1.1.pc, chunksOf last.2, last.2.all fun event => !event.failed)) =
      some (.opening .data, [[97], []], true) := by decide +kernel

theorem loop_goes_on : ¬LoopEnds 0 4 soleServer.shared [[97]] := by
  intro ends
  obtain ⟨⟨⟨h, s⟩, events⟩, run, outcome⟩ := Option.map_eq_some_iff.mp closesEarly_outcome
  simp only [Prod.mk.injEq] at outcome
  obtain ⟨pc, results, fine⟩ := outcome
  refine ends.quiet h s events .data ⟨⟨closesEarly, run⟩, ?_, ?_⟩ pc Phase.noConfusion ?_
  · intro event member
    simpa using List.all_eq_true.mp fine event member
  · intro i bytes found
    rw [results] at found
    match i, found with
    | 0, found => exact (Option.some.inj found).symm
    | 1, found => exact (Option.some.inj found).symm
  · rw [results]
    simp

theorem soleServer_serviceable (room : size ≤ kmallocMax) :
    Serviceable 4 size soleServer.shared where
  device := ⟨_, aesdInitModule_models⟩
  fits := Nat.le_trans (Nat.le_of_eq (Nat.zero_add size)) room
  roomy := by
    refine ⟨5, fun n beyond => ?_⟩
    have different : n ≠ 4 := by omega
    exact setFile_other (fun _ => none) (some .socket) different
  unlocked := rfl
  socket := rfl

/-- The client sends "a\n" in two pieces. -/
theorem receive_loop_ends_iff_two :
    LoopEnds 0 4 soleServer.shared [[97], [newline]] ↔ newline ∈ [[97], [newline]].flatten := by
  apply receive_loop_ends_iff (soleServer_serviceable (by decide))
  intro bytes member
  rcases List.mem_cons.mp member with rfl | last
  · exact ⟨List.cons_ne_nil _ _, by decide⟩
  · rw [List.mem_singleton.mp last]
    exact ⟨List.cons_ne_nil _ _, by decide⟩

end Aesd
