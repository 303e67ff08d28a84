import Aesd.Solo

/-! One thread of the server by itself: a run of `client_data_handler` in which nobody else
touches what the handlers share. Calls may fail at any point. -/
namespace Aesd

variable {id : Nat} {answer : Answer} {answers : List Answer} {h h' : Handler} {s s' : Shared}
  {event : Event} {log events : List Event}

def threadStep (id : Nat) (answer : Answer) (t : Handler × Shared) :
    Option ((Handler × Shared) × Event) :=
  (advance id answer t.1 t.2).map fun (h, s, event) => ((h, s), event)

theorem threadStep_cases (step : threadStep id answer (h, s) = some ((h', s'), event)) :
    Advance id h s answer h' s' event := by
  obtain ⟨⟨_, _, _⟩, one, same⟩ := Option.map_eq_some_iff.mp step
  cases same
  exact advance_cases one

@[simp] theorem update_twice (s : Server) (shared shared' : Shared) :
    (s.update id h shared).update id h' shared' = s.update id h' shared' := by
  simp only [Server.update, Server.mk.injEq, true_and]
  funext other
  by_cases same : other = id <;> simp [setHandler, same]

theorem update_self (s : Server) : s.update id (s.handler id) s.shared = s := by
  obtain ⟨shared, handler⟩ := s
  simp only [Server.update, Server.mk.injEq, true_and]
  funext other
  by_cases same : other = id <;> simp [setHandler, same]

/-- A run of the server in which only one handler takes steps is a run of its thread. -/
theorem execute_thread (answers : List Answer) (s : Server) :
    Transition.execute Server.step (answers.map (.run id)) s =
      (Transition.execute (threadStep id) answers (s.handler id, s.shared)).map
        fun last => (s.update id last.1.1 last.1.2, last.2) := by
  induction answers generalizing s with
  | nil => simp [update_self]
  | cons answer answers ih =>
    simp only [List.map_cons, Transition.execute, Server.step, threadStep]
    cases advance id answer (s.handler id) s.shared with
    | none => rfl
    | some next =>
      obtain ⟨h, shared, event⟩ := next
      simp only [Option.map_some, Option.bind_some, ih, update_handler, update_shared,
        Option.map_map, Function.comp_def, update_twice]

/-- A system call that reported an error; the ioctl's is only logged. -/
def Event.failed : Event → Bool
  | .received _ none _ | .opened _ none | .wrote _ _ false _ _ | .fetched _ _ false
  | .sent _ _ none => true
  | _ => false

def chunksOf (events : List Event) : List (List Byte) := (resultsOf events).map Prod.fst

/-- What the thread has made of the results of `recv`: the buffer holds them laid over each
other, and each prefix test was made on the buffer of its time. -/
structure Heard (h : Handler) (log : List Event) : Prop where
  buffer : h.receiveBuffer = (chunksOf log).foldl overlay emptyBuffer
  tests : (resultsOf log).map (·.2.isSome) = (buffers emptyBuffer (chunksOf log)).map isSeek
  seeks : ∀ result, (resultsOf log).getLast? = some result → result.2.isSome = h.seeks

theorem chunksOf_snoc : chunksOf (log ++ [event]) = chunksOf log ++ event.result.map Prod.fst := by
  simp [chunksOf]

theorem Heard.quiet (heard : Heard h log) (nothing : event.result = [])
    (buffer : h'.receiveBuffer = h.receiveBuffer) (seeks : h'.seeks = h.seeks) :
    Heard h' (log ++ [event]) := by
  constructor
  · rw [buffer, chunksOf_snoc, nothing, List.map_nil, List.append_nil]
    exact heard.buffer
  · rw [chunksOf_snoc, resultsOf_snoc, nothing, List.map_nil, List.append_nil, List.append_nil]
    exact heard.tests
  · rw [resultsOf_snoc, nothing, List.append_nil, seeks]
    exact heard.seeks

theorem Heard.receive (heard : Heard h log) (bytes : List Byte) (stack : Seekto)
    (beyond : List Byte) (next : h' = h.receive bytes stack beyond)
    (record : event = .received id (some bytes) (if h'.seeks then some h'.seekto else none)) :
    Heard h' (log ++ [event]) := by
  have result : event.result = [(bytes, if h'.seeks then some h'.seekto else none)] := by
    rw [record]
    rfl
  have buffer : h'.receiveBuffer = overlay h.receiveBuffer bytes := by
    rw [next]
    rfl
  have seeks : h'.seeks = isSeek h'.receiveBuffer := by
    rw [next]
    rfl
  have test : (if h'.seeks then some h'.seekto else none).isSome = isSeek h'.receiveBuffer := by
    rw [← seeks]
    cases h'.seeks <;> rfl
  constructor
  · rw [buffer, chunksOf_snoc, result, List.map_singleton, List.foldl_append, ← heard.buffer]
    rfl
  · rw [chunksOf_snoc, resultsOf_snoc, result, List.map_singleton, buffers_snoc, List.map_append,
      List.map_append, heard.tests, ← heard.buffer, ← buffer, List.map_singleton, List.map_singleton,
      test]
  · intro last found
    rw [resultsOf_snoc, result, List.getLast?_concat, Option.some.injEq] at found
    rw [← found, test, seeks]

theorem Advance.heard (step : Advance id h s answer h' s' event) (heard : Heard h log) :
    Heard h' (log ++ [event]) := by
  cases step with
  | recv bytes stack beyond here fits => exact heard.receive bytes stack beyond rfl rfl
  | _ => exact heard.quiet rfl rfl rfl

theorem fresh_heard (fd : Nat) : Heard (.fresh fd) [] where
  buffer := rfl
  tests := rfl
  seeks result found := by cases found

/-- The answers to a thread that gets a line in one piece, uses the descriptor `fd` and replies
with a first piece of `count` bytes. -/
def lineTaken (line : List Byte) (fd count : Nat) : List Answer :=
  [.recv (some line) ⟨0, 0⟩ [], .opened (some fd), .quiet, .quiet, .quiet, .quiet,
    .write .success false, .quiet, .quiet, .quiet, .opened (some fd), .quiet, .quiet, .quiet, .quiet,
    .read .success none, .quiet, .send (some count)]

def replyEnded : List Answer :=
  [.quiet, .quiet, .read .success none, .quiet, .send (some 0), .quiet, .quiet, .quiet, .quiet]

end Aesd
