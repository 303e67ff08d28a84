import Aesd.Lifecycle
import Aesd.Lines
import Aesd.SeekRequest

/-! Where the bytes of a reply come from, for any number of clients in any interleaving. What is
sent was read from the device, which gives out pieces of committed commands; and what is
committed was received from clients. -/
namespace Aesd

variable {id fd n : Nat} {answer : Answer} {h h' : Handler} {shared shared' : Shared}
  {event : Event} {log : List Event} {p p' : Process} {action : ProcessAction}
  {actions : List ProcessAction} {events : List ProcessEvent} {commands : List (List Byte)}
  {bytes : List Byte} {j : Journal}

def ProcessEvent.handled : ProcessEvent → List Event
  | .handler event => [event]
  | _ => []

def handledOf (log : List ProcessEvent) : List Event := log.flatMap ProcessEvent.handled

/-- Nothing, or a contiguous piece of one of the commands. -/
def Within (commands : List (List Byte)) (bytes : List Byte) : Prop :=
  bytes = [] ∨ ∃ c ∈ commands, bytes <:+: c

/-- No thread reads through a descriptor that has become a client's socket. -/
def ReadsDevice (action : ProcessAction) (p : Process) : Prop :=
  match action with
  | .run id _ =>
    match (p.server.handler id).pc with
    | .use .read fd => (p.server.shared.lookup fd).map Prod.snd ≠ some .socket
    | _ => True
  | _ => True

instance : ∀ action p, Decidable (ReadsDevice action p)
  | .main _, _ => isTrue trivial
  | .signal, _ => isTrue trivial
  | .run id _, p => by
    unfold ReadsDevice
    dsimp only
    cases (p.server.handler id).pc with
    | use use fd => cases use <;> dsimp only <;> infer_instance
    | _ => exact isTrue trivial

/-- Each piece that was sent lies within one command that was committed before. -/
def Answered (log : List Event) : Prop :=
  ∀ before id bytes count after, log = before ++ .sent id bytes count :: after →
    Within (committedOf before) bytes

/-- What the device took in each `write` is a first part of what its handler received last. -/
def Consumed (log : List Event) : Prop :=
  ∀ before id fd consumed committed after,
    log = before ++ .wrote id fd true consumed committed :: after →
    ∃ received, lastReceived id before = some received ∧ consumed <+: received

section Pieces

theorem Within.grow (within : Within commands bytes) (more : List (List Byte)) :
    Within (commands ++ more) bytes := by
  rcases within with nothing | ⟨c, member, part⟩
  · exact .inl nothing
  · exact .inr ⟨c, List.mem_append_left _ member, part⟩

theorem Journal.read_within (env : ReadEnv) (filp buf : Bool) (count : Nat) (fpos : Int)
    (j : Journal) : Within j.history (j.read env filp buf count fpos).delivered := by
  simp only [Journal.read]
  split
  · split
    · split
      · exact .inl rfl
      · rename_i k o place
        split
        · obtain ⟨bound, _⟩ := Locate.drop_of_locate j.live _ k o place
          have command : j.live.getD k [] = j.live[k] := by simp [bound]
          refine .inr ⟨j.live[k], List.mem_of_mem_drop (List.getElem_mem bound), ?_⟩
          rw [command]
          exact (List.take_prefix _ _).isInfix.trans (List.drop_suffix _ _).isInfix
        · exact .inl rfl
    · exact .inl rfl
  · exact .inl rfl

theorem Shared.read_within {env : ReadEnv} {socket : Option (List Byte)} {cur : Option Nat}
    (models : Models shared.kernel j) (device : (shared.lookup cur).map Prod.snd ≠ some .socket)
    (call : shared.read env socket cur = some (some bytes, shared')) : Within j.history bytes := by
  simp only [Shared.read] at call
  split at call
  · rename_i n fpos writable found
    obtain ⟨r, result, same⟩ := Option.map_eq_some_iff.mp call
    obtain ⟨r', result', refines⟩ := aesdRead_refines models env true true bufLen fpos
    rw [result, Option.some.injEq] at result'
    subst result'
    have delivered : r.delivered = bytes := by
      by_cases fine : 0 ≤ r.ret
      · simpa [Shared.returned, fine] using congrArg Prod.fst same
      · simp [Shared.returned, fine] at same
    rw [← delivered, refines.delivered]
    exact j.read_within env true true bufLen fpos
  · rename_i n found
    exact absurd (by rw [found]; rfl) device
  · cases call

end Pieces

section Handlers

/-- The places where the send buffer holds what the last `read` delivered. -/
def Pc.sends : Pc → Bool
  | .unlock .data => false
  | .unlock _ | .send => true
  | _ => false

def Handler.piece (h : Handler) : List Byte := h.sendBuffer.take h.bytesFromFile

theorem nextIteration_sends (h : Handler) : h.nextIteration.pc.sends = false := by
  rcases nextIteration_pc h with next | ⟨_, next⟩ | ⟨_, next⟩ <;> rw [next] <;> rfl

theorem Advance.piece (step : Advance id h shared answer h' shared' event)
    (models : Models shared.kernel j)
    (device : ∀ cur, h.pc = .use .read cur → (shared.lookup cur).map Prod.snd ≠ some .socket)
    (piece : h.pc.sends = true → Within j.history h.piece) (sends : h'.pc.sends = true) :
    Within j.history h'.piece := by
  cases step with
  | read env socket cur bytes here call =>
    have same : ({ h with
        pc := .unlock .reply
        sendBuffer := overlay h.sendBuffer bytes
        bytesFromFile := bytes.length } : Handler).piece = bytes := by
      simp [Handler.piece, overlay]
    rw [same]
    exact Shared.read_within models (device cur here) call
  | unlock phase here =>
    cases phase with
    | data => cases sends
    | seek => exact piece (by rw [here]; rfl)
    | reply => exact piece (by rw [here]; rfl)
  | ioctl env cur here call | closeData cur here =>
    cases (nextIteration_sends h).symm.trans sends
  | check phase here =>
    cases phase <;> cases current : shared.dataFileDescriptor <;>
      rw [current] at sends <;> cases sends
  | write env socket cur ok here call => cases ok <;> cases sends
  | send count here =>
    by_cases more : 0 < h.bytesFromFile
    · simp only [if_pos more] at sends
      cases sends
    · simp only [if_neg more] at sends
      cases sends
  | _ => cases sends

theorem Advance.sent (step : Advance id h shared answer h' shared' event)
    (sent : event = .sent n bytes count) : h.pc.sends = true ∧ bytes = h.piece := by
  cases step with
  | sendFailed here =>
    cases sent
    exact ⟨by rw [here]; rfl, rfl⟩
  | send count here =>
    cases sent
    exact ⟨by rw [here]; rfl, rfl⟩
  | _ => cases sent

theorem Advance.history (step : Advance id h shared answer h' shared' event)
    (models : Models shared.kernel j) :
    ∃ j', Models shared'.kernel j' ∧ j'.history = j.history ++ event.committed := by
  cases step.inputEffect with
  | receive bytes stack beyond sent here fits next same record =>
    subst same record
    exact ⟨j, models, (List.append_nil _).symm⟩
  | write env socket cur ok given here call next record =>
    rw [record, committed_wrote]
    rcases Shared.write_journal models call with ⟨_, fill, after⟩ | ⟨_, j', after, kept⟩ |
      ⟨_, rfl, _⟩
    · exact ⟨_, after, models.committed_accept after⟩
    · exact ⟨j', after, by rw [models.committed_nothing after kept, kept, List.append_nil]⟩
    · exact ⟨j, models, by rw [models.committed_nothing models rfl, List.append_nil]⟩
  | seek cur here kept next record =>
    rw [record]
    exact ⟨j, kept j models, (List.append_nil _).symm⟩
  | refused here failed =>
    have same : shared' = shared ∧ event = .checked id := by
      cases step with
      | check phase here' => exact ⟨rfl, rfl⟩
      | _ => simp_all
    rw [same.1, same.2]
    exact ⟨j, models, (List.append_nil _).symm⟩
  | quiet quiet kept input stage =>
    rw [(quiet_events quiet).2.2, List.append_nil]
    exact ⟨j, kept j models, rfl⟩

end Handlers

section Processes

theorem Process.main_kernel {answer : MainAnswer} {event : ProcessEvent}
    (step : p.mainStep answer = some (p', event)) :
    p'.server.shared.kernel = p.server.shared.kernel := by
  unfold Process.mainStep at step
  repeat' split at step
  all_goals cases step
  all_goals first | rfl | exact Shared.close_kernel _ _

/-- What a step means for the threads: it is one of them, or the device and the handlers stay
as they are, except for a thread that begins. -/
theorem process_threads {event : ProcessEvent} (step : Process.step action p = some (p', event)) :
    (∃ id answer h' shared' e, action = .run id answer ∧ event = .handler e ∧
      Advance id (p.server.handler id) p.server.shared answer h' shared' e ∧
      p'.server = p.server.update id h' shared') ∨
    (event.handled = [] ∧ p'.server.shared.kernel = p.server.shared.kernel ∧
      (p'.server.handler = p.server.handler ∨
        ∃ node fd, p'.server.handler = setHandler p.server.handler node (.fresh fd))) := by
  cases action with
  | main answer =>
    right
    refine ⟨?_, Process.main_kernel step, ?_⟩
    · cases main_cases step with
      | plain other => rcases other with rfl | rfl | ⟨node, rfl⟩ <;> rfl
      | created | passed | freed => rfl
    · cases main_cases step with
      | plain other timely handlers => exact .inl handlers
      | created _ node fd here handlers => exact .inr ⟨node, fd, handlers⟩
      | passed _ node rest here handlers => exact .inl handlers
      | freed _ node here handlers => exact .inl handlers
  | signal =>
    simp only [Process.step] at step
    split at step
    · cases step
    · cases step
      exact .inr ⟨rfl, rfl, .inl rfl⟩
  | run id answer =>
    simp only [Process.step] at step
    split at step
    · cases step
    · obtain ⟨⟨h', shared, e⟩, one, same⟩ := Option.map_eq_some_iff.mp step
      cases same
      exact .inl ⟨id, answer, h', shared, e, rfl, rfl, advance_cases one, rfl⟩

/-- What is known of the device and of the pieces on their way to clients. -/
structure Sourced (p : Process) (log : List Event) : Prop where
  device : ∃ j, Models p.server.shared.kernel j ∧ j.history = committedOf log
  piece : ∀ id, (p.server.handler id).pc.sends = true →
    Within (committedOf log) (p.server.handler id).piece
  answered : Answered log

theorem Answered.snoc (answered : Answered log)
    (last : ∀ id bytes count, event = .sent id bytes count → Within (committedOf log) bytes) :
    Answered (log ++ [event]) := by
  intro before id bytes count after split
  rcases Transition.split_snoc split with ⟨rfl, same⟩ | ⟨rest, earlier⟩
  · exact last id bytes count same.symm
  · exact answered before id bytes count rest earlier

theorem Sourced.run (sourced : Sourced p log)
    (device : ∀ cur, (p.server.handler id).pc = .use .read cur →
      (p.server.shared.lookup cur).map Prod.snd ≠ some .socket)
    (step : Advance id (p.server.handler id) p.server.shared answer h' shared' event)
    (next : p'.server = p.server.update id h' shared') : Sourced p' (log ++ [event]) := by
  obtain ⟨j, models, history⟩ := sourced.device
  obtain ⟨j', after, longer⟩ := step.history models
  refine ⟨⟨j', ?_, ?_⟩, ?_, sourced.answered.snoc ?_⟩
  · rw [next]
    exact after
  · rw [longer, history, committedOf_snoc]
  · rw [next, committedOf_snoc]
    apply update_all (P := fun _ h => h.pc.sends = true →
      Within (committedOf log ++ event.committed) h.piece)
    · intro sends
      rw [← history]
      refine (step.piece models device ?_ sends).grow _
      rw [history]
      exact sourced.piece id
    · exact fun x _ sends => (sourced.piece x sends).grow _
  · intro other bytes count sent
    obtain ⟨sends, rfl⟩ := step.sent sent
    exact sourced.piece id sends

theorem Sourced.step {event : ProcessEvent} (sourced : Sourced p log)
    (guard : ReadsDevice action p) (step : Process.step action p = some (p', event)) :
    Sourced p' (log ++ event.handled) := by
  rcases process_threads step with ⟨id, answer, h', shared', e, rfl, rfl, advance, next⟩ |
    ⟨quiet, kernel, handlers⟩
  · refine sourced.run ?_ advance next
    intro cur here
    simpa only [ReadsDevice, here] using guard
  · rw [quiet, List.append_nil]
    refine ⟨?_, ?_, sourced.answered⟩
    · rw [kernel]
      exact sourced.device
    · intro id sends
      rcases handlers with same | ⟨node, fd, same⟩
      · rw [same] at sends ⊢
        exact sourced.piece id sends
      · rw [same] at sends ⊢
        by_cases fresh : id = node
        · simp only [setHandler, if_pos fresh] at sends
          cases sends
        · simp only [setHandler, if_neg fresh] at sends ⊢
          exact sourced.piece id sends

theorem Process.initial_sourced : Sourced .initial [] where
  device := ⟨.empty, aesdInitModule_models, rfl⟩
  piece id sends := by cases sends
  answered before id bytes count after split := by simp at split

@[simp] theorem handledOf_snoc (events : List ProcessEvent) (event : ProcessEvent) :
    handledOf (events ++ [event]) = handledOf events ++ event.handled := by
  simp [handledOf]

theorem Sourced.of_run (guarded : Transition.Guarded Process.step ReadsDevice actions .initial)
    (run : Transition.execute Process.step actions .initial = some (p, events)) :
    Sourced p (handledOf events) := by
  have initial : (fun p events => Sourced p (handledOf events)) Process.initial [] :=
    Process.initial_sourced
  apply guarded.history (fun p events => Sourced p (handledOf events)) ?_ run initial
  intro action p before p' event sourced guard step
  rw [handledOf_snoc]
  exact sourced.step guard step

end Processes

section Streams

def Event.refused : Event → Bool
  | .wrote _ _ false _ _ => true
  | _ => false

/-- What was sent lies within one line of the bytes that the device took from the clients, in
the order in which it took them. -/
structure FromClients (log : List Event) : Prop where
  lines : ∀ before id bytes count after, log = before ++ .sent id bytes count :: after →
    Within (assembled before).done bytes
  consumed : Consumed log

/-- What is known when no `write` failed: the device holds the assembly of what it took. -/
structure Traced (p : Process) (log : List Event) : Prop where
  device : Models p.server.shared.kernel (.ofAssembly (assembled log))
  lines : ∀ before after, log = before ++ after → committedOf before = (assembled before).done
  heard : ∀ id, (p.server.handler id).pc.stage = .writing →
    lastReceived id log = some (p.server.handler id).chunk
  consumed : Consumed log

theorem Models.consumed_self {k : Kernel} (models : Models k j) : k.consumed k = [] := by
  rw [Kernel.consumed, if_pos rfl, models.pending, models.writeBufferSize]
  cases j.pending with
  | held bytes => exact List.drop_length
  | lost count => exact List.drop_nil

theorem Advance.heard_last (step : Advance id h shared answer h' shared' event)
    (heard : h.pc.stage = .writing → lastReceived id log = some h.chunk)
    (writing : h'.pc.stage = .writing) : lastReceived id (log ++ [event]) = some h'.chunk := by
  rw [lastReceived_snoc]
  cases step with
  | recvFailed stack beyond here => cases writing
  | recv bytes stack beyond here fits =>
    rw [receive_chunk]
    simp [Event.latest]
  | openFailed phase here | opened phase fd here free | assign phase fd here =>
    cases phase <;> first | exact heard (by rw [here]; rfl) | cases writing
  | check phase here =>
    cases phase with
    | data => exact heard (by rw [here]; rfl)
    | seek | reply =>
      cases current : shared.dataFileDescriptor <;> rw [current] at writing <;> cases writing
  | lock phase here free =>
    cases phase <;> first | exact heard (by rw [here]; rfl) | cases writing
  | load use here =>
    cases use <;> first | exact heard (by rw [here]; rfl) | cases writing
  | ioctl env cur here call | closeData cur here =>
    rcases nextIteration_stage h with next | next <;> cases next.symm.trans writing
  | write env socket cur ok here call => cases ok <;> cases writing
  | unlock phase here => cases phase <;> cases writing
  | send count here =>
    by_cases more : 0 < h.bytesFromFile
    · simp only [if_pos more] at writing
      cases writing
    · simp only [if_neg more] at writing
      cases writing
  | _ => cases writing

/-- The device and the assembly take the same bytes. -/
theorem Advance.assembled (step : Advance id h shared answer h' shared' event)
    (kept : event.refused = false) (models : Models shared.kernel (.ofAssembly (assembled log)))
    (lines : committedOf log = (Aesd.assembled log).done) :
    Models shared'.kernel (.ofAssembly (Aesd.assembled (log ++ [event]))) ∧
      committedOf (log ++ [event]) = (Aesd.assembled (log ++ [event])).done ∧
      ∀ other cur consumed committed, event = .wrote other cur true consumed committed →
        other = id ∧ h.pc.stage = .writing ∧ consumed <+: h.chunk := by
  have still : event.piece = [] → event.committed = [] →
      Aesd.assembled (log ++ [event]) = Aesd.assembled log ∧
        committedOf (log ++ [event]) = (Aesd.assembled (log ++ [event])).done := by
    intro piece committed
    have same : Aesd.assembled (log ++ [event]) = Aesd.assembled log := by
      rw [Aesd.assembled, pieces_snoc, piece, List.append_nil, ← Aesd.assembled]
    rw [committedOf_snoc, committed, List.append_nil, same]
    exact ⟨rfl, lines⟩
  cases step.inputEffect with
  | receive bytes stack beyond sent here fits next same record =>
    subst same record
    obtain ⟨assembly, lines⟩ := still rfl rfl
    rw [assembly] at lines ⊢
    exact ⟨models, lines, fun _ _ _ _ other => by cases other⟩
  | write env socket cur ok given here call next record =>
    subst record
    have writing : h.pc.stage = .writing := by
      rw [here]
      rfl
    have taken : ∀ xs, ok = true → shared.kernel.consumed shared'.kernel = xs →
        Aesd.assembled (log ++ [.wrote id cur ok (shared.kernel.consumed shared'.kernel)
          (shared.kernel.committed shared'.kernel)]) =
          (Aesd.assembled log).feed newline xs := by
      rintro xs rfl same
      rw [Aesd.assembled, pieces_snoc, piece_wrote, Delimited.stream_snoc,
        Delimited.assemble_append, ← Aesd.assembled, same]
    rcases Shared.write_journal models call with ⟨fine, fill, after⟩ | ⟨failed, _⟩ | ⟨fine, same, _⟩
    · have consumed := models.consumed after
      have grown := models.committed_accept after
      rw [Journal.accept_feed] at after grown
      rw [taken _ fine consumed]
      refine ⟨after, ?_, ?_⟩
      · rw [committedOf_snoc, committed_wrote, lines]
        exact grown.symm
      · rintro other cur' consumed' committed' wrote
        cases wrote
        exact ⟨rfl, writing, consumed ▸ Delimited.cut_isPrefix _⟩
    · subst failed
      cases kept
    · rw [same] at taken ⊢
      have nothing := models.consumed_self
      rw [taken [] fine nothing]
      refine ⟨models, ?_, ?_⟩
      · rw [committedOf_snoc, committed_wrote, models.committed_nothing models rfl, List.append_nil]
        exact lines
      · rintro other cur' consumed' committed' wrote
        cases wrote
        exact ⟨rfl, writing, nothing ▸ List.nil_prefix⟩
  | seek cur here device next record =>
    subst record
    obtain ⟨assembly, lines⟩ := still rfl rfl
    rw [assembly] at lines ⊢
    exact ⟨device _ models, lines, fun _ _ _ _ other => by cases other⟩
  | refused here failed =>
    have same : shared' = shared ∧ event = .checked id := by
      cases step with
      | check phase here' => exact ⟨rfl, rfl⟩
      | _ => simp_all
    obtain ⟨rfl, rfl⟩ := same
    obtain ⟨assembly, lines⟩ := still rfl rfl
    rw [assembly] at lines ⊢
    exact ⟨models, lines, fun _ _ _ _ other => by cases other⟩
  | quiet quiet device input stage =>
    obtain ⟨_, piece, committed⟩ := quiet_events quiet
    obtain ⟨assembly, lines⟩ := still piece committed
    rw [assembly] at lines ⊢
    refine ⟨device _ models, lines, ?_⟩
    rintro other cur consumed committed rfl
    cases quiet

theorem Traced.run (traced : Traced p log) (kept : event.refused = false)
    (step : Advance id (p.server.handler id) p.server.shared answer h' shared' event)
    (next : p'.server = p.server.update id h' shared') : Traced p' (log ++ [event]) := by
  obtain ⟨models, lines, wrote⟩ :=
    step.assembled kept traced.device (traced.lines log [] (List.append_nil _).symm)
  refine ⟨?_, ?_, ?_, ?_⟩
  · rw [next]
    exact models
  · intro before after split
    rcases List.eq_nil_or_concat after with rfl | ⟨rest, last, rfl⟩
    · rw [List.append_nil] at split
      rw [← split]
      exact lines
    · rw [List.concat_eq_append, ← List.append_assoc] at split
      exact traced.lines before rest (List.append_inj' split rfl).1
  · rw [next]
    apply update_all (P := fun x h => h.pc.stage = .writing →
      lastReceived x (log ++ [event]) = some h.chunk)
    · exact step.heard_last (traced.heard id)
    · intro x different writing
      rw [lastReceived_snoc, step.latest_other different]
      exact traced.heard x writing
  · intro before other cur consumed committed after split
    rcases Transition.split_snoc split with ⟨rfl, same⟩ | ⟨rest, earlier⟩
    · obtain ⟨rfl, writing, front⟩ := wrote other cur consumed committed same.symm
      exact ⟨_, traced.heard other writing, front⟩
    · exact traced.consumed before other cur consumed committed rest earlier

theorem Traced.step {event : ProcessEvent} (traced : Traced p log)
    (kept : ∀ e ∈ event.handled, e.refused = false)
    (step : Process.step action p = some (p', event)) : Traced p' (log ++ event.handled) := by
  rcases process_threads step with ⟨id, answer, h', shared', e, rfl, rfl, advance, next⟩ |
    ⟨quiet, kernel, handlers⟩
  · exact traced.run (kept e (List.mem_singleton_self e)) advance next
  · rw [quiet, List.append_nil]
    refine ⟨?_, traced.lines, ?_, traced.consumed⟩
    · rw [kernel]
      exact traced.device
    · intro id writing
      rcases handlers with same | ⟨node, fd, same⟩
      · rw [same] at writing ⊢
        exact traced.heard id writing
      · rw [same] at writing ⊢
        by_cases fresh : id = node
        · simp only [setHandler, if_pos fresh] at writing
          cases writing
        · simp only [setHandler, if_neg fresh] at writing ⊢
          exact traced.heard id writing

theorem Process.initial_traced : Traced .initial [] where
  device := aesdInitModule_models
  lines before after split := by
    obtain ⟨rfl, _⟩ := List.append_eq_nil_iff.mp split.symm
    rfl
  heard id writing := by cases writing
  consumed before id fd consumed committed after split := by simp at split

theorem Traced.of_run (run : Transition.execute Process.step actions .initial = some (p, events))
    (kept : ∀ event ∈ handledOf events, event.refused = false) : Traced p (handledOf events) := by
  apply Transition.execute_history (fun p events =>
    (∀ event ∈ handledOf events, event.refused = false) → Traced p (handledOf events)) ?_ run
    (fun _ => Process.initial_traced) kept
  intro action p before p' event traced step kept
  rw [handledOf_snoc] at kept ⊢
  exact (traced fun e member => kept e (List.mem_append_left _ member)).step
    (fun e member => kept e (List.mem_append_right _ member)) step

end Streams

section Results

/-- Whatever fails and however the threads interleave: what is sent to a client lies within one
command that was committed before, so it shows no unfinished line, runs over no two commands
and comes from nowhere else. -/
theorem replies_committed
    (guarded : Transition.Guarded Process.step ReadsDevice actions .initial)
    (run : Transition.execute Process.step actions .initial = some (p, events)) :
    Answered (handledOf events) :=
  (Sourced.of_run guarded run).answered

/-- When no `write` fails, what is sent lies within one line of what the clients sent. -/
theorem replies_received
    (guarded : Transition.Guarded Process.step ReadsDevice actions .initial)
    (run : Transition.execute Process.step actions .initial = some (p, events))
    (kept : ∀ event ∈ handledOf events, event.refused = false) :
    FromClients (handledOf events) := by
  have traced := Traced.of_run run kept
  refine ⟨?_, traced.consumed⟩
  intro before id bytes count after split
  rw [← traced.lines before _ split]
  exact (Sourced.of_run guarded run).answered before id bytes count after split

def twoServed : List ProcessAction :=
  acceptClient 0 4 ++ [.main .quiet, .main .quiet] ++
    (lineTaken [98, newline] 6 2 ++ replyEnded).map (.run 0) ++
    acceptClient 1 5 ++ (lineTaken [97, newline] 6 2).map (.run 1)

theorem twoServed_runs : ∃ p events,
    Transition.execute Process.step twoServed .initial = some (p, events) ∧
      (∀ event ∈ handledOf events, event.refused = false) := by
  have runs : (Transition.execute Process.step twoServed .initial).map
      (fun last => (handledOf last.2).all fun event => !event.refused) = some true := by
    decide +kernel
  obtain ⟨⟨p, events⟩, run, kept⟩ := Option.map_eq_some_iff.mp runs
  refine ⟨p, events, run, fun event member => ?_⟩
  simpa using List.all_eq_true.mp kept event member

theorem twoServed_reads : Transition.Guarded Process.step ReadsDevice twoServed .initial := by
  decide +kernel

theorem replies_committed_two :
    ∃ p events, Transition.execute Process.step twoServed .initial = some (p, events) ∧
      Answered (handledOf events) := by
  obtain ⟨p, events, run, _⟩ := twoServed_runs
  exact ⟨p, events, run, replies_committed twoServed_reads run⟩

theorem replies_received_two :
    ∃ p events, Transition.execute Process.step twoServed .initial = some (p, events) ∧
      FromClients (handledOf events) := by
  obtain ⟨p, events, run, kept⟩ := twoServed_runs
  exact ⟨p, events, run, replies_received twoServed_reads run kept⟩

end Results

end Aesd
