import Aesd.ReceiveLoop
import Aesd.Reply

/-! Clients served one after another. Each sends a line, which the device takes up piece by
piece, and gets back the last ten lines. -/
namespace Aesd

variable {id fd n rank : Nat} {answer : Answer} {answers : List Answer} {h h' : Handler}
  {shared shared' : Shared} {s s' s₀ : Server} {event : Event} {log events : List Event}
  {history : List (List Byte)} {line : List Byte} {served : List (List Byte × List Byte)}

def Journal.complete (history : List (List Byte)) (line : List Byte) : Journal :=
  ⟨history ++ [line], .held []⟩

/-- The device has taken of the line what was received and is not still to be written. -/
def Taken (history : List (List Byte)) (received : List Byte) (h : Handler) (s : Shared) : Prop :=
  ∃ taken, taken ++ h.toWrite = received ∧
    Models s.kernel (.ofAssembly (Delimited.Assembly.feed newline ⟨history, []⟩ taken))

/-- The stages of a client's service. -/
inductive Attending (history : List (List Byte)) (line : List Byte) (h : Handler) (s : Shared)
    (log : List Event) : Prop
  | receiving (looping : h.pc.looping = true) (plain : h.pc.branch ≠ some .seek)
      (heard : h.pc.branch ≠ none → h.chunk ∈ chunksOf log) (silent : sentOf log = [])
      (taken : Taken history (chunksOf log).flatten h s)
  | replying (rank : Nat) (models : Models s.kernel (.complete history line))
      (replying : Replying (Journal.complete history line).content h s (sentOf log) rank)
  | leaving (models : Models s.kernel (.complete history line)) (leaving : h.pc.leaving = true)
      (all : sentOf log = (Journal.complete history line).content)

theorem looping_silent (looping : h.pc.looping = true)
    (step : Advance id h shared answer h' shared' event) : event.sentBytes = [] := by
  cases step with
  | sendFailed here | send count here =>
    rw [here] at looping
    cases looping
  | _ => rfl

/-- What is received of a line, once a newline is in it, is the whole line. -/
theorem received_whole (whole : Delimited.Segment newline line) {received : List Byte}
    (delivered : received <+: line) (ends : newline ∈ received) : received = line := by
  obtain ⟨back, rfl⟩ := delivered
  have segment : Delimited.Segment newline ([] ++ received ++ back) := by simpa using whole
  obtain ⟨rfl, _⟩ := segment.piece ends
  rw [List.append_nil]

/-- The device takes all of a chunk of the line. -/
theorem chunk_uncut (whole : Delimited.Segment newline line) {taken chunk : List Byte}
    (delivered : taken ++ chunk <+: line) : Delimited.cut newline chunk = chunk := by
  obtain ⟨back, rfl⟩ := delivered
  exact (Delimited.cut_eq_self_iff chunk).mpr fun ends => (whole.piece ends).2

theorem feed_line (history : List (List Byte)) (whole : Delimited.Segment newline line) :
    Journal.ofAssembly (Delimited.Assembly.feed newline ⟨history, []⟩ line) =
      .complete history line := by
  obtain ⟨body, clear, rfl⟩ := whole
  rw [Delimited.feed_closed _ body clear]
  rfl

theorem Taken.write {env : WriteEnv} {socket : Bool} {cur : Option Nat} {received : List Byte}
    (taken : Taken history received h shared) (works : h.pc.Works shared)
    (whole : Delimited.Segment newline line) (delivered : received <+: line)
    (here : h.pc = .use .write cur)
    (call : shared.write env socket cur h.chunk = some (true, shared')) :
    Taken history received { h with pc := .unlock .data } shared' := by
  obtain ⟨front, split, models⟩ := taken
  have written : h.toWrite = h.chunk := if_pos (by rw [here]; rfl)
  rw [written] at split
  refine ⟨received, List.append_nil received, ?_⟩
  rcases Shared.write_journal models call with ⟨_, fill, after⟩ | ⟨failed, _⟩ | ⟨_, _, n, socket⟩
  · rw [Journal.accept_feed, chunk_uncut whole (by rw [split]; exact delivered),
      ← Delimited.feed_append, split] at after
    exact after
  · cases failed
  · rw [here] at works
    obtain ⟨m, fpos, writable, mine, file, _⟩ := works rfl
    have given : cur = some m := mine
    rw [given, lookup_of_file file] at socket
    cases socket

theorem Attending.turn (plain : h.pc.branch = some .data) (routed : h.Routed)
    (heard : h.chunk ∈ chunksOf log) (silent : sentOf log = [])
    (settled : h.toWrite = []) (taken : Taken history (chunksOf log).flatten h shared)
    (kept : ∀ j, Models shared.kernel j → Models shared'.kernel j)
    (whole : Delimited.Segment newline line) (delivered : (chunksOf log).flatten <+: line)
    (result : event.result = []) (nothing : event.sentBytes = []) :
    Attending history line h.nextIteration shared' (log ++ [event]) := by
  obtain ⟨all, split, models⟩ := taken
  rw [settled, List.append_nil] at split
  have unseeking : h.seeks = false := routed.2 plain
  by_cases ends : newline ∈ h.chunk
  · have complete := received_whole whole delivered (List.mem_flatten.mpr ⟨_, heard, ends⟩)
    have next : h.nextIteration.pc = .opening .reply := by
      simp [Handler.nextIteration, ends, unseeking]
    rw [split, complete, feed_line history whole] at models
    refine .replying (5 * (Journal.complete history line).content.length + 8) (kept _ models) ?_
    simp only [Replying, next, and_true]
    rw [sentOf_snoc, silent, nothing, List.append_nil]
  · have next : h.nextIteration.pc = .recv := (nextIteration_recv h).mpr ends
    refine .receiving (looping_recv next) ?_ ?_ ?_ ⟨all, ?_, kept _ models⟩
    · rw [next]
      exact fun same => by cases same
    · rw [next]
      exact fun inside => absurd rfl inside
    · rw [sentOf_snoc, silent, nothing, List.append_nil]
    · rw [chunksOf_quiet result, split, Handler.toWrite, next]
      exact List.append_nil _

theorem Attending.receive (looping : h.pc.looping = true) (plain : h.pc.branch ≠ some .seek)
    (heard : h.pc.branch ≠ none → h.chunk ∈ chunksOf log) (silent : sentOf log = [])
    (taken : Taken history (chunksOf log).flatten h shared) (poised : Poised id h shared)
    (routed : h.Routed) (whole : Delimited.Segment newline line)
    (step : Advance id h shared answer h' shared' event) (fine : event.failed = false)
    (data : ∀ result ∈ event.result, result.2 = none)
    (delivered : (chunksOf (log ++ [event])).flatten <+: line) :
    Attending history line h' shared' (log ++ [event]) := by
  have nothing := looping_silent looping step
  have still : sentOf (log ++ [event]) = [] := by
    rw [sentOf_snoc, silent, nothing, List.append_nil]
  cases step.turn with
  | receive bytes here inside depth chunk same result routing =>
    subst same
    have stage := routing data
    have heard' : chunksOf (log ++ [event]) = chunksOf log ++ [bytes] := by
      rw [chunksOf_snoc, result]
    obtain ⟨all, split, models⟩ := taken
    have settled : h.toWrite = [] := by
      rw [Handler.toWrite, here]
      rfl
    rw [settled, List.append_nil] at split
    refine .receiving (looping_inside inside) ?_ ?_ still ⟨all, ?_, models⟩
    · rw [stage_writing stage]
      exact fun same => by cases same
    · intro _
      rw [heard', chunk]
      exact List.mem_append_right _ (List.mem_singleton_self _)
    · rw [heard', List.flatten_append, split, Handler.toWrite, if_pos stage, chunk]
      simp
  | act before branch depth chunk result toWrite device =>
    rw [chunksOf_quiet result] at delivered
    obtain ⟨all, split, models⟩ := taken
    refine .receiving (looping_inside (branch ▸ before)) (branch ▸ plain) ?_ still
      ⟨all, ?_, device _ models⟩
    · intro _
      rw [chunksOf_quiet result, chunk]
      exact heard before
    · rw [chunksOf_quiet result, toWrite, split]
  | write env socket cur here call next result =>
    subst next
    rw [chunksOf_quiet result] at delivered
    refine .receiving (looping_inside (Option.some_ne_none _)) ?_ ?_ still ?_
    · exact fun same => by cases same
    · intro _
      rw [chunksOf_quiet result]
      exact heard (by rw [here]; exact Option.some_ne_none _)
    · rw [chunksOf_quiet result]
      exact taken.write poised.works whole delivered here call
  | turn before next result settled device =>
    subst next
    rw [chunksOf_quiet result] at delivered
    obtain ⟨phase, branch⟩ := Option.ne_none_iff_exists'.mp before
    rcases Pc.branch_cases branch with rfl | rfl
    · exact absurd branch plain
    · exact .turn branch routed (heard before) silent settled taken device whole delivered result
        nothing
  | leave outside result cause =>
    rcases cause looping with failed | ⟨working, none⟩
    · cases fine.symm.trans failed
    · obtain ⟨n, _, _, known, _⟩ := poised.works working
      cases none.symm.trans known

structure Attended (id : Nat) (history : List (List Byte)) (line : List Byte) (h : Handler)
    (s : Shared) (log : List Event) : Prop where
  poised : Poised id h s
  routed : h.Routed
  attending : Attending history line h s log

theorem Attended.step (attended : Attended id history line h shared log)
    (whole : Delimited.Segment newline line)
    (step : Advance id h shared answer h' shared' event) (healthy : event.healthy = true)
    (data : ∀ result ∈ event.result, result.2 = none)
    (delivered : (chunksOf (log ++ [event])).flatten <+: line) :
    Attended id history line h' shared' (log ++ [event]) := by
  obtain ⟨poised, routed, attending⟩ := attended
  have fine := Event.healthy_fine healthy
  refine ⟨poised.step routed step fine, step.routed routed, ?_⟩
  cases attending with
  | receiving looping plain heard silent taken =>
    exact .receive looping plain heard silent taken poised routed whole step fine data delivered
  | replying rank models replying =>
    have after := step.kept (replying_outside replying.stage) models
    rcases replying.step models rfl (fun cur here => poised.loaded .read cur here) step healthy with
      ⟨rank', _, next⟩ | ⟨leaving, all⟩
    · exact .replying rank' after (by rwa [sentOf_snoc])
    · exact .leaving after leaving (by rwa [sentOf_snoc])
  | leaving models leaving all =>
    obtain ⟨still, nothing⟩ := leaving_step leaving step
    refine .leaving (step.kept (leaving_outside leaving) models) still ?_
    rw [sentOf_snoc, nothing, List.append_nil, all]

/-- The run in which the client that sends `line` is accepted and its thread `id` works, while
nobody else does. No call fails, and every result of `recv` takes the data branch. -/
structure Attends (s₀ : Server) (id fd : Nat) (line : List Byte) (s : Server)
    (events : List Event) : Prop where
  run : ∃ answers : List Answer, Transition.execute Server.step
    (.accept id fd :: answers.map (.run id)) s₀ = some (s, .accepted id fd :: events)
  healthy : ∀ event ∈ events, event.healthy = true
  plain : ∀ result ∈ resultsOf events, result.2 = none
  delivered : (chunksOf events).flatten <+: line

/-- Clients served one after another by a process on a fresh device: their lines and what was
sent back. -/
inductive Session : List (List Byte × List Byte) → Server → Prop
  | start : Session [] .initial
  | serve {served : List (List Byte × List Byte)} {line : List Byte} {s₀ s : Server} {id fd : Nat}
      {events : List Event} (session : Session served s₀) (whole : Delimited.Segment newline line)
      (attends : Attends s₀ id fd line s events) (ended : (s.handler id).pc.finished = true) :
      Session (served ++ [(line, sentOf events)]) s

/-- The reply loop of a client's thread ends after finitely many steps, and no state of it is
stuck. -/
structure ReplyEnds (s₀ : Server) (id fd : Nat) (line : List Byte) : Prop where
  exits : ∃ bound, ∀ s events, Attends s₀ id fd line s events → (s.handler id).pc.replying = true →
    ∀ (answers : List Answer) s' later,
      Transition.execute Server.step (answers.map (.run id)) s = some (s', later) →
      (∀ event ∈ later, event.healthy = true) → (s'.handler id).pc.replying = true →
      later.length ≤ bound
  goesOn : ∀ s events, Attends s₀ id fd line s events → (s.handler id).pc.replying = true →
    ∃ s' event, Attends s₀ id fd line s' (events ++ [event])

/-- The process between two clients that sent `history`. -/
structure Rested (s : Server) (history : List (List Byte)) : Prop where
  models : Models s.shared.kernel ⟨history, .held []⟩
  roomy : s.shared.Roomy
  unlocked : s.shared.lock = none

theorem Attended.start (rested : Rested s₀ history) (fd : Nat) :
    Attended id history line (.fresh fd)
      { s₀.shared with files := setFile s₀.shared.files fd (some .socket) } [] where
  poised :=
    { device := ⟨_, rested.models⟩
      roomy := rested.roomy.opened fd _
      lock := rested.unlocked
      works := .idle rfl
      loaded := fun use cur here => by cases here
      client := fun _ => setFile_same _ _ _ }
  routed := .outside rfl
  attending := by
    refine .receiving rfl ?_ ?_ rfl ⟨[], rfl, rested.models⟩
    · intro seek
      cases seek
    · intro inside
      exact absurd rfl inside

theorem Attends.thread (attends : Attends s₀ id fd line s events) :
    ∃ answers, Transition.execute (threadStep id) answers
      (.fresh fd, { s₀.shared with files := setFile s₀.shared.files fd (some .socket) }) =
        some ((s.handler id, s.shared), events) := by
  obtain ⟨answers, run⟩ := attends.run
  obtain ⟨s₁, first, later, one, tail, same⟩ := Transition.execute_cons_iff.mp run
  rcases step_cases one with ⟨_, _, same', _, _, rfl, _⟩ | ⟨_, _, _, _, other, _⟩
  · cases same'
    cases same
    rw [execute_thread, update_handler, update_shared] at tail
    obtain ⟨⟨⟨h, shared⟩, later⟩, thread, outcome⟩ := Option.map_eq_some_iff.mp tail
    cases outcome
    exact ⟨answers, by rw [thread, update_handler, update_shared]⟩
  · cases other

theorem Attends.attended (rested : Rested s₀ history) (whole : Delimited.Segment newline line)
    (attends : Attends s₀ id fd line s events) :
    Attended id history line (s.handler id) s.shared events := by
  obtain ⟨answers, run⟩ := attends.thread
  apply Transition.execute_history (fun (t : Handler × Shared) log =>
    (∀ event ∈ log, event.healthy = true) → (∀ result ∈ resultsOf log, result.2 = none) →
      (chunksOf log).flatten <+: line → Attended id history line t.1 t.2 log) ?_ run
    (fun _ _ _ => .start rested fd) attends.healthy attends.plain attends.delivered
  intro answer t log next event attended step healthy plain delivered
  have earlier : (chunksOf log).flatten <+: line := by
    rw [chunksOf_snoc, List.flatten_append] at delivered
    exact (List.prefix_append _ _).trans delivered
  rw [resultsOf_snoc] at plain
  have before := attended (fun e member => healthy e (List.mem_append_left _ member))
    (fun result member => plain result (List.mem_append_left _ member)) earlier
  exact before.step whole (threadStep_cases step) (healthy event (by simp))
    (fun result member => plain result (List.mem_append_right _ member)) delivered

theorem replying_looping {pc : Pc} (replying : pc.replying = true) : pc.looping = false := by
  unfold Pc.replying at replying
  split at replying <;> first | rfl | cases replying

theorem Attending.replies (attending : Attending history line h shared log)
    (replying : h.pc.replying = true) : Models shared.kernel (.complete history line) ∧
      ∃ rank, Replying (Journal.complete history line).content h shared (sentOf log) rank := by
  cases attending with
  | receiving looping plain heard silent taken =>
    cases looping.symm.trans (replying_looping replying)
  | replying rank models replying => exact ⟨models, rank, replying⟩
  | leaving models leaving all => cases replying.symm.trans (leaving_replying leaving)

theorem Attending.ended (attending : Attending history line h shared log)
    (ended : h.pc.finished = true) : Models shared.kernel (.complete history line) ∧
      h.pc.leaving = true ∧ sentOf log = (Journal.complete history line).content := by
  have final : h.pc.looping = false ∧ h.pc.replying = false := by
    unfold Pc.finished at ended
    split at ended
    · rename_i here
      rw [here]
      exact ⟨rfl, rfl⟩
    · cases ended
  cases attending with
  | receiving looping plain heard silent taken => cases looping.symm.trans final.1
  | replying rank models replying => cases replying.stage.symm.trans final.2
  | leaving models leaving all => exact ⟨models, leaving, all⟩

theorem leaving_critical {pc : Pc} (leaving : pc.leaving = true) : pc.critical = false := by
  unfold Pc.leaving at leaving
  split at leaving <;> first | rfl | cases leaving

theorem Attends.rested (rested : Rested s₀ history) (whole : Delimited.Segment newline line)
    (attends : Attends s₀ id fd line s events) (ended : (s.handler id).pc.finished = true) :
    Rested s (history ++ [line]) ∧ sentOf events = (lastTen (history ++ [line])).flatten := by
  have attended := attends.attended rested whole
  obtain ⟨models, leaving, all⟩ := attended.attending.ended ended
  have lock := attended.poised.lock
  rw [leaving_critical leaving] at lock
  exact ⟨⟨models, attended.poised.roomy, lock⟩, all⟩

theorem initial_rested : Rested .initial [] where
  models := aesdInitModule_models
  roomy := ⟨0, fun _ _ => rfl⟩
  unlocked := rfl

theorem Session.rested (session : Session served s) : Rested s (served.map Prod.fst) := by
  induction session with
  | start => exact initial_rested
  | serve session whole attends ended ih =>
    rw [List.map_append]
    exact (attends.rested ih whole ended).1

theorem Session.replies (session : Session served s) (k : Nat) (inside : k < served.length) :
    served[k].2 = (lastTen ((served.map Prod.fst).take (k + 1))).flatten := by
  induction session with
  | start => cases inside
  | @serve served _ _ _ _ _ _ session whole attends ended ih =>
    by_cases earlier : k < served.length
    · have lines : k + 1 ≤ (served.map Prod.fst).length := by
        rw [List.length_map]
        exact earlier
      rw [List.getElem_append_left earlier, List.map_append, List.take_append_of_le_length lines]
      exact ih earlier
    · have last : k = served.length := by
        rw [List.length_append, List.length_singleton] at inside
        omega
      subst last
      rw [List.getElem_concat_length rfl, List.take_of_length_le (by simp), List.map_append]
      exact (attends.rested session.rested whole ended).2

theorem Attends.snoc (attends : Attends s₀ id fd line s events)
    (step : Advance id (s.handler id) s.shared answer h' shared' event)
    (healthy : event.healthy = true) (result : event.result = []) :
    Attends s₀ id fd line (s.update id h' shared') (events ++ [event]) where
  run := by
    obtain ⟨answers, run⟩ := attends.run
    refine ⟨answers ++ [answer], ?_⟩
    rw [List.map_append]
    exact Transition.execute_snoc_iff.mpr ⟨s, run, step.served⟩
  healthy := by
    intro e member
    rcases List.mem_append.mp member with earlier | last
    · exact attends.healthy e earlier
    · rw [List.mem_singleton.mp last]
      exact healthy
  plain := by
    rw [resultsOf_snoc, result, List.append_nil]
    exact attends.plain
  delivered := by
    rw [chunksOf_quiet result]
    exact attends.delivered

/-- In the reply loop the thread can go on. -/
theorem Attends.goesOn (attended : Attended id history line (s.handler id) s.shared events)
    (attends : Attends s₀ id fd line s events) (replying : (s.handler id).pc.replying = true) :
    ∃ s' event, Attends s₀ id fd line s' (events ++ [event]) := by
  have elsewhere : (s.handler id).pc ≠ .idle ∧ (s.handler id).pc ≠ .recv ∧
      (s.handler id).pc.finished = false ∧ ∀ cur, (s.handler id).pc ≠ .use .write cur := by
    unfold Pc.replying at replying
    split at replying
    case h_9 => cases replying
    all_goals
      rename_i here
      rw [here]
      exact ⟨Pc.noConfusion, Pc.noConfusion, rfl, fun cur same => by cases same⟩
  obtain ⟨started, receiving, running, writing⟩ := elsewhere
  obtain ⟨answer, h', shared', event, step, healthy, result⟩ :=
    attended.poised.progress started running [] (Nat.zero_le _)
      (fun cur here => absurd here (writing cur))
  rw [if_neg receiving] at result
  exact ⟨_, event, attends.snoc (threadStep_cases step) healthy (List.map_eq_nil_iff.mp result)⟩

theorem Rested.replyEnds (rested : Rested s₀ history) (whole : Delimited.Segment newline line) :
    ReplyEnds s₀ id fd line where
  exits := by
    refine ⟨5 * (Journal.complete history line).content.length + 8, ?_⟩
    intro s events attends replying answers s' later run healthy still
    have attended := attends.attended rested whole
    obtain ⟨models, rank, replying⟩ := attended.attending.replies replying
    rw [execute_thread] at run
    obtain ⟨⟨⟨h, shared⟩, later⟩, thread, outcome⟩ := Option.map_eq_some_iff.mp run
    cases outcome
    rw [update_handler] at still
    exact (replying.run models attended.poised attended.routed thread healthy still).trans
      replying.rank_le
  goesOn s events attends replying := attends.goesOn (attends.attended rested whole) replying

structure Service where
  accepted : List Event
  healthy : Bool
  plain : Bool
  chunks : List (List Byte)
  reply : List Byte
  pc : Pc
  deriving DecidableEq

def serviceOf (id : Nat) (last : Server × List Event) : Service where
  accepted := last.2.take 1
  healthy := last.2.tail.all Event.healthy
  plain := (resultsOf last.2.tail).all (·.2.isNone)
  chunks := chunksOf last.2.tail
  reply := sentOf last.2.tail
  pc := (last.1.handler id).pc

theorem Session.next {answers : List Answer} {reply : List Byte} {last : Server × List Event}
    (session : Session served s₀) (whole : Delimited.Segment newline line)
    (run : Transition.execute Server.step (.accept id fd :: answers.map (.run id)) s₀ = some last)
    (service : serviceOf id last =
      ⟨[.accepted id fd], true, true, [line], reply, .returned true⟩) :
    Session (served ++ [(line, reply)]) last.1 := by
  obtain ⟨s, events⟩ := last
  simp only [serviceOf, Service.mk.injEq] at service
  obtain ⟨first, healthy, plain, chunks, sent, ended⟩ := service
  obtain ⟨_, rfl⟩ : ∃ later, events = .accepted id fd :: later :=
    ⟨events.tail, by rw [← List.take_append_drop 1 events, first]; rfl⟩
  rw [List.tail_cons] at healthy plain chunks sent
  rw [← sent]
  refine .serve session whole ⟨⟨answers, run⟩, List.all_eq_true.mp healthy, ?_, ?_⟩ ?_
  · intro result member
    exact Option.isNone_iff_eq_none.mp (List.all_eq_true.mp plain result member)
  · rw [chunks]
    simp
  · rw [ended]
    rfl

def answersA : List Answer := lineTaken [97, newline] 5 2 ++ replyEnded

def answersB : List Answer :=
  lineTaken [98, newline] 5 2 ++
    ([.quiet, .quiet, .read .success none, .quiet, .send (some 2)] : List Answer) ++ replyEnded

theorem twoClients_outcome :
    ((Transition.execute Server.step (.accept 0 4 :: answersA.map (.run 0)) .initial).bind fun one =>
      (Transition.execute Server.step (.accept 1 4 :: answersB.map (.run 1)) one.1).map fun two =>
        (serviceOf 0 one, serviceOf 1 two)) =
    some (⟨[.accepted 0 4], true, true, [[97, newline]], [97, newline], .returned true⟩,
      ⟨[.accepted 1 4], true, true, [[98, newline]], [97, newline, 98, newline], .returned true⟩) := by
  decide +kernel

theorem twoClients_session :
    ∃ s, Session [([97, newline], [97, newline]), ([98, newline], [97, newline, 98, newline])] s := by
  obtain ⟨one, first, rest⟩ := Option.bind_eq_some_iff.mp twoClients_outcome
  obtain ⟨two, second, services⟩ := Option.map_eq_some_iff.mp rest
  obtain ⟨serviceA, serviceB⟩ := Prod.mk.inj services
  have wholeA : Delimited.Segment newline [97, newline] := ⟨[97], by decide, rfl⟩
  have wholeB : Delimited.Segment newline [98, newline] := ⟨[98], by decide, rfl⟩
  exact ⟨two.1, (Session.start.next wholeA first serviceA).next wholeB second serviceB⟩

end Aesd
