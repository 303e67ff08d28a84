import Aesd.Input
import Aesd.Library.Interleaving
import Aesd.Mutex

/-! The lines of several clients. The device assembles one line for all handlers, and a handler
holds the mutex for one write only. When a handler writes only while no line is pending, or
while the pending line is its own, every command is one client's complete line. -/
namespace Aesd

variable {id other : Nat} {answer : Answer} {h h' : Handler} {shared shared' : Shared}
  {event : Event} {action : Action} {actions : List Action} {log : List Event} {s s' : Server}
  {line : Nat → List Byte}

def Event.receivedBy (id : Nat) : Event → List Byte
  | .received other (some bytes) _ => if other = id then bytes else []
  | _ => []

def receivedBy (id : Nat) (events : List Event) : List Byte := events.flatMap (Event.receivedBy id)

def Event.piece : Event → List (Nat × List Byte)
  | .wrote id _ true consumed _ => [(id, consumed)]
  | _ => []

/-- What the device took from each successful `write`, and from whom. -/
def pieces (events : List Event) : List (Nat × List Byte) := events.flatMap Event.piece

def Event.committed : Event → List (List Byte)
  | .wrote _ _ _ _ committed => committed
  | _ => []

def committedOf (events : List Event) : List (List Byte) := events.flatMap Event.committed

def assembled (events : List Event) : Delimited.Assembly Byte :=
  Delimited.assemble newline (Delimited.stream (pieces events))

/-- Each client has sent a first part of its line. -/
def Sends (line : Nat → List Byte) (events : List Event) : Prop :=
  ∀ id, receivedBy id events <+: line id

/-- A `recv` leaves no seek request in the buffer. A `write` does not go to a socket, and no
line is pending that another handler wrote to last. -/
def WritesOwnLine (action : Action) (p : Server × List Event) : Prop :=
  match action with
  | .accept _ _ => True
  | .run id answer =>
    match (p.1.handler id).pc, answer with
    | .recv, .recv (some bytes) _ _ => isSeek (overlay (p.1.handler id).receiveBuffer bytes) = false
    | .use .write fd, _ =>
      (p.1.shared.lookup fd).map Prod.snd ≠ some .socket ∧
        ((p.1.handler id).chunk = [] ∨ p.1.shared.kernel.dev.writeBufferSize = 0 ∨
          Delimited.lastParty (pieces p.2) = some id)
    | _, _ => True

instance : ∀ action p, Decidable (WritesOwnLine action p)
  | .accept _ _, _ => isTrue trivial
  | .run id answer, p => by
    unfold WritesOwnLine
    dsimp only
    split <;> infer_instance

@[simp] theorem receivedBy_snoc :
    receivedBy id (log ++ [event]) = receivedBy id log ++ event.receivedBy id := by
  simp [receivedBy]

@[simp] theorem pieces_snoc : pieces (log ++ [event]) = pieces log ++ event.piece := by
  simp [pieces]

@[simp] theorem committedOf_snoc :
    committedOf (log ++ [event]) = committedOf log ++ event.committed := by
  simp [committedOf]

@[simp] theorem receivedBy_wrote (fd : Option Nat) (ok : Bool) (consumed : List Byte)
    (committed : List (List Byte)) :
    (Event.wrote other fd ok consumed committed).receivedBy id = [] := rfl

@[simp] theorem piece_wrote (fd : Option Nat) (consumed : List Byte)
    (committed : List (List Byte)) :
    (Event.wrote id fd true consumed committed).piece = [(id, consumed)] := rfl

@[simp] theorem piece_failed (fd : Option Nat) (consumed : List Byte)
    (committed : List (List Byte)) :
    (Event.wrote id fd false consumed committed).piece = [] := rfl

@[simp] theorem committed_wrote (fd : Option Nat) (ok : Bool) (consumed : List Byte)
    (committed : List (List Byte)) :
    (Event.wrote id fd ok consumed committed).committed = committed := rfl

theorem Sends.before (sends : Sends line (log ++ [event])) : Sends line log := by
  intro id
  have front := sends id
  rw [receivedBy_snoc] at front
  exact (List.prefix_append _ _).trans front

theorem quiet_events (quiet : event.quiet = true) :
    (∀ x, event.receivedBy x = []) ∧ event.piece = [] ∧ event.committed = [] := by
  cases event with
  | received id bytes seek =>
    cases bytes with
    | none => exact ⟨fun _ => rfl, rfl, rfl⟩
    | some bytes => exact Bool.noConfusion quiet
  | wrote id fd ok consumed committed => exact Bool.noConfusion quiet
  | sought id fd seekto => exact Bool.noConfusion quiet
  | _ => exact ⟨fun _ => rfl, rfl, rfl⟩

/-- How what the handlers received relates to what the device took from them. A handler that
returned with the mutex may have spoiled the pending line, but then no other one writes. -/
structure Account (s : Server) (log : List Event) : Prop where
  owned : Owned s
  routed : ∀ id, (s.handler id).Routed
  plain : ∀ id, (s.handler id).seeks = false
  progress : ∀ id, ∃ rest, receivedBy id log = Delimited.part id (pieces log) ++ rest ∧
    ((s.handler id).pc.stage = .writing → rest = (s.handler id).chunk) ∧
    ((s.handler id).pc.stage = .settled → rest = [])
  exclusive : Delimited.Exclusive newline (pieces log)
  committed : committedOf log = (assembled log).done
  device : ∃ j, Models s.shared.kernel j ∧ j.history = (assembled log).done ∧
    (MutexFree s → j.pending = .held (assembled log).rest)

theorem Account.stage (account : Account s log) (id : Nat) :
    (s.handler id).pc.stage ≠ .seeking := by
  intro seeking
  have seeks := (account.routed id).1 (stage_seeking.mp seeking)
  rw [account.plain id] at seeks
  exact Bool.noConfusion seeks

/-- A plain handler has no more to write after a step than before. -/
structure Keeps (h h' : Handler) : Prop where
  plain : h'.seeks = false
  writing : h'.pc.stage = .writing → h.pc.stage = .writing ∧ h'.chunk = h.chunk
  settled : h'.pc.stage = .settled → h.pc.stage = .settled

theorem Keeps.refl (plain : h.seeks = false) : Keeps h h :=
  ⟨plain, fun now => ⟨now, rfl⟩, fun now => now⟩

theorem Account.quiet (account : Account s log) (owned : Owned s')
    (free : MutexFree s' → MutexFree s) (routed : ∀ x, (s'.handler x).Routed)
    (handler : ∀ x, Keeps (s.handler x) (s'.handler x))
    (received : ∀ x, event.receivedBy x = []) (piece : event.piece = [])
    (committed : event.committed = [])
    (models : ∀ j, Models s.shared.kernel j → ∃ j', Models s'.shared.kernel j' ∧
      j'.history = j.history ∧ (MutexFree s' → j'.pending = j.pending)) :
    Account s' (log ++ [event]) := by
  have same : pieces (log ++ [event]) = pieces log := by rw [pieces_snoc, piece, List.append_nil]
  have assembly : assembled (log ++ [event]) = assembled log := by
    rw [assembled, same, ← assembled]
  refine ⟨owned, routed, fun x => (handler x).plain, fun x => ?_, ?_, ?_, ?_⟩
  · obtain ⟨rest, whole, writing, settled⟩ := account.progress x
    refine ⟨rest, ?_, fun now => ?_, fun now => settled ((handler x).settled now)⟩
    · rw [receivedBy_snoc, received, List.append_nil, same, whole]
    · obtain ⟨before, chunk⟩ := (handler x).writing now
      rw [chunk, writing before]
  · rw [same]
    exact account.exclusive
  · rw [committedOf_snoc, committed, List.append_nil, assembly, account.committed]
  · obtain ⟨j, before, history, pending⟩ := account.device
    obtain ⟨j', after, kept, unspoiled⟩ := models j before
    rw [assembly]
    exact ⟨j', after, kept.trans history, fun now => (unspoiled now).trans (pending (free now))⟩

theorem Account.receive (account : Account s log)
    (here : (s.handler id).pc = .recv) (bytes : List Byte) (stack : Seekto) (beyond : List Byte)
    (plain : isSeek (overlay (s.handler id).receiveBuffer bytes) = false)
    (owned : Owned (s.update id ((s.handler id).receive bytes stack beyond) s.shared))
    (free : MutexFree (s.update id ((s.handler id).receive bytes stack beyond) s.shared) →
      MutexFree s)
    (routed : ((s.handler id).receive bytes stack beyond).Routed) (seek : Option Seekto) :
    Account (s.update id ((s.handler id).receive bytes stack beyond) s.shared)
      (log ++ [.received id (some bytes) seek]) := by
  have same : pieces (log ++ [.received id (some bytes) seek]) = pieces log := by
    simp [Event.piece]
  have assembly : assembled (log ++ [.received id (some bytes) seek]) = assembled log := by
    rw [assembled, same, ← assembled]
  have next : ((s.handler id).receive bytes stack beyond).pc = .opening .data := by
    simp [Handler.receive, plain]
  refine ⟨owned, ?_, ?_, fun x => ?_, ?_, ?_, ?_⟩
  · exact update_all (P := fun _ h => h.Routed) routed fun x _ => account.routed x
  · exact update_all (P := fun _ h => h.seeks = false) plain fun x _ => account.plain x
  · obtain ⟨rest, whole, writing, settled⟩ := account.progress x
    by_cases self : x = id
    · subst self
      have none : rest = [] := settled (by rw [here]; rfl)
      refine ⟨bytes, ?_, fun _ => ?_, fun now => ?_⟩
      · rw [receivedBy_snoc, same, whole, none, List.append_nil]
        simp [Event.receivedBy]
      · rw [update_handler, receive_chunk]
      · rw [update_handler, next] at now
        cases now
    · rw [update_other _ self, same]
      refine ⟨rest, ?_, writing, settled⟩
      simpa [Event.receivedBy, Ne.symm self] using whole
  · rw [same]
    exact account.exclusive
  · rw [assembly, committedOf_snoc]
    simpa [Event.committed] using account.committed
  · obtain ⟨j, models, history, pending⟩ := account.device
    rw [assembly]
    exact ⟨j, models, history, fun now => pending (free now)⟩

/-- The device takes a handler's last bytes, which continue the handler's own line. -/
theorem Account.write (account : Account s log) {fill : Nat → Byte}
    (here : (s.handler id).pc = .use .write fd)
    (models : Models s.shared.kernel (.ofAssembly (assembled log)))
    (after : Models shared'.kernel
      ((Journal.ofAssembly (assembled log)).accept fill (s.handler id).chunk))
    (accepted : Delimited.cut newline (s.handler id).chunk = (s.handler id).chunk)
    (own : (s.handler id).chunk = [] ∨ (assembled log).rest = [] ∨
      Delimited.lastParty (pieces log) = some id)
    (received : ∀ x, event.receivedBy x = []) (piece : event.piece = [(id, (s.handler id).chunk)])
    (committed : event.committed = s.shared.kernel.committed shared'.kernel)
    (owned : Owned (s.update id { s.handler id with pc := .unlock .data } shared'))
    (routed : ∀ x, ((s.update id { s.handler id with pc := .unlock .data } shared').handler x).Routed) :
    Account (s.update id { s.handler id with pc := .unlock .data } shared') (log ++ [event]) := by
  have taken : pieces (log ++ [event]) = pieces log ++ [(id, (s.handler id).chunk)] := by
    rw [pieces_snoc, piece]
  have assembly : assembled (log ++ [event]) =
      (assembled log).feed newline (s.handler id).chunk := by
    rw [assembled, taken, Delimited.stream_snoc, Delimited.assemble_append, ← assembled]
  have lines := models.committed_accept after
  rw [Journal.accept_feed, accepted, ← assembly] at after lines
  refine ⟨owned, routed, ?_, fun x => ?_, ?_, ?_, _, after, rfl, fun _ => rfl⟩
  · exact update_all (P := fun _ h => h.seeks = false) (account.plain id) fun x _ => account.plain x
  · obtain ⟨rest, whole, writing, settled⟩ := account.progress x
    rw [receivedBy_snoc, received, List.append_nil, taken]
    by_cases self : x = id
    · subst self
      refine ⟨[], ?_, fun now => ?_, fun _ => rfl⟩
      · rw [Delimited.part_snoc_same, whole, writing (by rw [here]; rfl), List.append_nil]
      · rw [update_handler] at now
        cases now
    · rw [Delimited.part_snoc_other self, update_other _ self]
      exact ⟨rest, whole, writing, settled⟩
  · rw [taken]
    exact account.exclusive.snoc id _ own
  · rw [committedOf_snoc, committed, account.committed]
    exact lines.symm

/-- A write that fails may spoil the line, but the mutex stays taken. -/
theorem Account.failed (account : Account s log) {env : WriteEnv} {socket : Bool}
    (call : s.shared.write env socket fd (s.handler id).chunk = some (false, shared'))
    (fails : ¬MutexFree (s.update id { s.handler id with pc := .returned false } shared'))
    (owned : Owned (s.update id { s.handler id with pc := .returned false } shared'))
    (routed : ∀ x,
      ((s.update id { s.handler id with pc := .returned false } shared').handler x).Routed) :
    Account (s.update id { s.handler id with pc := .returned false } shared')
      (log ++ [.wrote id fd false (s.shared.kernel.consumed shared'.kernel)
        (s.shared.kernel.committed shared'.kernel)]) := by
  have device : ∀ j, Models s.shared.kernel j →
      ∃ j', Models shared'.kernel j' ∧ j'.history = j.history := by
    intro j models
    rcases Shared.write_journal models call with ⟨ok, _⟩ | ⟨_, j', after, kept⟩ | ⟨ok, _⟩
    · cases ok
    · exact ⟨j', after, kept⟩
    · cases ok
  obtain ⟨j, models, _, _⟩ := account.device
  obtain ⟨j', after, kept⟩ := device j models
  refine account.quiet owned (fun now => absurd now fails) routed ?_ ?_ ?_ ?_ ?_
  · apply update_all (P := fun x h => Keeps (s.handler x) h)
    · exact ⟨account.plain id, fun now => Stage.noConfusion now, fun now => Stage.noConfusion now⟩
    · exact fun x _ => .refl (account.plain x)
  · exact fun x => receivedBy_wrote _ _ _ _
  · exact piece_failed _ _ _
  · rw [committed_wrote, models.committed_nothing after kept]
  · intro j models
    obtain ⟨j', after, kept⟩ := device j models
    exact ⟨j', after, kept, fun now => absurd now fails⟩

theorem Account.accept (account : Account s log) (idle : (s.handler id).pc = .idle)
    (owned : Owned s') (free : MutexFree s' → MutexFree s)
    (next : s' = s.update id (.fresh fd)
      { s.shared with files := setFile s.shared.files fd (some .socket) }) :
    Account s' (log ++ [.accepted id fd]) := by
  subst next
  refine account.quiet owned free ?_ ?_ (fun _ => rfl) rfl rfl fun j models =>
    ⟨j, models, rfl, fun _ => rfl⟩
  · exact update_all (P := fun _ h => h.Routed) (.outside rfl) fun x _ => account.routed x
  · apply update_all (P := fun x h => Keeps (s.handler x) h)
    · exact ⟨rfl, fun now => Stage.noConfusion now, fun _ => by rw [idle]; rfl⟩
    · exact fun x _ => .refl (account.plain x)

theorem Account.step (account : Account s log) (whole : ∀ id, Delimited.Segment newline (line id))
    (guard : WritesOwnLine action (s, log)) (result : Server.step action s = some (s', event))
    (sends : Sends line (log ++ [event])) : Account s' (log ++ [event]) := by
  obtain ⟨owned, free⟩ := account.owned.step result
  have routed := step_routed account.routed result
  rcases step_cases result with ⟨id, fd, rfl, idle, _, next, rfl⟩ |
    ⟨id, answer, h', shared', rfl, step, rfl⟩
  · exact account.accept idle owned (fun now => (free.mp now).1) next
  · have others : Keeps (s.handler id) h' →
        ∀ x, Keeps (s.handler x) ((s.update id h' shared').handler x) := fun own =>
      update_all (P := fun x h => Keeps (s.handler x) h) own fun x _ => .refl (account.plain x)
    cases step.inputEffect with
    | receive bytes stack beyond sent here fits next same record =>
      subst sent next same record
      simp only [WritesOwnLine, here] at guard
      have own := routed id
      rw [update_handler] at own
      exact account.receive here bytes stack beyond guard owned (fun now => (free.mp now).1) own _
    | write env socket fd ok given here call next record =>
      simp only [WritesOwnLine, here] at guard
      obtain ⟨connected, own⟩ := guard
      obtain ⟨j, models, history, held⟩ := account.device
      have pending := held (account.owned.free (by rw [here]; rfl))
      rcases Shared.write_journal models call with ⟨rfl, fill, after⟩ | ⟨rfl, j', after, kept⟩ |
        ⟨_, _, n, found⟩
      · obtain rfl : j = .ofAssembly (assembled log) := by
          rw [Journal.ofAssembly, ← pending, ← history]
        obtain ⟨rest, received, writing, _⟩ := account.progress id
        have front := sends id
        rw [receivedBy_snoc, record, receivedBy_wrote, List.append_nil, received,
          writing (by rw [here]; rfl)] at front
        have accepted := Delimited.cut_prefix_segment (whole id) front
        subst next
        refine account.write here models after accepted ?_ ?_ ?_ ?_ owned routed
        · rw [models.writeBufferSize] at own
          simpa [Journal.ofAssembly, Pending.size] using own
        · intro x
          rw [record, receivedBy_wrote]
        · rw [record, piece_wrote, models.consumed after, accepted]
        · rw [record, committed_wrote]
      · have fails : ¬MutexFree (s.update id h' shared') := by
          intro now
          have clean := (free.mp now).2
          rw [record] at clean
          exact Bool.noConfusion clean
        subst next record
        exact account.failed call fails owned routed
      · rw [found] at connected
        exact absurd rfl connected
    | seek fd here => exact absurd (by rw [here]; rfl) (account.stage id)
    | refused here => exact absurd (by rw [here]; rfl) (account.stage id)
    | quiet quiet models input stage =>
      obtain ⟨received, piece, committed⟩ := quiet_events quiet
      refine account.quiet owned (fun now => (free.mp now).1) routed (others ?_) received piece
        committed fun j before => ⟨j, models j before, rfl, fun _ => rfl⟩
      obtain ⟨_, _, seeks, _⟩ := input_fields input
      refine ⟨seeks.trans (account.plain id), fun now => ⟨?_, input_chunk input⟩, fun now => ?_⟩
      · rcases stage with same | ⟨_, ended⟩
        · exact same ▸ now
        · rw [ended] at now
          cases now
      · rcases stage with same | ⟨settled, _⟩
        · exact same ▸ now
        · exact settled

theorem initial_account : Account .initial [] where
  owned := initial_owned
  routed _ := .outside rfl
  plain _ := rfl
  progress _ := ⟨[], rfl, fun now => Stage.noConfusion now, fun _ => rfl⟩
  exclusive := .nil
  committed := rfl
  device := ⟨.empty, aesdInitModule_models, rfl, fun _ => rfl⟩

/-- In every run under the condition, each handler receiving one line, the commands are whole
lines of different clients, each of them completely received. -/
theorem lines_unmixed (line : Nat → List Byte) (whole : ∀ id, Delimited.Segment newline (line id))
    (guarded : Transition.Guarded (Transition.logged Server.step) WritesOwnLine actions
      (.initial, [])) :
    Transition.Throughout Server.step actions .initial fun s events => Sends line events →
      ∃ clients : List Nat, clients.Nodup ∧ (∀ id ∈ clients, receivedBy id events = line id) ∧
        committedOf events = clients.map line ∧
        s.shared.kernel.commands = lastTen (clients.map line) := by
  have all : Transition.Throughout Server.step actions .initial
      (fun s events => Sends line events → Account s events) := by
    refine Transition.Guarded.throughout_logged ?_ guarded fun _ => initial_account
    intro action s log next event before guard result sends
    exact (before sends.before).step whole guard result sends
  intro n s events run sends
  have account := all n s events run sends
  have received : ∀ id, Delimited.part id (pieces events) <+: receivedBy id events := by
    intro id
    obtain ⟨rest, whole, _⟩ := account.progress id
    rw [whole]
    exact List.prefix_append _ _
  obtain ⟨clients, separate⟩ :=
    account.exclusive.separate whole fun id => (received id).trans (sends id)
  refine ⟨clients, separate.nodup, fun id member => ?_, ?_, ?_⟩
  · have all := received id
    rw [separate.finished id member] at all
    exact (sends id).eq_of_length_le all.length_le
  · rw [account.committed, assembled, separate.done]
  · obtain ⟨j, models, history, _⟩ := account.device
    rw [models.commands, Journal.live, history, assembled, separate.done, lastTen]

def chunkWritten (id fd : Nat) (consumed : List Byte) (committed : List (List Byte)) : List Event :=
  [.opened id (some fd), .assigned id (some fd), .checked id, .locked id, .loaded id (some fd),
    .wrote id (some fd) true consumed committed, .unlocked id, .loaded id (some fd),
    .closed id (some fd)]

def twoLines (id : Nat) : List Byte := if id = 0 then [97, 10] else [98, 10]

theorem twoLines_whole (id : Nat) :
    Delimited.Segment newline (twoLines id) ∧ isSeek (twoLines id) = false := by
  unfold twoLines
  split
  · exact ⟨⟨[97], by decide, rfl⟩, by decide⟩
  · exact ⟨⟨[98], by decide, rfl⟩, by decide⟩

/-- The first line comes in two pieces, the second one in between. -/
def mixedLines : List Action :=
  [.accept 0 4, .accept 1 5, .run 0 (.recv (some [97]) ⟨0, 0⟩ [])] ++ writeChunk 0 6 ++
    [.run 1 (.recv (some [98, 10]) ⟨0, 0⟩ [])] ++ writeChunk 1 6

def mixedEvents : List Event :=
  [.accepted 0 4, .accepted 1 5, .received 0 (some [97]) none] ++ chunkWritten 0 6 [97] [] ++
    [.received 1 (some [98, 10]) none] ++ chunkWritten 1 6 [98, 10] [[97, 98, 10]]

theorem mixedLines_outcome :
    (Transition.execute Server.step mixedLines .initial).map
      (fun last => (last.1.shared.kernel.commands, last.2)) =
      some ([[97, 98, 10]], mixedEvents) := by decide +kernel

/-- The second client's line is committed with a part of the first one's. -/
theorem lines_mixed :
    ∃ s events, Transition.execute Server.step mixedLines .initial = some (s, events) ∧
      (∀ id, Delimited.Segment newline (twoLines id) ∧ isSeek (twoLines id) = false) ∧
      Sends twoLines events ∧
      ∃ command ∈ s.shared.kernel.commands, ∀ id, command ≠ twoLines id := by
  obtain ⟨⟨s, events⟩, run, outcome⟩ := Option.map_eq_some_iff.mp mixedLines_outcome
  obtain ⟨commands, rfl⟩ := Prod.mk.inj outcome
  refine ⟨s, mixedEvents, run, twoLines_whole, fun id => ?_, [97, 98, 10], by simp [commands], ?_⟩
  · by_cases first : id = 0
    · subst first
      decide
    · by_cases second : id = 1
      · subst second
        decide
      · have nothing : receivedBy id mixedEvents = [] := by
          simp [receivedBy, mixedEvents, chunkWritten, Event.receivedBy, Ne.symm first,
            Ne.symm second]
        rw [nothing]
        exact List.nil_prefix
  · intro id
    unfold twoLines
    split <;> decide

/-- The second line comes after the first one. -/
def orderedLines : List Action :=
  [.accept 0 4, .accept 1 5, .run 0 (.recv (some [97]) ⟨0, 0⟩ [])] ++ writeChunk 0 6 ++
    [.run 0 (.recv (some [10]) ⟨0, 0⟩ [])] ++ writeChunk 0 6 ++
    [.run 1 (.recv (some [98, 10]) ⟨0, 0⟩ [])] ++ writeChunk 1 6

theorem lines_unmixed_ordered :
    Transition.Throughout Server.step orderedLines .initial fun s events => Sends twoLines events →
      ∃ clients : List Nat, clients.Nodup ∧ (∀ id ∈ clients, receivedBy id events = twoLines id) ∧
        committedOf events = clients.map twoLines ∧
        s.shared.kernel.commands = lastTen (clients.map twoLines) := by
  apply lines_unmixed twoLines fun id => (twoLines_whole id).1
  decide +kernel

end Aesd
