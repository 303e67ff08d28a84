import Aesd.Thread

/-! The descriptors of a handler. A handler that returns has closed its client's socket and
each data descriptor once, unless a call failed, or a seek request came before the last
result of `recv`: then the next `open` replaces the descriptor that was opened for it. -/
namespace Aesd

variable {id fd n : Nat} {answer : Answer} {answers : List Answer} {h h' : Handler}
  {s s' s₀ : Shared} {event : Event} {log events : List Event} {stale stale' : List Nat}

/-- What an event makes of the open descriptors of the thread. -/
def Event.held (held : List Nat) : Event → List Nat
  | .opened _ (some n) => n :: held
  | .closed _ (some n) => held.erase n
  | .socketClosed _ n => held.erase n
  | _ => held

def heldAfter (fd : Nat) (events : List Event) : List Nat := events.foldl Event.held [fd]

def Event.closes : Event → Option Nat
  | .closed _ fd => fd
  | .socketClosed _ fd => some fd
  | _ => none

/-- Each `close` is of an open descriptor, and none stays open: the socket and every data
descriptor are closed once. -/
structure Balanced (fd : Nat) (events : List Event) : Prop where
  once : ∀ before event after n, events = before ++ event :: after → event.closes = some n →
    n ∈ heldAfter fd before
  all : heldAfter fd events = []

def Pc.current (pc : Pc) (dataFileDescriptor : Option Nat) : Option Nat :=
  match pc with
  | .assign _ fd | .use _ fd => fd
  | .check _ | .lock _ | .load _ | .unlock _ | .send | .closeSocket | .complete =>
    dataFileDescriptor
  | .idle | .recv | .opening _ | .returned _ => none

/-- Between an `open` of the data file and the end of its use. -/
def Pc.working : Pc → Bool
  | .idle | .recv | .opening _ | .returned _ => false
  | _ => true

def Pc.unchecked : Pc → Bool
  | .assign _ _ | .check _ | .lock .data | .load .write | .use .write _ => true
  | _ => false

def Pc.attached : Pc → Bool
  | .complete | .load .closeEnd | .use .closeEnd _ | .returned true => false
  | _ => true

/-- A call failed, and the thread has returned for it or will. -/
def Pc.Doomed (pc : Pc) (dataFileDescriptor : Option Nat) : Prop :=
  pc = .returned false ∨ (pc.working = true ∧ pc.current dataFileDescriptor = none)

@[simp] theorem heldAfter_snoc : heldAfter fd (log ++ [event]) = event.held (heldAfter fd log) := by
  simp [heldAfter]

/-- The open descriptors of the thread: the one it works with, those it has lost, and the
client's socket. -/
structure Books (fd : Nat) (h : Handler) (s : Shared) (log : List Event) (stale : List Nat) :
    Prop where
  client : h.clientSocketFd = fd
  held : heldAfter fd log = (h.pc.current s.dataFileDescriptor).toList ++ stale ++
    (if h.pc.attached then [fd] else [])
  nodup : (heldAfter fd log).Nodup
  isOpen : ∀ n ∈ heldAfter fd log, s.files n ≠ none
  loaded : ∀ use n, h.pc = .use use n → s.dataFileDescriptor = n
  certain : h.pc.working = true → h.pc.current s.dataFileDescriptor = none →
    h.pc.unchecked = true

theorem Books.keep (books : Books fd h s log stale) {pc : Pc} (here : h.pc = pc)
    (quiet : ∀ held, event.held held = held) (client : h'.clientSocketFd = h.clientSocketFd)
    (current : h'.pc.current s'.dataFileDescriptor = pc.current s.dataFileDescriptor)
    (attached : h'.pc.attached = pc.attached)
    (files : ∀ n, s'.files n = none → s.files n = none)
    (loaded : ∀ use n, h'.pc = .use use n → s'.dataFileDescriptor = n)
    (certain : h'.pc.working = true → h'.pc.current s'.dataFileDescriptor = none →
      h'.pc.unchecked = true) :
    Books fd h' s' (log ++ [event]) stale := by
  subst here
  constructor
  · exact client.trans books.client
  · rw [heldAfter_snoc, quiet, current, attached]
    exact books.held
  · rw [heldAfter_snoc, quiet]
    exact books.nodup
  · intro n member closed
    rw [heldAfter_snoc, quiet] at member
    exact books.isOpen n member (files n closed)
  · exact loaded
  · exact certain

theorem Books.abandon (books : Books fd h s log stale) {pc : Pc} (here : h.pc = pc)
    (quiet : ∀ held, event.held held = held) (client : h'.clientSocketFd = h.clientSocketFd)
    (idle : h'.pc.working = false) (attached : h'.pc.attached = pc.attached)
    (files : ∀ n, s'.files n = none → s.files n = none) :
    Books fd h' s' (log ++ [event]) ((pc.current s.dataFileDescriptor).toList ++ stale) := by
  subst here
  have current : h'.pc.current s'.dataFileDescriptor = none := by
    cases after : h'.pc <;> rw [after] at idle <;> first | rfl | cases idle
  constructor
  · exact client.trans books.client
  · rw [heldAfter_snoc, quiet, current, attached]
    exact books.held
  · rw [heldAfter_snoc, quiet]
    exact books.nodup
  · intro n member closed
    rw [heldAfter_snoc, quiet] at member
    exact books.isOpen n member (files n closed)
  · intro use n here
    rw [here] at idle
    cases idle
  · intro working
    rw [idle] at working
    cases working

theorem Books.acquire (books : Books fd h s log stale) (phase : Phase)
    (here : h.pc = .opening phase) (free : s.files n = none) :
    Books fd { h with pc := .assign phase (some n) }
      { s with files := setFile s.files n (some (.data 0 phase.writable)) }
      (log ++ [.opened id (some n)]) stale := by
  have held := books.held
  rw [here] at held
  have new : n ∉ heldAfter fd log := fun member => books.isOpen n member free
  constructor
  · exact books.client
  · rw [heldAfter_snoc, Event.held, held]
    rfl
  · rw [heldAfter_snoc]
    exact List.nodup_cons.mpr ⟨new, books.nodup⟩
  · intro m member
    rw [heldAfter_snoc] at member
    by_cases same : m = n
    · simp [same]
    · simp only [setFile_other _ _ same]
      rcases List.mem_cons.mp member with equal | old
      · exact absurd equal same
      · exact books.isOpen m old
  · intro use m next
    cases next
  · intro _ none
    cases none

theorem Books.release (books : Books fd h s log stale) (n : Nat)
    (closes : ∀ held, event.held held = held.erase n) (client : h'.clientSocketFd = h.clientSocketFd)
    (held : (heldAfter fd log).erase n = (h'.pc.current s.dataFileDescriptor).toList ++ stale ++
      (if h'.pc.attached then [fd] else []))
    (loaded : ∀ use m, h'.pc ≠ .use use m)
    (certain : h'.pc.working = true → h'.pc.current s.dataFileDescriptor = none →
      h'.pc.unchecked = true) :
    Books fd h' (s.close (some n)) (log ++ [event]) stale := by
  constructor
  · exact client.trans books.client
  · rw [heldAfter_snoc, closes, held]
    rfl
  · rw [heldAfter_snoc, closes]
    exact books.nodup.erase n
  · intro m member
    rw [heldAfter_snoc, closes] at member
    have different : m ≠ n := by
      rintro rfl
      exact books.nodup.not_mem_erase member
    simp only [Shared.close, setFile_other _ _ different]
    exact books.isOpen m (List.mem_of_mem_erase member)
  · intro use m next
    exact absurd next (loaded use m)
  · exact certain

def testsOf (events : List Event) : List Bool := (resultsOf events).map (·.2.isSome)

/-- Each passed test cost a descriptor, the last one not yet or not at all. -/
structure Counted (h : Handler) (log : List Event) (stale : List Nat) : Prop where
  received : h.pc.branch ≠ none → testsOf log ≠ []
  lost : h.pc ≠ .returned false →
    stale.length = (if h.pc = .recv then testsOf log else (testsOf log).dropLast).count true

/-- What a step does with the lost descriptors: a seek request that does not end the loop
loses one. -/
def Loses (h h' : Handler) (stale stale' : List Nat) : Prop :=
  h'.pc = .returned false ∨
    stale'.length = stale.length + if h.pc.branch = some .seek ∧ h'.pc = .recv then 1 else 0

theorem Loses.same (other : h'.pc ≠ .recv) : Loses h h' stale stale := by
  refine .inr ?_
  rw [if_neg fun both => other both.2, Nat.add_zero]

theorem files_of_frame (frame : Frame s s') (n : Nat) (closed : s'.files n = none) :
    s.files n = none := by
  have kind := frame.kind n
  rw [closed, Option.map_none] at kind
  exact Option.map_eq_none_iff.mp kind.symm

theorem erase_current (held : List Nat) (n : Nat) : (n :: held).erase n = held := by simp

/-- Every use but the `write` comes after a successful test of the descriptor. -/
theorem Books.known (books : Books fd h s log stale) {use : Use} {cur : Option Nat}
    (here : h.pc = .use use cur) (strict : use ≠ .write) : ∃ n, cur = some n := by
  apply Option.ne_none_iff_exists'.mp
  rintro rfl
  have tolerated := books.certain (by rw [here]; rfl) (by rw [here]; rfl)
  rw [here] at tolerated
  cases use with
  | write => exact strict rfl
  | _ => cases tolerated

/-- The end of an iteration of the receive loop, for the branch that the routing chose. -/
theorem Books.ioctl (books : Books fd h s log stale) (routed : h.Routed) (cur : Option Nat)
    (here : h.pc = .use .ioctl cur) (frame : Frame s s') :
    ∃ stale', Books fd h.nextIteration s' (log ++ [.sought id cur h.seekto]) stale' ∧
      Loses h h.nextIteration stale stale' := by
  have seeks : h.seeks = true := routed.1 (by rw [here]; rfl)
  have current := books.loaded .ioctl cur here
  obtain ⟨n, rfl⟩ := books.known here Use.noConfusion
  rcases nextIteration_pc h with next | ⟨plain, _⟩ | ⟨_, next⟩
  · refine ⟨_, books.abandon here (fun _ => rfl) rfl (by rw [next]; rfl) (by rw [next]; rfl)
      (files_of_frame frame), .inr ?_⟩
    rw [if_pos ⟨by rw [here]; rfl, next⟩]
    simp [Pc.current]
  · rw [seeks] at plain
    cases plain
  · refine ⟨stale, books.keep here (fun _ => rfl) rfl ?_ (by rw [next]; rfl)
      (files_of_frame frame) ?_ ?_, .same ?_⟩
    · rw [next, frame.dataFileDescriptor]
      exact current
    · intro use n pc
      rw [next] at pc
      cases pc
    · intro _ none
      rw [next, frame.dataFileDescriptor] at none
      cases current.symm.trans none
    · rw [next]
      exact Pc.noConfusion

theorem Books.closeData (id : Nat) (books : Books fd h s log stale) (routed : h.Routed) (cur : Option Nat)
    (here : h.pc = .use .closeData cur) :
    (∀ n, cur = some n → n ∈ heldAfter fd log) ∧
      Books fd h.nextIteration (s.close cur) (log ++ [.closed id cur]) stale ∧
      Loses h h.nextIteration stale stale := by
  have plain : h.seeks = false := routed.2 (by rw [here]; rfl)
  have held := books.held
  rw [here] at held
  obtain ⟨n, rfl⟩ := books.known here Use.noConfusion
  have next : h.nextIteration.pc.current s.dataFileDescriptor = none ∧
      h.nextIteration.pc.attached = true ∧ h.nextIteration.pc.working = false := by
    rcases nextIteration_pc h with next | ⟨_, next⟩ | ⟨seeks, _⟩
    · rw [next]
      exact ⟨rfl, rfl, rfl⟩
    · rw [next]
      exact ⟨rfl, rfl, rfl⟩
    · rw [plain] at seeks
      cases seeks
  refine ⟨?_, books.release n (fun _ => rfl) rfl ?_ ?_ ?_, .inr ?_⟩
  · intro m same
    obtain rfl := Option.some.inj same
    rw [held]
    exact List.mem_cons_self
  · rw [held, next.1, next.2.1]
    exact erase_current _ n
  · intro use m pc
    rw [pc] at next
    exact Bool.noConfusion next.2.2
  · intro working
    rw [next.2.2] at working
    cases working
  · rw [if_neg, Nat.add_zero]
    rw [here]
    rintro ⟨branch, _⟩
    cases branch

theorem Books.closeEnd (id : Nat) (books : Books fd h s log stale) (cur : Option Nat)
    (here : h.pc = .use .closeEnd cur) :
    (∀ n, cur = some n → n ∈ heldAfter fd log) ∧
      Books fd { h with pc := .returned true } (s.close cur) (log ++ [.closed id cur]) stale := by
  have held := books.held
  rw [here] at held
  obtain ⟨n, rfl⟩ := books.known here Use.noConfusion
  refine ⟨?_, books.release n (fun _ => rfl) rfl ?_ (fun _ _ pc => by cases pc)
    (fun working => by cases working)⟩
  · intro m same
    obtain rfl := Option.some.inj same
    rw [held]
    exact List.mem_cons_self
  · rw [held]
    exact erase_current _ n

theorem Books.closeSocket (id : Nat) (books : Books fd h s log stale) (here : h.pc = .closeSocket) :
    h.clientSocketFd ∈ heldAfter fd log ∧
      Books fd { h with pc := .complete } (s.close (some h.clientSocketFd))
        (log ++ [.socketClosed id h.clientSocketFd]) stale := by
  have held := books.held
  have nodup := books.nodup
  rw [here] at held
  rw [held] at nodup
  have apart : fd ∉ s.dataFileDescriptor.toList ++ stale := by
    intro member
    exact List.disjoint_of_nodup_append nodup member List.mem_cons_self
  obtain rfl := books.client
  refine ⟨?_, books.release _ (fun _ => rfl) rfl ?_ (fun _ _ pc => by cases pc) ?_⟩
  · rw [held]
    simp [Pc.attached]
  · rw [held]
    change (s.dataFileDescriptor.toList ++ stale ++ [h.clientSocketFd]).erase _ = _
    rw [List.erase_append_right _ apart]
    simp [Pc.current, Pc.attached]
  · intro _ none
    have tolerated := books.certain (by rw [here]; rfl) (by rw [here]; exact none)
    rw [here] at tolerated
    cases tolerated

theorem Books.send (books : Books fd h s log stale) (here : h.pc = .send) (count : Nat) :
    Books fd { h with pc := if 0 < h.bytesFromFile then .lock .reply else .closeSocket } s
      (log ++ [.sent id (h.sendBuffer.take h.bytesFromFile) (some count)]) stale := by
  have certain := books.certain
  rw [here] at certain
  refine books.keep here (fun _ => rfl) rfl ?_ ?_ (fun _ closed => closed) ?_ ?_
  · dsimp only
    split <;> rfl
  · dsimp only
    split <;> rfl
  · intro use n pc
    dsimp only at pc
    split at pc <;> cases pc
  · intro _ none
    refine absurd (certain rfl ?_) Bool.false_ne_true
    dsimp only at none
    split at none <;> exact none

theorem Shared.write_known {env : WriteEnv} {cur : Option Nat} {bytes : List Byte}
    (call : s.write env socket cur bytes = some (true, s')) : ∃ n, cur = some n := by
  rcases Shared.write_cases call with ⟨n, _, _, given, _⟩ | ⟨_, _, connected⟩
  · exact ⟨n, given⟩
  · obtain ⟨n, given, _⟩ := connected rfl
    exact ⟨n, given⟩

theorem Books.write {env : WriteEnv} {ok : Bool} (books : Books fd h s log stale) (cur : Option Nat)
    (here : h.pc = .use .write cur) (call : s.write env socket cur h.chunk = some (ok, s'))
    (consumed : List Byte) (committed : List (List Byte)) :
    ∃ stale', Books fd { h with pc := if ok then .unlock .data else .returned false } s'
        (log ++ [.wrote id cur ok consumed committed]) stale' ∧
      Loses h { h with pc := if ok then .unlock .data else .returned false } stale stale' := by
  have frame := Shared.write_frame call
  cases ok with
  | false =>
    exact ⟨_, books.abandon here (fun _ => rfl) rfl rfl rfl (files_of_frame frame), .inl rfl⟩
  | true =>
    have current := books.loaded .write cur here
    obtain ⟨n, rfl⟩ := Shared.write_known call
    refine ⟨stale, books.keep here (fun _ => rfl) rfl (frame.dataFileDescriptor.trans current) rfl
      (files_of_frame frame) (fun use n pc => by cases pc) ?_, .same (by exact Pc.noConfusion)⟩
    · intro _ none
      cases (current.symm.trans frame.dataFileDescriptor.symm).trans none

theorem Phase.checked_cases (phase : Phase) (cur : Option Nat) :
    phase.checked cur = .returned false ∨
      ((phase.checked cur).current cur = cur ∧ (phase.checked cur).attached = true ∧
        (cur = none → (phase.checked cur).unchecked = true) ∧
        (∀ use n, phase.checked cur ≠ .use use n) ∧ phase.checked cur ≠ .recv) := by
  cases phase <;> cases cur <;>
    simp [Phase.checked, Pc.current, Pc.attached, Pc.unchecked]

theorem Books.check (books : Books fd h s log stale) (phase : Phase) (here : h.pc = .check phase) :
    ∃ stale', Books fd { h with pc := phase.checked s.dataFileDescriptor } s
        (log ++ [.checked id]) stale' ∧
      Loses h { h with pc := phase.checked s.dataFileDescriptor } stale stale' := by
  have same : ∀ n, s.files n = none → s.files n = none := fun _ closed => closed
  rcases phase.checked_cases s.dataFileDescriptor with
    refused | ⟨current, attached, tolerated, unused, inside⟩
  · refine ⟨_, books.abandon here (fun _ => rfl) rfl ?_ ?_ same, .inl refused⟩
    · rw [refused]
      rfl
    · rw [refused]
      rfl
  · refine ⟨stale, books.keep here (fun _ => rfl) rfl current attached same ?_ ?_, .same inside⟩
    · intro use n pc
      exact absurd pc (unused use n)
    · intro _ none
      exact tolerated (current.symm.trans none)

theorem Books.closes_held (books : Books fd h s log stale) (routed : h.Routed)
    (step : Advance id h s answer h' s' event) (closes : event.closes = some n) :
    n ∈ heldAfter fd log := by
  cases step with
  | closeData cur here => exact (books.closeData id routed cur here).1 n closes
  | closeEnd cur here => exact (books.closeEnd id cur here).1 n closes
  | closeSocket here =>
    obtain rfl := Option.some.inj closes
    exact (books.closeSocket id here).1
  | _ => cases closes

theorem Books.step (books : Books fd h s log stale) (routed : h.Routed)
    (step : Advance id h s answer h' s' event) :
    ∃ stale', Books fd h' s' (log ++ [event]) stale' ∧ Loses h h' stale stale' := by
  have same : ∀ n, s.files n = none → s.files n = none := fun _ closed => closed
  have loaded := books.loaded
  have certain := books.certain
  cases step with
  | recvFailed stack beyond here =>
    exact ⟨_, books.abandon here (fun _ => rfl) rfl rfl rfl same, .inl rfl⟩
  | recv bytes stack beyond here fits =>
    exact ⟨stale, books.keep here (fun _ => rfl) rfl rfl rfl same (fun use n pc => by cases pc)
      (fun working => by cases working), .same Pc.noConfusion⟩
  | openFailed phase here =>
    exact ⟨stale, books.keep here (fun _ => rfl) rfl rfl rfl same (fun use n pc => by cases pc)
      (fun _ _ => rfl), .same Pc.noConfusion⟩
  | opened phase n here free =>
    exact ⟨stale, books.acquire phase here free, .same Pc.noConfusion⟩
  | assign phase n here =>
    exact ⟨stale, books.keep here (fun _ => rfl) rfl rfl rfl same (fun use n pc => by cases pc)
      (fun _ _ => rfl), .same Pc.noConfusion⟩
  | check phase here => exact books.check phase here
  | lock phase here free =>
    rw [here] at certain
    refine ⟨stale, books.keep here (fun _ => rfl) rfl rfl ?_ same (fun use n pc => by cases pc) ?_,
      .same Pc.noConfusion⟩
    · cases phase <;> rfl
    · intro _ none
      have tolerated := certain rfl none
      cases phase with
      | data => rfl
      | seek => cases tolerated
      | reply => cases tolerated
  | load use here =>
    rw [here] at certain
    refine ⟨stale, books.keep here (fun _ => rfl) rfl rfl ?_ same ?_ ?_, .same Pc.noConfusion⟩
    · cases use <;> rfl
    · intro use' n pc
      cases pc
      rfl
    · intro _ none
      have tolerated := certain rfl none
      cases use with
      | write => rfl
      | _ => cases tolerated
  | ioctl env cur here call =>
    exact books.ioctl routed cur here (Shared.ioctl_frame call).1
  | write env socket cur ok here call =>
    exact books.write cur here call _ _
  | closeData cur here =>
    obtain ⟨_, after, loses⟩ := books.closeData id routed cur here
    exact ⟨stale, after, loses⟩
  | readFailed env socket cur here call =>
    exact ⟨_, books.abandon here (fun _ => rfl) rfl rfl rfl
      (files_of_frame (Shared.read_frame call).1), .inl rfl⟩
  | read env socket cur bytes here call =>
    have frame := (Shared.read_frame call).1
    have current := frame.dataFileDescriptor.trans (loaded .read cur here)
    rw [here] at certain
    refine ⟨stale, books.keep here (fun _ => rfl) rfl current rfl (files_of_frame frame)
      (fun use n pc => by cases pc) ?_, .same Pc.noConfusion⟩
    · intro _ none
      cases certain rfl (current.symm.trans none)
  | closeEnd cur here =>
    exact ⟨stale, (books.closeEnd id cur here).2, .same Pc.noConfusion⟩
  | unlock phase here =>
    rw [here] at certain
    refine ⟨stale, books.keep here (fun _ => rfl) rfl ?_ ?_ same ?_ ?_, .same ?_⟩
    · cases phase <;> rfl
    · cases phase <;> rfl
    · intro use n pc
      cases phase <;> cases pc
    · intro _ none
      cases certain rfl (by cases phase <;> exact none)
    · cases phase <;> exact Pc.noConfusion
  | sendFailed here =>
    exact ⟨_, books.abandon here (fun _ => rfl) rfl rfl rfl same, .inl rfl⟩
  | send count here =>
    refine ⟨stale, books.send here count, .same ?_⟩
    dsimp only
    split <;> exact Pc.noConfusion
  | closeSocket here =>
    exact ⟨stale, (books.closeSocket id here).2, .same Pc.noConfusion⟩
  | complete here =>
    rw [here] at certain
    refine ⟨stale, books.keep here (fun _ => rfl) rfl rfl rfl same (fun use n pc => by cases pc) ?_,
      .same Pc.noConfusion⟩
    intro _ none
    cases certain rfl none

/-- A call that fails dooms the thread, and nothing else does. -/
theorem Books.doomed (books : Books fd h s log stale) (step : Advance id h s answer h' s' event) :
    h'.pc.Doomed s'.dataFileDescriptor ↔
      h.pc.Doomed s.dataFileDescriptor ∨ event.failed = true := by
  cases step with
  | recvFailed stack beyond here => simp [Pc.Doomed, Event.failed]
  | recv bytes stack beyond here fits =>
    simp [Pc.Doomed, here, Handler.receive, Pc.working, Event.failed]
  | openFailed phase here => simp [Pc.Doomed, Pc.working, Pc.current, Event.failed]
  | opened phase n here free => simp [Pc.Doomed, here, Pc.working, Pc.current, Event.failed]
  | assign phase n here => simp [Pc.Doomed, here, Pc.working, Pc.current, Event.failed]
  | check phase here =>
    cases phase <;> cases cur : s.dataFileDescriptor <;>
      simp [Pc.Doomed, here, Phase.checked, Pc.working, Pc.current, Event.failed]
  | lock phase here free | load use here | complete here | closeSocket here =>
    simp [Pc.Doomed, here, Pc.working, Pc.current, Event.failed]
  | ioctl env cur here call =>
    obtain ⟨n, rfl⟩ := books.known here Use.noConfusion
    have current := (Shared.ioctl_frame call).1.dataFileDescriptor.trans (books.loaded _ _ here)
    rcases nextIteration_pc h with next | ⟨_, next⟩ | ⟨_, next⟩ <;>
      simp [Pc.Doomed, here, next, current, Pc.working, Pc.current, Event.failed]
  | write env socket cur ok here call =>
    cases ok with
    | false => simp [Pc.Doomed, Event.failed]
    | true =>
      obtain ⟨n, rfl⟩ := Shared.write_known call
      have current := (Shared.write_frame call).dataFileDescriptor.trans (books.loaded _ _ here)
      simp [Pc.Doomed, here, current, Pc.working, Pc.current, Event.failed]
  | closeData cur here =>
    obtain ⟨n, rfl⟩ := books.known here Use.noConfusion
    have current := books.loaded _ _ here
    rcases nextIteration_pc h with next | ⟨_, next⟩ | ⟨_, next⟩ <;>
      simp [Pc.Doomed, here, next, current, Pc.working, Pc.current, Event.failed]
  | readFailed env socket cur here call => simp [Pc.Doomed, Event.failed]
  | read env socket cur bytes here call =>
    obtain ⟨n, rfl⟩ := books.known here Use.noConfusion
    have current := (Shared.read_frame call).1.dataFileDescriptor.trans (books.loaded _ _ here)
    simp [Pc.Doomed, here, current, Pc.working, Pc.current, Event.failed]
  | closeEnd cur here =>
    obtain ⟨n, rfl⟩ := books.known here Use.noConfusion
    simp [Pc.Doomed, here, Pc.working, Pc.current, Event.failed]
  | unlock phase here =>
    cases phase <;> simp [Pc.Doomed, here, Pc.working, Pc.current, Event.failed]
  | sendFailed here => simp [Pc.Doomed, Event.failed]
  | send count here =>
    by_cases more : 0 < h.bytesFromFile <;>
      simp [Pc.Doomed, here, more, Pc.working, Pc.current, Event.failed]

theorem Pc.branch_cases {pc : Pc} {phase : Phase} (branch : pc.branch = some phase) :
    phase = .seek ∨ phase = .data := by
  cases phase with
  | seek => exact .inl rfl
  | data => exact .inr rfl
  | reply =>
    unfold Pc.branch at branch
    split at branch <;> cases branch

theorem testsOf_snoc : testsOf (log ++ [event]) = testsOf log ++ event.result.map (·.2.isSome) := by
  simp [testsOf]

theorem Counted.quiet (counted : Counted h log stale) (heard : Heard h log) (routed : h.Routed)
    {pc : Pc} (here : h.pc = pc) (nothing : event.result = []) (before : pc ≠ .recv)
    (running : pc ≠ .returned false)
    (inside : h'.pc.branch ≠ none ∨ h'.pc = .recv → pc.branch ≠ none)
    (loses : Loses h h' stale stale') : Counted h' (log ++ [event]) stale' := by
  subst here
  have tests : testsOf (log ++ [event]) = testsOf log := by
    rw [testsOf_snoc, nothing, List.map_nil, List.append_nil]
  have lost := counted.lost running
  rw [if_neg before] at lost
  constructor
  · intro branch
    rw [tests]
    exact counted.received (inside (.inl branch))
  · intro goesOn
    have length := loses.resolve_left goesOn
    rw [tests, length, lost]
    by_cases again : h'.pc = .recv
    · rw [if_pos again]
      obtain ⟨phase, branch⟩ := Option.ne_none_iff_exists'.mp (inside (.inr again))
      have nonempty := counted.received (inside (.inr again))
      have split := List.dropLast_append_getLast nonempty
      have last : (testsOf log).getLast nonempty = h.seeks := by
        have found := List.getLast?_eq_some_getLast nonempty
        obtain ⟨result, final, test⟩ := Option.map_eq_some_iff.mp (List.getLast?_map.symm.trans found)
        exact test.symm.trans (heard.seeks result final)
      have count : (testsOf log).count true =
          (testsOf log).dropLast.count true + [h.seeks].count true := by
        rw [← last, ← List.count_append, split]
      rw [count]
      rcases Pc.branch_cases branch with rfl | rfl
      · rw [routed.1 branch, if_pos ⟨branch, again⟩]
        rfl
      · rw [routed.2 branch, branch]
        rfl
    · rw [if_neg again, if_neg fun both => again both.2, Nat.add_zero]

theorem Counted.step (counted : Counted h log stale) (heard : Heard h log) (routed : h.Routed)
    (step : Advance id h s answer h' s' event) (loses : Loses h h' stale stale') :
    Counted h' (log ++ [event]) stale' := by
  cases step with
  | recvFailed stack beyond here =>
    exact ⟨fun branch => absurd rfl branch, fun running => absurd rfl running⟩
  | recv bytes stack beyond here fits =>
    have lost := counted.lost (by rw [here]; exact Pc.noConfusion)
    rw [if_pos here] at lost
    have running : (h.receive bytes stack beyond).pc ≠ .returned false := Pc.noConfusion
    have inside : ¬(h.pc.branch = some .seek ∧ (h.receive bytes stack beyond).pc = .recv) :=
      fun both => Pc.noConfusion both.2
    have kept := loses.resolve_left running
    rw [if_neg inside, Nat.add_zero, lost] at kept
    constructor
    · intro _
      simp [testsOf_snoc, Event.result]
    · intro _
      rw [if_neg (by exact Pc.noConfusion), testsOf_snoc]
      simpa [Event.result] using kept
  | ioctl env cur here call | closeData cur here =>
    exact counted.quiet heard routed here rfl Pc.noConfusion Pc.noConfusion
      (fun _ => Option.some_ne_none _) loses
  | openFailed phase here | opened phase fd here free | assign phase fd here
  | lock phase here free | unlock phase here =>
    refine counted.quiet heard routed here rfl Pc.noConfusion Pc.noConfusion ?_ loses
    cases phase <;> simp [Pc.branch]
  | check phase here =>
    refine counted.quiet heard routed here rfl Pc.noConfusion Pc.noConfusion ?_ loses
    cases phase <;> cases s.dataFileDescriptor <;> simp [Phase.checked, Pc.branch]
  | load use here =>
    refine counted.quiet heard routed here rfl Pc.noConfusion Pc.noConfusion ?_ loses
    cases use <;> simp [Pc.branch]
  | write env socket cur ok here call =>
    exact counted.quiet heard routed here rfl Pc.noConfusion Pc.noConfusion
      (fun _ => Option.some_ne_none _) loses
  | send count here =>
    refine counted.quiet heard routed here rfl Pc.noConfusion Pc.noConfusion ?_ loses
    dsimp only
    split <;> simp [Pc.branch]
  | readFailed env socket cur here call | read env socket cur bytes here call | closeEnd cur here
  | sendFailed here | closeSocket here | complete here =>
    refine counted.quiet heard routed here rfl Pc.noConfusion Pc.noConfusion ?_ loses
    simp [Pc.branch]

structure Audit (fd : Nat) (h : Handler) (s : Shared) (log : List Event) : Prop where
  heard : Heard h log
  routed : h.Routed
  once : ∀ before event after n, log = before ++ event :: after → event.closes = some n →
    n ∈ heldAfter fd before
  doomed : h.pc.Doomed s.dataFileDescriptor ↔ ∃ e ∈ log, e.failed = true
  books : ∃ stale, Books fd h s log stale ∧ Counted h log stale

theorem Audit.step (audit : Audit fd h s log)
    (step : Advance id h s answer h' s' event) : Audit fd h' s' (log ++ [event]) := by
  obtain ⟨stale, books, counted⟩ := audit.books
  obtain ⟨stale', after, loses⟩ := books.step audit.routed step
  refine ⟨step.heard audit.heard, step.routed audit.routed, ?_, ?_, stale', after,
    counted.step audit.heard audit.routed step loses⟩
  · intro before e later n split closes
    rcases Transition.split_snoc split with ⟨rfl, rfl⟩ | ⟨rest, earlier⟩
    · exact books.closes_held audit.routed step closes
    · exact audit.once before e rest n earlier closes
  · rw [books.doomed step, audit.doomed]
    simp [or_and_right, exists_or]

theorem Audit.start (socket : s.files fd = some .socket) : Audit fd (.fresh fd) s [] := by
  refine ⟨fresh_heard fd, .outside rfl, ?_, ?_, [], ⟨rfl, rfl, ?_, ?_, ?_, ?_⟩, ⟨?_, ?_⟩⟩
  · intro before event after n split
    cases before <;> cases split
  · simp [Pc.Doomed, Handler.fresh, Pc.working]
  · exact List.nodup_singleton fd
  · intro n member
    obtain rfl := List.mem_singleton.mp member
    simp [socket]
  · intro use n pc
    cases pc
  · intro working
    cases working
  · intro inside
    exact absurd rfl inside
  · intro _
    rfl

theorem Audit.run (socket : s₀.files fd = some .socket)
    (run : Transition.execute (threadStep id) answers (.fresh fd, s₀) = some ((h, s), events)) :
    Audit fd h s events := by
  apply Transition.execute_history (fun (t : Handler × Shared) log => Audit fd t.1 t.2 log) ?_ run
    (.start socket)
  intro answer t log next event audit step
  exact audit.step (threadStep_cases step)

/-- The descriptors of a handler that is alone and returns are balanced exactly when no call
but an ioctl failed and no result of `recv` but the last was taken for a seek request. -/
theorem descriptors_balanced_iff (socket : s₀.files fd = some .socket)
    (run : Transition.execute (threadStep id) answers (.fresh fd, s₀) = some ((h, s), events))
    {ok : Bool} (ended : h.pc = .returned ok) :
    Balanced fd events ↔ (∀ event ∈ events, event.failed = false) ∧
      ∀ buffer ∈ (buffers emptyBuffer (chunksOf events)).dropLast, isSeek buffer = false := by
  have audit := Audit.run socket run
  obtain ⟨stale, books, counted⟩ := audit.books
  have held := books.held
  rw [ended] at held
  cases ok with
  | false =>
    obtain ⟨event, member, failed⟩ := audit.doomed.mp (.inl ended)
    constructor
    · intro balanced
      rw [balanced.all] at held
      have client : [fd] = [] := (List.append_eq_nil_iff.mp held.symm).2
      cases client
    · intro condition
      rw [condition.1 event member] at failed
      cases failed
  | true =>
    have fine : ∀ event ∈ events, event.failed = false := by
      intro event member
      by_contra failed
      rcases audit.doomed.mpr ⟨event, member, Bool.eq_true_of_not_eq_false failed⟩ with
        early | ⟨working, _⟩
      · cases ended.symm.trans early
      · rw [ended] at working
        cases working
    have lost := counted.lost (by rw [ended]; exact fun same => by cases same)
    rw [if_neg (by rw [ended]; exact Pc.noConfusion), testsOf, audit.heard.tests,
      List.map_dropLast.symm] at lost
    have held : heldAfter fd events = stale := held.trans (List.append_nil stale)
    have none : Balanced fd events ↔ stale.length = 0 := by
      rw [List.length_eq_zero_iff, ← held]
      exact ⟨Balanced.all, fun all => ⟨audit.once, all⟩⟩
    rw [none, lost, List.count_eq_zero]
    constructor
    · intro kept
      refine ⟨fine, ?_⟩
      intro buffer member
      by_contra seeks
      exact kept (List.mem_map.mpr ⟨buffer, member, Bool.eq_true_of_not_eq_false seeks⟩)
    · rintro ⟨_, plain⟩ member
      obtain ⟨buffer, found, seeks⟩ := List.mem_map.mp member
      rw [plain buffer found] at seeks
      cases seeks

/-- The answers to a seek request without a newline, a line "b" and its reply; no call fails
but the ioctl, which finds an empty device. -/
def seekThenLine : List Answer :=
  [.recv (some (ioctlStr ++ [48, 44, 48])) ⟨0, 0⟩ [], .opened (some 5), .quiet, .quiet, .quiet,
    .ioctl .success] ++ lineTaken [98, newline] 6 2 ++ replyEnded

theorem seekThenLine_outcome :
    (Transition.execute (threadStep 0) seekThenLine (.fresh 4, soleServer.shared)).map
      (fun last => (heldAfter 4 last.2, last.1.1.pc)) = some ([5], .returned true) := by
  decide +kernel

/-- The descriptor that was opened for the seek request is never closed. -/
theorem descriptor_lost :
    ∃ h s events, Transition.execute (threadStep 0) seekThenLine (.fresh 4, soleServer.shared) =
        some ((h, s), events) ∧
      soleServer.shared.files 4 = some .socket ∧ h.pc = .returned true ∧ ¬Balanced 4 events := by
  obtain ⟨⟨⟨h, s⟩, events⟩, run, outcome⟩ := Option.map_eq_some_iff.mp seekThenLine_outcome
  obtain ⟨held, pc⟩ := Prod.mk.inj outcome
  refine ⟨h, s, events, run, rfl, pc, ?_⟩
  intro balanced
  cases held.symm.trans balanced.all

theorem descriptors_balanced_iff_sought :
    ∃ h s events, Transition.execute (threadStep 0) seekThenLine (.fresh 4, soleServer.shared) =
        some ((h, s), events) ∧
      (Balanced 4 events ↔ (∀ event ∈ events, event.failed = false) ∧
        ∀ buffer ∈ (buffers emptyBuffer (chunksOf events)).dropLast, isSeek buffer = false) := by
  obtain ⟨⟨⟨h, s⟩, events⟩, run, outcome⟩ := Option.map_eq_some_iff.mp seekThenLine_outcome
  obtain ⟨_, ended⟩ := Prod.mk.inj outcome
  exact ⟨h, s, events, run, descriptors_balanced_iff rfl run ended⟩

end Aesd
