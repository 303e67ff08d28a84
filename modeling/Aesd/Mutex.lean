import Aesd.ServerSteps

/-! Who holds the mutex. A handler owns it exactly between its lock and its unlock, so it
stays with a handler that returned only when a `write` or a `read` in between failed. -/
namespace Aesd

variable {id : Nat} {answer : Answer} {h h' : Handler} {shared shared' : Shared} {event : Event}
  {action : Action} {actions : List Action} {events : List Event} {s s' : Server}

def Pc.critical : Pc → Bool
  | .load .write | .use .write _ | .load .read | .use .read _ | .unlock _ => true
  | _ => false

def Pc.finished : Pc → Bool
  | .returned _ => true
  | _ => false

/-- No handler that has returned owns the mutex. -/
def MutexFree (s : Server) : Prop :=
  ∀ id, s.shared.lock = some id → (s.handler id).pc.finished = false

/-- A `write` or `read` that failed; both are made while holding the mutex. -/
def Event.failsLocked : Event → Bool
  | .wrote _ _ ok _ _ => !ok
  | .fetched _ _ ok => !ok
  | _ => false

/-- A handler in its critical section owns the mutex, and no other running handler does. -/
structure Owned (s : Server) : Prop where
  owner : ∀ id, (s.handler id).pc.critical = true → s.shared.lock = some id
  held : ∀ id, s.shared.lock = some id → (s.handler id).pc.critical = true ∨
    (s.handler id).pc.finished = true

inductive LockEffect (id : Nat) (pc pc' : Pc) (lock lock' : Option Nat) (event : Event) : Prop
  | keep (same : lock' = lock) (critical : pc'.critical = pc.critical)
      (finished : pc'.finished = true → pc.critical = false) (clean : event.failsLocked = false)
  | acquire (free : lock = none) (taken : lock' = some id) (critical : pc'.critical = true)
      (finished : pc'.finished = false) (clean : event.failsLocked = false)
  | release (before : pc.critical = true) (given : lock' = none) (critical : pc'.critical = false)
      (clean : event.failsLocked = false)
  | abandon (before : pc.critical = true) (same : lock' = lock) (critical : pc'.critical = false)
      (finished : pc'.finished = true) (fails : event.failsLocked = true)

theorem nextIteration_keep (pc : Pc) (outside : pc.critical = false)
    (clean : event.failsLocked = false) :
    LockEffect id pc h.nextIteration.pc lock lock event := by
  rcases nextIteration_pc h with next | ⟨_, next⟩ | ⟨_, next⟩
  all_goals
    rw [next]
    exact .keep rfl (by rw [outside]; rfl) (fun finished => Bool.noConfusion finished) clean

theorem Advance.lockEffect (step : Advance id h shared answer h' shared' event) :
    h.pc.finished = false ∧ LockEffect id h.pc h'.pc shared.lock shared'.lock event := by
  cases step with
  | recvFailed stack beyond here | openFailed phase here | opened phase fd here free
  | assign phase fd here | sendFailed here | complete here =>
    rw [here]
    exact ⟨rfl, .keep rfl rfl (fun _ => rfl) rfl⟩
  | recv bytes stack beyond here fits =>
    rw [here]
    exact ⟨rfl, .keep rfl rfl (fun finished => Bool.noConfusion finished) rfl⟩
  | check phase here =>
    rw [here]
    refine ⟨rfl, .keep rfl ?_ (fun _ => rfl) rfl⟩
    cases phase <;> cases shared.dataFileDescriptor <;> rfl
  | lock phase here free =>
    rw [here]
    refine ⟨rfl, .acquire free rfl ?_ rfl rfl⟩
    cases phase <;> rfl
  | load use here =>
    rw [here]
    refine ⟨rfl, .keep rfl ?_ (fun finished => Bool.noConfusion finished) rfl⟩
    cases use <;> rfl
  | ioctl env fd here call =>
    rw [here, (Shared.ioctl_frame call).1.lock]
    exact ⟨rfl, nextIteration_keep _ rfl rfl⟩
  | write env socket fd ok here call =>
    rw [here, (Shared.write_frame call).lock]
    cases ok with
    | true => exact ⟨rfl, .keep rfl rfl (fun finished => Bool.noConfusion finished) rfl⟩
    | false => exact ⟨rfl, .abandon rfl rfl rfl rfl rfl⟩
  | closeData fd here =>
    rw [here, Shared.close_lock]
    exact ⟨rfl, nextIteration_keep _ rfl rfl⟩
  | readFailed env socket fd here call =>
    rw [here, (Shared.read_frame call).1.lock]
    exact ⟨rfl, .abandon rfl rfl rfl rfl rfl⟩
  | read env socket fd bytes here call =>
    rw [here, (Shared.read_frame call).1.lock]
    exact ⟨rfl, .keep rfl rfl (fun finished => Bool.noConfusion finished) rfl⟩
  | closeEnd fd here | closeSocket here =>
    rw [here, Shared.close_lock]
    exact ⟨rfl, .keep rfl rfl (fun _ => rfl) rfl⟩
  | unlock phase here =>
    rw [here]
    refine ⟨rfl, .release rfl rfl ?_ rfl⟩
    cases phase <;> rfl
  | send count here =>
    rw [here]
    refine ⟨rfl, .keep rfl ?_ (fun _ => rfl) rfl⟩
    simp only
    split <;> rfl

theorem Owned.unique (owned : Owned s) (inside : (s.handler id).pc.critical = true)
    (other : (s.handler id').pc.critical = true) : id' = id := by
  have lock := owned.owner id inside
  rw [owned.owner id' other] at lock
  exact Option.some.inj lock

theorem Owned.free (owned : Owned s) (inside : (s.handler id).pc.critical = true) : MutexFree s := by
  intro other lock
  rw [owned.owner id inside, Option.some.injEq] at lock
  subst lock
  cases here : (s.handler id).pc with
  | returned ok =>
    rw [here] at inside
    exact Bool.noConfusion inside
  | _ => rfl

theorem Owned.accept (owned : Owned s) (idle : (s.handler id).pc = .idle)
    (files : Nat → Option Description) :
    Owned (s.update id (.fresh fd) { s.shared with files := files }) ∧
      (MutexFree (s.update id (.fresh fd) { s.shared with files := files }) ↔ MutexFree s) := by
  have unowned : s.shared.lock ≠ some id := by
    intro lock
    rcases owned.held id lock with critical | finished
    · rw [idle] at critical
      exact Bool.noConfusion critical
    · rw [idle] at finished
      exact Bool.noConfusion finished
  have others : ∀ other, s.shared.lock = some other →
      (s.update id (.fresh fd) { s.shared with files := files }).handler other = s.handler other :=
    fun other lock => update_other s (by rintro rfl; exact unowned lock)
  refine ⟨⟨fun other critical => ?_, fun other lock => ?_⟩, ?_⟩
  · by_cases same : other = id
    · rw [same, update_handler] at critical
      exact Bool.noConfusion critical
    · rw [update_other _ same] at critical
      exact owned.owner other critical
  · rw [others other lock]
    exact owned.held other lock
  · constructor <;> intro free other lock
    · rw [← others other lock]
      exact free other lock
    · rw [others other lock]
      exact free other lock

/-- A handler's step keeps the ownership. Afterwards the mutex is with a finished handler
exactly when it was so before or a call under the mutex failed. -/
theorem Owned.advance (owned : Owned s)
    (running : (s.handler id).pc.finished = false)
    (effect : LockEffect id (s.handler id).pc h'.pc s.shared.lock shared.lock event) :
    Owned (s.update id h' shared) ∧
      (MutexFree (s.update id h' shared) ↔ MutexFree s ∧ event.failsLocked = false) := by
  have inside : s.shared.lock = some id → (s.handler id).pc.critical = true := by
    intro lock
    rcases owned.held id lock with critical | finished
    · exact critical
    · rw [running] at finished
      exact Bool.noConfusion finished
  cases effect with
  | keep same critical finished clean =>
    refine ⟨⟨fun other now => ?_, fun other lock => ?_⟩, ?_⟩
    · by_cases self : other = id
      · rw [self, update_handler, critical] at now
        rw [self]
        exact same.trans (owned.owner id now)
      · rw [update_other _ self] at now
        exact same.trans (owned.owner other now)
    · by_cases self : other = id
      · rw [self, update_handler]
        exact .inl (critical.trans (inside (same ▸ self ▸ lock)))
      · rw [update_other _ self]
        exact owned.held other (same ▸ lock)
    · constructor
      · refine fun free => ⟨fun other lock => ?_, clean⟩
        by_cases self : other = id
        · exact self ▸ running
        · have unfinished := free other (same.trans lock)
          rwa [update_other _ self] at unfinished
      · rintro ⟨free, _⟩ other lock
        by_cases self : other = id
        · rw [self, update_handler]
          by_contra done
          have outside := finished (Bool.eq_true_of_not_eq_false done)
          rw [inside (same ▸ self ▸ lock)] at outside
          exact Bool.noConfusion outside
        · rw [update_other _ self]
          exact free other (same ▸ lock)
  | acquire none taken critical finished clean =>
    refine ⟨⟨fun other now => ?_, fun other lock => ?_⟩, ?_⟩
    · by_cases self : other = id
      · exact self ▸ taken
      · rw [update_other _ self] at now
        have lock := owned.owner other now
        rw [none] at lock
        cases lock
    · cases taken.symm.trans lock
      rw [update_handler]
      exact .inl critical
    · refine iff_of_true (fun other lock => ?_) ⟨fun other lock => ?_, clean⟩
      · cases taken.symm.trans lock
        rw [update_handler]
        exact finished
      · cases none.symm.trans lock
  | release before given critical clean =>
    refine ⟨⟨fun other now => ?_, fun other lock => ?_⟩,
      iff_of_true (fun other lock => ?_) ⟨owned.free before, clean⟩⟩
    · by_cases self : other = id
      · rw [self, update_handler, critical] at now
        exact Bool.noConfusion now
      · rw [update_other _ self] at now
        exact absurd (owned.unique before now) self
    · cases given.symm.trans lock
    · cases given.symm.trans lock
  | abandon before same critical finished fails =>
    have lock := same.trans (owned.owner id before)
    refine ⟨⟨fun other now => ?_, fun other lock' => ?_⟩,
      iff_of_false (fun good => ?_) (by simp [fails])⟩
    · by_cases self : other = id
      · rw [self, update_handler, critical] at now
        exact Bool.noConfusion now
      · rw [update_other _ self] at now
        exact absurd (owned.unique before now) self
    · cases lock.symm.trans lock'
      rw [update_handler]
      exact .inr finished
    · have unfinished := good id lock
      rw [update_handler, finished] at unfinished
      exact Bool.noConfusion unfinished

theorem Owned.step (owned : Owned s) (result : Server.step action s = some (s', event)) :
    Owned s' ∧ (MutexFree s' ↔ MutexFree s ∧ event.failsLocked = false) := by
  rcases step_cases result with ⟨id, fd, rfl, idle, _, rfl, rfl⟩ |
    ⟨id, answer, h', shared, rfl, step, rfl⟩
  · obtain ⟨after, stays⟩ := owned.accept idle (setFile s.shared.files fd (some .socket))
    exact ⟨after, stays.trans (and_iff_left rfl).symm⟩
  · obtain ⟨running, effect⟩ := step.lockEffect
    exact owned.advance running effect

theorem initial_owned : Owned .initial where
  owner id critical := Bool.noConfusion critical
  held id lock := by cases lock

/-- In every run, the mutex stays away from handlers that have returned exactly when no `write`
or `read` of a handler fails. -/
theorem mutex_free_iff (run : Transition.execute Server.step actions .initial = some (s, events)) :
    Transition.Throughout Server.step actions .initial (fun s _ => MutexFree s) ↔
      ∀ event ∈ events, event.failsLocked = false := by
  apply Transition.throughout_outputs_iff MutexFree Owned ?_ run initial_owned
  · intro id lock
    cases lock
  · intro action s next event owned free step
    obtain ⟨after, clean⟩ := owned.step step
    exact ⟨after, clean.trans (and_iff_right free)⟩

/-- One client sends "a", the data file cannot be opened, and the write to ERROR fails. -/
def failedOpen : List Action :=
  [.accept 0 4, .run 0 (.recv (some [97]) ⟨0, 0⟩ []), .run 0 (.opened none), .run 0 .quiet,
    .run 0 .quiet, .run 0 .quiet, .run 0 .quiet, .run 0 (.write .success false)]

theorem failedOpen_outcome :
    (Transition.execute Server.step failedOpen .initial).map
      (fun last => (last.1.shared.lock, (last.1.handler 0).pc)) =
      some (some 0, .returned false) := by decide +kernel

theorem mutex_abandoned :
    ∃ s events, Transition.execute Server.step failedOpen .initial = some (s, events) ∧
      s.shared.lock = some 0 ∧ (s.handler 0).pc = .returned false ∧ ¬MutexFree s := by
  obtain ⟨⟨s, events⟩, run, outcome⟩ := Option.map_eq_some_iff.mp failedOpen_outcome
  obtain ⟨lock, pc⟩ := Prod.mk.inj outcome
  refine ⟨s, events, run, lock, pc, fun free => ?_⟩
  have unfinished := free 0 lock
  rw [pc] at unfinished
  exact Bool.noConfusion unfinished

theorem mutex_free_iff_failedOpen :
    ∃ s events, Transition.execute Server.step failedOpen .initial = some (s, events) ∧
      (Transition.Throughout Server.step failedOpen .initial (fun s _ => MutexFree s) ↔
        ∀ event ∈ events, event.failsLocked = false) := by
  obtain ⟨⟨s, events⟩, run, _⟩ := Option.map_eq_some_iff.mp failedOpen_outcome
  exact ⟨s, events, run, mutex_free_iff run⟩

end Aesd
