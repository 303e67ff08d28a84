import Aesd.ServerSteps

/-! Whose descriptor a handler works on. The data descriptor is kept in one global for all
handlers. As long as every load of it finds what the loading handler itself assigned last,
each handler uses the descriptor that it opened last and has not closed; that descriptor is
then open, and nobody else's. -/
namespace Aesd

variable {id other n : Nat} {answer : Answer} {h h' : Handler} {shared shared' : Shared}
  {event : Event} {action : Action} {actions : List Action} {log events : List Event} {s s' : Server}

/-- What an event makes of the descriptor that the handler opened last and has not closed. -/
def Event.own (id : Nat) (own : Option Nat) : Event → Option Nat
  | .opened other (some fd) => if other = id then some fd else own
  | .closed other fd => if other = id ∧ fd = own then none else own
  | .socketClosed other fd => if other = id ∧ some fd = own then none else own
  | _ => own

def ownFd (id : Nat) (events : List Event) : Option Nat := events.foldl (Event.own id) none

def Event.assigner (last : Option Nat) : Event → Option Nat
  | .assigned id _ => some id
  | _ => last

def lastAssigner (events : List Event) : Option Nat := events.foldl Event.assigner none

/-- The handler and the descriptor of a `write`, `read`, `ioctl` or `close` on a descriptor
loaded from the global. -/
def Event.target : Event → Option (Nat × Nat)
  | .sought id (some fd) _ | .wrote id (some fd) _ _ _ | .fetched id (some fd) _
  | .closed id (some fd) => some (id, fd)
  | _ => none

/-- Each of these calls is on the descriptor that its handler opened last and has not closed. -/
def Disciplined (events : List Event) : Prop :=
  ∀ before event after id fd, events = before ++ event :: after → event.target = some (id, fd) →
    ownFd id before = some fd

def Pc.loads : Pc → Bool
  | .load _ => true
  | _ => false

/-- A load finds what the same handler assigned last, or ERROR. -/
def LoadsOwn (action : Action) (p : Server × List Event) : Prop :=
  match action with
  | .accept _ _ => True
  | .run id _ => (p.1.handler id).pc.loads = true →
    p.1.shared.dataFileDescriptor = none ∨ lastAssigner p.2 = some id

instance : ∀ action p, Decidable (LoadsOwn action p)
  | .accept _ _, _ => isTrue trivial
  | .run _ _, _ => inferInstanceAs (Decidable (_ → _))

@[simp] theorem ownFd_snoc : ownFd id (log ++ [event]) = event.own id (ownFd id log) := by
  simp [ownFd]

@[simp] theorem lastAssigner_snoc :
    lastAssigner (log ++ [event]) = event.assigner (lastAssigner log) := by
  simp [lastAssigner]

def Fits (fd own : Option Nat) : Prop := ∀ n, fd = some n → own = some n

/-- What a handler may rely on at each step, when `mine` says that it assigned last. -/
def Pc.Held (pc : Pc) (mine : Prop) (current own : Option Nat) : Prop :=
  match pc with
  | .assign _ fd | .use .closeData fd | .use .closeEnd fd => Fits fd own
  | .use _ fd => Fits fd own ∧ (mine → Fits current own)
  | .check _ | .lock _ | .load _ | .unlock _ | .send | .closeSocket | .complete =>
    mine → Fits current own
  | .idle | .recv | .opening _ | .returned _ => True

def Pc.connected : Pc → Bool
  | .idle | .complete | .load .closeEnd | .use .closeEnd _ | .returned _ => false
  | _ => true

theorem Pc.Held.mono {pc : Pc} {mine mine' : Prop} {current current' own : Option Nat}
    (held : pc.Held mine current own) (still : mine' → mine ∧ current' = current) :
    pc.Held mine' current' own := by
  have weaker : (mine → Fits current own) → mine' → Fits current' own := by
    intro fits now
    obtain ⟨before, same⟩ := still now
    exact same ▸ fits before
  cases pc with
  | assign phase fd => exact held
  | use use fd =>
    cases use with
    | closeData => exact held
    | closeEnd => exact held
    | ioctl => exact ⟨held.1, weaker held.2⟩
    | write => exact ⟨held.1, weaker held.2⟩
    | read => exact ⟨held.1, weaker held.2⟩
  | idle => trivial
  | recv => trivial
  | opening phase => trivial
  | returned ok => trivial
  | check phase => exact weaker held
  | lock phase => exact weaker held
  | load use => exact weaker held
  | unlock phase => exact weaker held
  | send => exact weaker held
  | closeSocket => exact weaker held
  | complete => exact weaker held

theorem Pc.Held.using {use : Use} {fd : Option Nat} {mine : Prop} {current own : Option Nat}
    (held : (Pc.use use fd).Held mine current own) : Fits fd own := by
  cases use with
  | closeData => exact held
  | closeEnd => exact held
  | ioctl => exact held.1
  | write => exact held.1
  | read => exact held.1

/-- What a handler's step does with descriptors. -/
inductive FdEffect (id : Nat) (h h' : Handler) (s s' : Shared) : Event → Prop
  | plain {event : Event} (own : ∀ other own, event.own other own = own)
      (assigner : ∀ last, event.assigner last = last)
      (kind : ∀ n, (s'.files n).map Description.kind = (s.files n).map Description.kind)
      (current : s'.dataFileDescriptor = s.dataFileDescriptor)
      (connected : h'.pc.connected = true → h.pc.connected = true)
      (held : ∀ mine current own, h.pc.Held mine current own → h'.pc.Held mine current own) :
      FdEffect id h h' s s' event
  | load (use : Use) (here : h.pc = .load use) (next : h'.pc = .use use s.dataFileDescriptor)
      (same : s' = s) : FdEffect id h h' s s' (.loaded id s.dataFileDescriptor)
  | opened (phase : Phase) (fd : Nat) (here : h.pc = .opening phase) (free : s.files fd = none)
      (next : h'.pc = .assign phase (some fd))
      (same : s' = { s with files := setFile s.files fd (some (.data 0 phase.writable)) }) :
      FdEffect id h h' s s' (.opened id (some fd))
  | assigned (phase : Phase) (fd : Option Nat) (here : h.pc = .assign phase fd)
      (next : h'.pc = .check phase) (same : s' = { s with dataFileDescriptor := fd }) :
      FdEffect id h h' s s' (.assigned id fd)
  | closed (use : Use) (fd : Option Nat) (here : h.pc = .use use fd)
      (connected : h'.pc.connected = true → h.pc.connected = true)
      (held : ∀ mine current own, h'.pc.Held mine current own) (same : s' = s.close fd) :
      FdEffect id h h' s s' (.closed id fd)
  | socketClosed (here : h.pc = .closeSocket) (next : h'.pc = .complete)
      (same : s' = s.close (some h.clientSocketFd)) :
      FdEffect id h h' s s' (.socketClosed id h.clientSocketFd)

theorem FdEffect.keep {pc : Pc} (here : h.pc = pc) (own : ∀ other own, event.own other own = own)
    (assigner : ∀ last, event.assigner last = last)
    (kind : ∀ n, (shared'.files n).map Description.kind = (shared.files n).map Description.kind)
    (current : shared'.dataFileDescriptor = shared.dataFileDescriptor)
    (connected : h'.pc.connected = true → pc.connected = true)
    (held : ∀ mine current own, pc.Held mine current own → h'.pc.Held mine current own) :
    FdEffect id h h' shared shared' event := by
  subst here
  exact .plain own assigner kind current connected held

theorem Advance.client (step : Advance id h shared answer h' shared' event) :
    h'.clientSocketFd = h.clientSocketFd := by
  cases step <;> rfl

theorem Advance.fdEffect (step : Advance id h shared answer h' shared' event)
    (routed : h.Routed) : FdEffect id h h' shared shared' event := by
  cases step with
  | recvFailed stack beyond here | sendFailed here =>
    exact .keep here (fun _ _ => rfl) (fun _ => rfl) (fun _ => rfl) rfl
      (fun now => Bool.noConfusion now)
      (fun _ _ _ _ => trivial)
  | recv bytes stack beyond here fits =>
    exact .keep here (fun _ _ => rfl) (fun _ => rfl) (fun _ => rfl) rfl (fun _ => rfl)
      (fun _ _ _ _ => trivial)
  | openFailed phase here =>
    exact .keep here (fun _ _ => rfl) (fun _ => rfl) (fun _ => rfl) rfl (fun _ => rfl)
      (fun _ _ _ _ _ given => by cases given)
  | opened phase fd here free => exact .opened phase fd here free rfl rfl
  | assign phase fd here => exact .assigned phase fd here rfl rfl
  | check phase here =>
    refine .keep here (fun _ _ => rfl) (fun _ => rfl) (fun _ => rfl) rfl (fun _ => rfl) ?_
    intro mine current own held
    cases phase <;> cases shared.dataFileDescriptor <;> first | exact held | trivial
  | lock phase here free =>
    exact .keep here (fun _ _ => rfl) (fun _ => rfl) (fun _ => rfl) rfl (fun _ => rfl)
      (fun _ _ _ held => held)
  | load use here => exact .load use here rfl rfl
  | ioctl env fd here call =>
    obtain ⟨frame, _⟩ := Shared.ioctl_frame call
    refine .keep here (fun _ _ => rfl) (fun _ => rfl) frame.kind frame.dataFileDescriptor
      (fun _ => rfl) ?_
    intro mine current own held
    rcases nextIteration_pc h with next | ⟨_, next⟩ | ⟨_, next⟩ <;> rw [next]
    · trivial
    · trivial
    · exact held.2
  | write env socket fd ok here call =>
    have frame := Shared.write_frame call
    refine .keep here (fun _ _ => rfl) (fun _ => rfl) frame.kind frame.dataFileDescriptor
      (fun _ => rfl) ?_
    intro mine current own held
    cases ok with
    | true => exact held.2
    | false => trivial
  | closeData fd here =>
    have plain : h.seeks = false := routed.2 (by rw [here]; rfl)
    have next : h.nextIteration.pc = .recv ∨ h.nextIteration.pc = .opening .reply := by
      rcases nextIteration_pc h with next | ⟨_, next⟩ | ⟨seeks, _⟩
      · exact .inl next
      · exact .inr next
      · cases plain.symm.trans seeks
    refine .closed .closeData fd here (fun _ => by rw [here]; rfl) ?_ rfl
    intro mine current own
    rcases next with next | next <;> rw [next] <;> trivial
  | readFailed env socket fd here call =>
    obtain ⟨frame, _⟩ := Shared.read_frame call
    exact .keep here (fun _ _ => rfl) (fun _ => rfl) frame.kind frame.dataFileDescriptor
      (fun now => Bool.noConfusion now) (fun _ _ _ _ => trivial)
  | read env socket fd bytes here call =>
    obtain ⟨frame, _⟩ := Shared.read_frame call
    exact .keep here (fun _ _ => rfl) (fun _ => rfl) frame.kind frame.dataFileDescriptor
      (fun _ => rfl) (fun _ _ _ held => held.2)
  | closeEnd fd here =>
    exact .closed .closeEnd fd here (fun now => Bool.noConfusion now) (fun _ _ _ => trivial) rfl
  | unlock phase here =>
    refine .keep here (fun _ _ => rfl) (fun _ => rfl) (fun _ => rfl) rfl (fun _ => rfl) ?_
    intro mine current own held
    cases phase <;> exact held
  | send count here =>
    refine .keep here (fun _ _ => rfl) (fun _ => rfl) (fun _ => rfl) rfl (fun _ => rfl) ?_
    intro mine current own held
    by_cases more : 0 < h.bytesFromFile
    · rw [if_pos more]
      exact held
    · rw [if_neg more]
      exact held
  | closeSocket here => exact .socketClosed here rfl rfl
  | complete here =>
    exact .keep here (fun _ _ => rfl) (fun _ => rfl) (fun _ => rfl) rfl
      (fun now => Bool.noConfusion now)
      (fun _ _ _ held => held)

theorem Advance.target (step : Advance id h shared answer h' shared' event)
    (call : event.target = some (other, n)) :
    other = id ∧ ∃ use, h.pc = .use use (some n) := by
  cases step with
  | ioctl env fd here _ | write env socket fd ok here _ | closeData fd here
  | readFailed env socket fd here _ | read env socket fd bytes here _ | closeEnd fd here =>
    cases fd with
    | none => cases call
    | some fd =>
      cases call
      exact ⟨rfl, _, here⟩
  | _ => cases call

/-- Each handler's own descriptor is an open data file and nobody else's, and each connected
client has its socket. -/
structure Tidy (s : Server) (log : List Event) : Prop where
  routed : ∀ id, (s.handler id).Routed
  held : ∀ id, (s.handler id).pc.Held (lastAssigner log = some id) s.shared.dataFileDescriptor
    (ownFd id log)
  isOpen : ∀ id n, ownFd id log = some n →
    ∃ writable, (s.shared.files n).map Description.kind = some (some writable)
  apart : ∀ id id' n, ownFd id log = some n → ownFd id' log = some n → id = id'
  socket : ∀ id, (s.handler id).pc.connected = true →
    (s.shared.files (s.handler id).clientSocketFd).map Description.kind = some none
  sockets : ∀ id id', (s.handler id).pc.connected = true → (s.handler id').pc.connected = true →
    (s.handler id).clientSocketFd = (s.handler id').clientSocketFd → id = id'

theorem Advance.own_other (step : Advance id h shared answer h' shared' event)
    (different : other ≠ id) (own : Option Nat) : event.own other own = own := by
  cases step <;> simp [Event.own, different.symm]

theorem Advance.assigner_other (step : Advance id h shared answer h' shared' event)
    (different : other ≠ id) (last : Option Nat) (now : event.assigner last = some other) :
    last = some other ∧ shared'.dataFileDescriptor = shared.dataFileDescriptor := by
  cases step with
  | assign phase fd here => exact absurd (Option.some.inj now).symm different
  | ioctl env fd here call => exact ⟨now, (Shared.ioctl_frame call).1.dataFileDescriptor⟩
  | write env socket fd ok here call => exact ⟨now, (Shared.write_frame call).dataFileDescriptor⟩
  | readFailed env socket fd here call | read env socket fd bytes here call =>
    exact ⟨now, (Shared.read_frame call).1.dataFileDescriptor⟩
  | closeData fd here | closeEnd fd here => exact ⟨now, Shared.close_dataFileDescriptor shared fd⟩
  | _ => exact ⟨now, rfl⟩

theorem FdEffect.held (effect : FdEffect id h h' shared shared' event)
    (held : h.pc.Held (lastAssigner log = some id) shared.dataFileDescriptor (ownFd id log))
    (loads : ∀ use, h.pc = .load use →
      shared.dataFileDescriptor = none ∨ lastAssigner log = some id)
    (different : h.pc = .closeSocket → ownFd id log ≠ some h.clientSocketFd) :
    h'.pc.Held (lastAssigner (log ++ [event]) = some id) shared'.dataFileDescriptor
      (ownFd id (log ++ [event])) := by
  rw [ownFd_snoc, lastAssigner_snoc]
  cases effect with
  | plain own assigner kind current connected keeps =>
    rw [own, assigner, current]
    exact keeps _ _ _ held
  | load use here next same =>
    subst shared'
    rw [here] at held
    have fits : Fits shared.dataFileDescriptor (ownFd id log) := by
      rcases loads use here with none | mine
      · intro n given
        rw [none] at given
        cases given
      · exact held mine
    rw [next]
    cases use with
    | ioctl => exact ⟨fits, held⟩
    | write => exact ⟨fits, held⟩
    | read => exact ⟨fits, held⟩
    | closeData => exact fits
    | closeEnd => exact fits
  | opened phase fd here free next same =>
    rw [next]
    intro n given
    simpa [Event.own] using given
  | assigned phase fd here next same =>
    subst shared'
    rw [here] at held
    rw [next]
    exact fun _ => held
  | closed use fd here connected nothing same => exact nothing _ _ _
  | socketClosed here next same =>
    subst shared'
    have keeps : (Event.socketClosed id h.clientSocketFd).own id (ownFd id log) = ownFd id log := by
      simp only [Event.own, true_and]
      exact if_neg fun same => different here same.symm
    rw [here] at held
    rw [next, keeps, Shared.close_dataFileDescriptor]
    exact held

theorem FdEffect.fresh (effect : FdEffect id h h' shared shared' (.opened id (some n))) :
    shared.files n = none ∧
      ∃ writable, (shared'.files n).map Description.kind = some (some writable) := by
  cases effect with
  | plain own assigner kind current connected keeps =>
    have opens := own id none
    simp [Event.own] at opens
  | opened phase fd here free next same =>
    subst shared'
    exact ⟨free, phase.writable, by simp [Description.kind]⟩

theorem FdEffect.kind (effect : FdEffect id h h' shared shared' event) (n : Nat) :
    (shared'.files n).map Description.kind = (shared.files n).map Description.kind ∨
    event = .opened id (some n) ∨
    (event = .closed id (some n) ∧ ∃ use, h.pc = .use use (some n)) ∨
    (h.pc = .closeSocket ∧ h'.pc = .complete ∧ n = h.clientSocketFd) := by
  cases effect with
  | plain own assigner kind current connected keeps => exact .inl (kind n)
  | load use here next same => exact .inl (by rw [same])
  | assigned phase fd here next same => exact .inl (by rw [same])
  | opened phase fd here free next same =>
    subst shared'
    by_cases new : n = fd
    · exact .inr (.inl (by rw [new]))
    · exact .inl (by simp [new])
  | closed use fd here connected nothing same =>
    subst shared'
    cases fd with
    | none => exact .inl rfl
    | some fd =>
      by_cases closes : n = fd
      · subst closes
        exact .inr (.inr (.inl ⟨rfl, use, here⟩))
      · exact .inl (by simp [Shared.close, closes])
  | socketClosed here next same =>
    subst shared'
    by_cases closes : n = h.clientSocketFd
    · exact .inr (.inr (.inr ⟨here, next, closes⟩))
    · exact .inl (by simp [Shared.close, closes])

theorem FdEffect.connected (effect : FdEffect id h h' shared shared' event)
    (now : h'.pc.connected = true) : h.pc.connected = true := by
  cases effect with
  | plain own assigner kind current connected keeps => exact connected now
  | load use here next same =>
    rw [next] at now
    rw [here]
    cases use <;> first | rfl | exact now
  | opened phase fd here free next same => rw [here]; rfl
  | assigned phase fd here next same => rw [here]; rfl
  | closed use fd here connected nothing same => exact connected now
  | socketClosed here next same => rw [here]; rfl

/-- An own descriptor was own before, or this step opened it; it is not the one that this
step closes. -/
theorem FdEffect.own {own : Option Nat} (effect : FdEffect id h h' shared shared' event)
    (now : event.own id own = some n) :
    (own = some n ∧ event ≠ .closed id (some n)) ∨ event = .opened id (some n) := by
  cases effect with
  | plain keeps assigner kind current connected held =>
    refine .inl ⟨(keeps id own).symm.trans now, ?_⟩
    rintro rfl
    have closes := keeps id (some n)
    simp [Event.own] at closes
  | load use here next same => exact .inl ⟨now, by simp⟩
  | assigned phase fd here next same => exact .inl ⟨now, by simp⟩
  | opened phase fd here free next same =>
    simp only [Event.own, if_true] at now
    exact .inr (by rw [now])
  | closed use fd here connected nothing same =>
    simp only [Event.own, true_and] at now
    split at now
    · cases now
    · rename_i different
      refine .inl ⟨now, ?_⟩
      rintro closes
      cases closes
      exact different now.symm
  | socketClosed here next same =>
    simp only [Event.own, true_and] at now
    split at now
    · cases now
    · exact .inl ⟨now, by simp⟩

theorem Tidy.own_ne_socket (tidy : Tidy s log) (own : ownFd other log = some n)
    (connected : (s.handler id).pc.connected = true) : n ≠ (s.handler id).clientSocketFd := by
  rintro rfl
  obtain ⟨writable, data⟩ := tidy.isOpen other _ own
  rw [tidy.socket id connected] at data
  cases data

theorem Tidy.accept (tidy : Tidy s log) (free : s.shared.files fd = none) :
    Tidy (s.update id (.fresh fd) { s.shared with files := setFile s.shared.files fd (some .socket) })
      (log ++ [.accepted id fd]) := by
  have taken : ∀ {n kind}, (s.shared.files n).map Description.kind = some kind → n ≠ fd := by
    rintro n kind present rfl
    rw [free] at present
    cases present
  constructor
  · exact update_all (P := fun _ h => h.Routed) (.outside rfl) fun other _ => tidy.routed other
  · intro other
    rw [ownFd_snoc, lastAssigner_snoc]
    by_cases self : other = id
    · rw [self, update_handler]
      trivial
    · rw [update_other _ self]
      exact tidy.held other
  · intro other n own
    rw [ownFd_snoc] at own
    obtain ⟨writable, data⟩ := tidy.isOpen other n own
    exact ⟨writable, by simpa [taken data] using data⟩
  · intro x y n own own'
    rw [ownFd_snoc] at own own'
    exact tidy.apart x y n own own'
  · intro other connected
    by_cases self : other = id
    · simp [self, Handler.fresh, Description.kind]
    · rw [update_other _ self] at connected ⊢
      have socket := tidy.socket other connected
      simpa [taken socket] using socket
  · intro x y connectedX connectedY same
    by_cases selfX : x = id <;> by_cases selfY : y = id
    · exact selfX.trans selfY.symm
    · rw [selfX, update_handler, update_other _ selfY] at same
      rw [update_other _ selfY] at connectedY
      exact absurd same.symm (taken (tidy.socket y connectedY))
    · rw [selfY, update_handler, update_other _ selfX] at same
      rw [update_other _ selfX] at connectedX
      exact absurd same (taken (tidy.socket x connectedX))
    · rw [update_other _ selfX, update_other _ selfY] at same
      rw [update_other _ selfX] at connectedX
      rw [update_other _ selfY] at connectedY
      exact tidy.sockets x y connectedX connectedY same

theorem Advance.origin (step : Advance id h shared answer h' shared' event) (routed : h.Routed)
    (own : ownFd other (log ++ [event]) = some n) :
    (ownFd other log = some n ∧ event ≠ .closed other (some n)) ∨
      (other = id ∧ event = .opened id (some n)) := by
  rw [ownFd_snoc] at own
  by_cases self : other = id
  · subst self
    rcases (step.fdEffect routed).own own with before | new
    · exact .inl before
    · exact .inr ⟨rfl, new⟩
  · rw [step.own_other self] at own
    refine .inl ⟨own, ?_⟩
    rintro rfl
    have closes := step.own_other self (some n)
    simp [Event.own] at closes

/-- No step connects a handler, and none moves its socket. -/
theorem Advance.connected (step : Advance id (s.handler id) s.shared answer h' shared event)
    (routed : (s.handler id).Routed)
    (now : ((s.update id h' shared).handler other).pc.connected = true) :
    (s.handler other).pc.connected = true ∧
      ((s.update id h' shared).handler other).clientSocketFd = (s.handler other).clientSocketFd := by
  by_cases self : other = id
  · subst self
    rw [update_handler] at now ⊢
    exact ⟨(step.fdEffect routed).connected now, step.client⟩
  · rw [update_other _ self] at now ⊢
    exact ⟨now, rfl⟩

theorem Tidy.advance (tidy : Tidy s log)
    (loads : ∀ use, (s.handler id).pc = .load use →
      s.shared.dataFileDescriptor = none ∨ lastAssigner log = some id)
    (step : Advance id (s.handler id) s.shared answer h' shared event) :
    Tidy (s.update id h' shared) (log ++ [event]) := by
  have effect := step.fdEffect (tidy.routed id)
  have routed := tidy.routed id
  have using_own : ∀ {use n}, (s.handler id).pc = .use use (some n) → ownFd id log = some n := by
    intro use n here
    have held := tidy.held id
    rw [here] at held
    exact held.using n rfl
  constructor
  · exact update_all (P := fun _ h => h.Routed) (step.routed (tidy.routed id))
      fun x _ => tidy.routed x
  · intro x
    by_cases self : x = id
    · subst self
      rw [update_handler]
      refine effect.held (tidy.held x) loads fun here own => ?_
      exact tidy.own_ne_socket own (by rw [here]; rfl) rfl
    · rw [update_other _ self, ownFd_snoc, step.own_other self]
      refine (tidy.held x).mono fun now => ?_
      rw [lastAssigner_snoc] at now
      exact step.assigner_other self _ now
  · intro x n own
    rcases step.origin routed own with ⟨before, kept⟩ | ⟨_, rfl⟩
    · obtain ⟨writable, data⟩ := tidy.isOpen x n before
      rcases effect.kind n with same | rfl | ⟨rfl, use, here⟩ | ⟨here, _, socket⟩
      · exact ⟨writable, same.trans data⟩
      · exact effect.fresh.2
      · have same := tidy.apart x id n before (using_own here)
        subst same
        exact absurd rfl kept
      · exact absurd socket (tidy.own_ne_socket before (by rw [here]; rfl))
    · exact effect.fresh.2
  · intro x y n ownX ownY
    have taken : ∀ {z}, ownFd z log = some n → event ≠ .opened id (some n) := by
      rintro z before rfl
      obtain ⟨writable, data⟩ := tidy.isOpen z n before
      rw [effect.fresh.1] at data
      cases data
    rcases step.origin routed ownX with ⟨beforeX, _⟩ | ⟨selfX, opensX⟩
    · rcases step.origin routed ownY with ⟨beforeY, _⟩ | ⟨_, opensY⟩
      · exact tidy.apart x y n beforeX beforeY
      · exact absurd opensY (taken beforeX)
    · rcases step.origin routed ownY with ⟨beforeY, _⟩ | ⟨selfY, _⟩
      · exact absurd opensX (taken beforeY)
      · exact selfX.trans selfY.symm
  · intro x now
    obtain ⟨before, client⟩ := step.connected routed now
    have socket := tidy.socket x before
    rw [client]
    rcases effect.kind (s.handler x).clientSocketFd with same | rfl | ⟨_, use, here⟩ |
      ⟨here, next, same⟩
    · exact same.trans socket
    · rw [effect.fresh.1] at socket
      cases socket
    · exact absurd rfl (tidy.own_ne_socket (using_own here) before)
    · have self := tidy.sockets x id before (by rw [here]; rfl) same
      rw [self, update_handler, next] at now
      cases now
  · intro x y nowX nowY same
    obtain ⟨beforeX, clientX⟩ := step.connected routed nowX
    obtain ⟨beforeY, clientY⟩ := step.connected routed nowY
    rw [clientX, clientY] at same
    exact tidy.sockets x y beforeX beforeY same

theorem initial_tidy : Tidy .initial [] where
  routed _ := .outside rfl
  held _ := trivial
  isOpen _ _ own := by cases own
  apart _ _ _ own := by cases own
  socket _ connected := Bool.noConfusion connected
  sockets _ _ connected := Bool.noConfusion connected

/-- One step under the condition: the next state is tidy, and a call on a descriptor is on the
handler's own. -/
theorem Tidy.step (tidy : Tidy s log) (guard : LoadsOwn action (s, log))
    (result : Server.step action s = some (s', event)) :
    Tidy s' (log ++ [event]) ∧
      ∀ id fd, event.target = some (id, fd) → ownFd id log = some fd := by
  rcases step_cases result with ⟨id, fd, rfl, _, free, rfl, rfl⟩ |
    ⟨id, answer, h', shared, rfl, step, rfl⟩
  · exact ⟨tidy.accept free, fun _ _ call => by cases call⟩
  · refine ⟨tidy.advance (fun use here => guard (by rw [here]; rfl)) step, ?_⟩
    intro other fd call
    obtain ⟨rfl, use, here⟩ := step.target call
    have held := tidy.held other
    rw [here] at held
    exact held.using fd rfl

theorem Disciplined.snoc (disciplined : Disciplined log)
    (last : ∀ id fd, event.target = some (id, fd) → ownFd id log = some fd) :
    Disciplined (log ++ [event]) := by
  intro before e after id fd split call
  rcases Transition.split_snoc split with ⟨rfl, rfl⟩ | ⟨front, earlier⟩
  · exact last id fd call
  · exact disciplined before e front id fd earlier call

/-- In every run in which each handler loads only what it assigned itself, every `write`,
`read`, `ioctl` and `close` on a descriptor is on the one that the handler opened last and
has not closed, and that descriptor is an open data file. -/
theorem descriptors_disciplined
    (loads : Transition.Guarded (Transition.logged Server.step) LoadsOwn actions (.initial, [])) :
    Transition.Throughout Server.step actions .initial fun s events =>
      Disciplined events ∧ ∀ id n, ownFd id events = some n →
        ∃ writable, (s.shared.files n).map Description.kind = some (some writable) := by
  have all : Transition.Throughout Server.step actions .initial
      (fun s events => Tidy s events ∧ Disciplined events) := by
    refine Transition.Guarded.throughout_logged ?_ loads ⟨initial_tidy, ?_⟩
    · rintro action s log next event ⟨tidy, disciplined⟩ guard result
      obtain ⟨after, last⟩ := tidy.step guard result
      exact ⟨after, disciplined.snoc last⟩
    · intro before event after id fd split
      simp at split
  intro n s events run
  obtain ⟨tidy, disciplined⟩ := all n s events run
  exact ⟨disciplined, tidy.isOpen⟩

/-- Two clients open the data file one after the other; then the first one writes. -/
def crossedWrite : List Action :=
  [.accept 0 4, .accept 1 5, .run 0 (.recv (some [97]) ⟨0, 0⟩ []), .run 0 (.opened (some 6)),
    .run 0 .quiet, .run 1 (.recv (some [98]) ⟨0, 0⟩ []), .run 1 (.opened (some 7)), .run 1 .quiet,
    .run 0 .quiet, .run 0 .quiet, .run 0 .quiet, .run 0 (.write .success false)]

def crossedEvents : List Event :=
  [.accepted 0 4, .accepted 1 5, .received 0 (some [97]) none, .opened 0 (some 6),
    .assigned 0 (some 6), .received 1 (some [98]) none, .opened 1 (some 7), .assigned 1 (some 7),
    .checked 0, .locked 0, .loaded 0 (some 7)]

theorem crossedWrite_outcome :
    (Transition.execute Server.step crossedWrite .initial).map Prod.snd =
      some (crossedEvents ++ [.wrote 0 (some 7) true [97] []]) := by decide +kernel

/-- The first client writes to the second one's descriptor. -/
theorem descriptors_crossed :
    ∃ s events, Transition.execute Server.step crossedWrite .initial = some (s, events) ∧
      ¬Disciplined events := by
  obtain ⟨⟨s, events⟩, run, rfl⟩ := Option.map_eq_some_iff.mp crossedWrite_outcome
  refine ⟨s, _, run, fun disciplined => ?_⟩
  have own := disciplined crossedEvents _ [] 0 7 rfl rfl
  revert own
  decide

/-- The second client receives and opens the data file while the first one writes, and assigns its
descriptor when the first one has closed its own. -/
def inTurn : List Action :=
  [.accept 0 4, .accept 1 5, .run 0 (.recv (some [97]) ⟨0, 0⟩ []), .run 0 (.opened (some 6)),
    .run 0 .quiet, .run 1 (.recv (some [98]) ⟨0, 0⟩ []), .run 0 .quiet, .run 0 .quiet,
    .run 1 (.opened (some 7)), .run 0 .quiet, .run 0 (.write .success false), .run 0 .quiet,
    .run 0 .quiet, .run 0 .quiet, .run 1 .quiet, .run 1 .quiet, .run 1 .quiet, .run 1 .quiet,
    .run 1 (.write .success false)]

/-- Both write, each to its own descriptor. -/
theorem descriptors_disciplined_inTurn :
    (∃ s events, Transition.execute Server.step inTurn .initial = some (s, events) ∧
      .wrote 0 (some 6) true [97] [] ∈ events ∧ .wrote 1 (some 7) true [98] [] ∈ events) ∧
    Transition.Throughout Server.step inTurn .initial fun s events =>
      Disciplined events ∧ ∀ id n, ownFd id events = some n →
        ∃ writable, (s.shared.files n).map Description.kind = some (some writable) := by
  constructor
  · have outcome : (Transition.execute Server.step inTurn .initial).map (fun last =>
        decide (.wrote 0 (some 6) true [97] [] ∈ last.2 ∧ .wrote 1 (some 7) true [98] [] ∈ last.2)) =
        some true := by
      decide +kernel
    obtain ⟨⟨s, events⟩, run, both⟩ := Option.map_eq_some_iff.mp outcome
    exact ⟨s, events, run, of_decide_eq_true both⟩
  · apply descriptors_disciplined
    decide +kernel

end Aesd
