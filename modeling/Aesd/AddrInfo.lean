import Aesd.Shutdown

/-! The list that `getaddrinfo` allocates. In every run that ends it is freed, and it is freed twice
exactly when a signal is handled between the two statements of `free_and_nullify_result` in
`main`. -/
namespace Aesd

variable {s s' : Startup} {g : Globals} {e : Executed} {action : StartAction} {answer : StartAnswer}
  {actions : List StartAction} {event : StartEvent} {events log : List StartEvent}
  {a b sig : Signal} {stmt : Stmt} {c d w rest : List Stmt} {older : List (Signal × List Stmt)}
  {table : Nat → Option OpenedAs} {result addrinfo : Bool} {doubled : Prop}

section Code

/-- Whatever is answered, this code frees the list once, if it is allocated, and no more. -/
def Releases : List Stmt → Bool → Bool → Prop
  | [], result, addrinfo => result = false ∧ addrinfo = false
  | .getaddrinfo :: rest, result, addrinfo =>
    (result = false ∧ addrinfo = false) ∧ Releases rest true true ∧ Releases rest false false
  | .mutexInit :: rest, result, addrinfo | .daemonMode :: rest, result, addrinfo
  | .fork :: rest, result, addrinfo | .serve :: rest, result, addrinfo
  | .exit :: rest, result, addrinfo | .exitWith _ :: rest, result, addrinfo =>
    (result = false ∧ addrinfo = false) ∧ Releases rest false false
  | .testResult :: rest, result, addrinfo => result = addrinfo ∧ Releases rest false false
  | .freeaddrinfo :: rest, result, addrinfo =>
    (result = true ∧ addrinfo = true) ∧ Releases rest true false
  | .nullify :: rest, result, addrinfo =>
    (result = true ∧ addrinfo = false) ∧ Releases rest false false
  | _ :: rest, result, addrinfo => result = addrinfo ∧ Releases rest result addrinfo

/-- Started where the list is freed but `result` not NULL, this code frees it again. -/
def Repeats : List Stmt → Bool → Prop → Prop
  | [], _, doubled => doubled
  | .testResult :: rest, result, _ => result = true ∧ Repeats rest false True
  | .freeaddrinfo :: rest, result, _ => Repeats rest result True
  | .nullify :: rest, _, doubled => Repeats rest false doubled
  | _ :: rest, result, doubled => Repeats rest result doubled

theorem main_releases : Releases main false false := by
  simp [main, mainSocketApplication, freeAndNullifyResult, cleanupOnExit, Releases]

theorem onError_releases (result : Bool) : Releases onError result result := by
  simp [onError, cleanupOnExit, freeAndNullifyResult, Releases]

theorem leaves_releases (status : Int) : Releases [.syslog, .exitWith status] false false := by
  simp [Releases]

theorem runDaemon_releases (releases : Releases rest false false) :
    Releases (runDaemon ++ rest) false false := by
  simp [runDaemon, Releases, releases]

theorem graceful_releases (same : result = addrinfo) :
    Releases (gracefulShutdown a) result addrinfo := by
  simp [gracefulShutdown, cleanupOnExit, freeAndNullifyResult, Releases, same]

theorem graceful_repeats (here : result = true) : Repeats (gracefulShutdown a) result doubled := by
  simp [gracefulShutdown, cleanupOnExit, freeAndNullifyResult, Repeats, here]

/-- `result` points to the list, unless the list was just freed. -/
theorem Releases.same (releases : Releases c result addrinfo) (away : c.head? ≠ some .nullify) :
    result = addrinfo := by
  cases c with
  | nil => exact releases.1.trans releases.2.symm
  | cons stmt rest =>
    cases stmt <;> first
      | exact releases.1
      | exact releases.1.1.trans releases.1.2.symm
      | exact absurd rfl away

theorem Releases.between (releases : Releases c result addrinfo)
    (between : c.head? = some .nullify) : result = true ∧ addrinfo = false := by
  cases c with
  | nil => cases between
  | cons stmt rest =>
    cases between
    exact releases.1

theorem onError_of_same (same : result = addrinfo) : Releases onError result addrinfo :=
  same ▸ onError_releases result

theorem Releases.none (none : result = false ∧ addrinfo = false)
    (releases : Releases c false false) : Releases c result addrinfo := by
  rw [none.1, none.2]
  exact releases

theorem exec_releases (ordinary : stmt.ordinary = true)
    (releases : Releases (stmt :: rest) g.result g.addrinfo)
    (exec : stmt.exec answer rest g = some e) :
    Releases e.next e.globals.result e.globals.addrinfo ∧ e.event ≠ .freeaddrinfo false := by
  cases stmt
  case getaddrinfo =>
    obtain ⟨none, some', none'⟩ := releases
    rcases answer with _ | _ | _ | ⟨ret, list⟩ | _ | _ <;>
      simp only [Stmt.exec, reduceCtorEq] at exec
    split at exec
    · cases exec
      refine ⟨?_, StartEvent.noConfusion⟩
      cases list with
      | true => exact some'
      | false => exact none'
    · cases exec
      exact ⟨onError_of_same (none.1.trans none.2.symm), StartEvent.noConfusion⟩
  case testResult =>
    obtain ⟨same, later⟩ := releases
    cases answer <;> simp only [Stmt.exec, reduceCtorEq] at exec
    split at exec
    · rename_i here
      cases exec
      exact ⟨⟨⟨here, same.symm.trans here⟩, ⟨rfl, rfl⟩, later⟩, StartEvent.noConfusion⟩
    · rename_i null
      cases exec
      have none : g.result = false := Bool.eq_false_iff.mpr null
      exact ⟨.none ⟨none, same.symm.trans none⟩ later, StartEvent.noConfusion⟩
  case freeaddrinfo =>
    obtain ⟨⟨here, allocated⟩, later⟩ := releases
    cases answer <;> simp only [Stmt.exec, reduceCtorEq, Option.some.injEq] at exec
    subst exec
    refine ⟨here.symm ▸ later, ?_⟩
    rw [allocated]
    rintro ⟨⟩
  case nullify =>
    obtain ⟨⟨here, freed⟩, later⟩ := releases
    cases answer <;> simp only [Stmt.exec, reduceCtorEq, Option.some.injEq] at exec
    subst exec
    exact ⟨.none ⟨rfl, freed⟩ later, StartEvent.noConfusion⟩
  -- the other statements leave `result` and the list alone
  all_goals try exact absurd ordinary Bool.false_ne_true
  all_goals
    obtain ⟨same, later⟩ := releases
    rcases answer with _ | _ | (_ | _) | _ | _ | _ <;>
      simp only [Stmt.exec, reduceCtorEq, Option.some.injEq] at exec
    repeat' split at exec
    all_goals
      cases exec <;> refine ⟨?_, StartEvent.noConfusion⟩
    all_goals first
      | exact later
      | exact same
      | exact ⟨same, later⟩
      | exact onError_of_same same
      | exact onError_of_same (same.1.trans same.2.symm)
      | exact ⟨same, onError_of_same same⟩
      | exact ⟨same.1.trans same.2.symm, onError_of_same (same.1.trans same.2.symm)⟩
      | exact .none same later
      | exact .none same (runDaemon_releases later)
      | exact .none same (leaves_releases _)
      | exact ⟨same, same, same, same, later⟩

theorem tidy_releases (tidies : stmt.tidies = true)
    (releases : Releases (stmt :: rest) g.result g.addrinfo)
    (exec : stmt.exec answer rest g = some e) :
    Releases e.next e.globals.result e.globals.addrinfo ∧ e.event ≠ .freeaddrinfo false := by
  cases ordinary : stmt.ordinary with
  | true => exact exec_releases ordinary releases exec
  | false =>
    cases stmt <;> cases ordinary
    all_goals try exact absurd tidies Bool.false_ne_true
    all_goals
      cases answer <;> simp only [Stmt.exec, reduceCtorEq, Option.some.injEq] at exec
      repeat' split at exec
      all_goals
        cases exec
        first
          | exact ⟨releases.2, StartEvent.noConfusion⟩
          | exact ⟨releases, StartEvent.noConfusion⟩

theorem Repeats.mono {doubled' : Prop} (repeats : Repeats c result doubled)
    (more : doubled → doubled') : Repeats c result doubled' := by
  induction c generalizing result doubled doubled' with
  | nil => exact more repeats
  | cons stmt rest ih =>
    cases stmt <;> first
      | exact ih repeats more
      | exact ⟨repeats.1, repeats.2⟩
      | exact repeats

theorem tidy_repeats (tidies : stmt.tidies = true)
    (repeats : Repeats (stmt :: rest) g.result doubled) (freed : g.addrinfo = false)
    (exec : stmt.exec answer rest g = some e) :
    Repeats e.next e.globals.result (doubled ∨ e.event = .freeaddrinfo false) ∧
      e.globals.addrinfo = false := by
  have tidy := exec_tidy tidies exec
  have event := tidy.event
  have after := tidy.result
  have list : e.globals.addrinfo = false := by
    rw [tidy.addrinfo, freed, ite_self]
  refine ⟨?_, list⟩
  cases tidy.inserts with
  | release test here clients next =>
    subst test
    rw [if_neg (by decide)] at after
    rw [next, after]
    exact here ▸ repeats.2
  | log failed clients next =>
    rw [next]
    rcases failed with rfl | rfl <;>
      · rw [if_neg (by decide)] at after
        rw [after]
        exact Repeats.mono repeats .inl
  | node frees clients next =>
    subst frees
    rw [if_neg (by decide)] at after
    rw [next, after]
    exact Repeats.mono repeats .inl
  | nothing clients next test =>
    rw [next]
    by_cases free : stmt = .freeaddrinfo
    · subst free
      rw [if_pos rfl, freed] at event
      rw [if_neg (by decide)] at after
      rw [after]
      have again : Repeats rest g.result True := repeats
      exact again.mono fun _ => .inr event
    · by_cases null : stmt = .nullify
      · subst null
        rw [if_pos rfl] at after
        rw [after]
        exact repeats.mono .inl
      · rw [if_neg null] at after
        rw [after]
        cases stmt
        case testResult => exact Bool.noConfusion (repeats.1.symm.trans (test rfl))
        all_goals first
          | exact repeats.mono .inl
          | contradiction

end Code

section Account

structure Startup.Early (s : Startup) (log : List StartEvent) : Prop where
  none : s.globals.result = false ∧ s.globals.addrinfo = false
  away : s.code.head? ≠ some .nullify
  single : .freeaddrinfo false ∉ log

/-- A signal that is not blocked goes to the handler, unless nothing was allocated. -/
def Startup.Hears (s : Startup) (log : List StartEvent) : Prop :=
  ∀ sig, s.blocks sig = false → s.globals.handled sig = true ∨ s.Early log

/-- In `main`: both signals go to the handler, or `getaddrinfo` is still to come, or `main` ends
without the mutex. -/
def Startup.Prepared (s : Startup) : Prop :=
  (∀ sig, s.globals.handled sig = true) ∨
    ((∃ k ≤ 4, s.code = main.drop k ∧ (k = 4 → s.globals.handled .sigint = true)) ∨
        s.code = [.syslog, .exitWith (-1)] ∨ s.code = [.exitWith (-1)]) ∧
      s.globals.result = false ∧ s.globals.addrinfo = false

/-- What becomes of the list: until a handler sets the flag that is up to `main`, and then it is up
to the handler. -/
structure Startup.Accounted (s : Startup) (log : List StartEvent) : Prop where
  calm : s.globals.fatalErrorInProgress = false →
    Releases s.code s.globals.result s.globals.addrinfo ∧ .freeaddrinfo false ∉ log
  prepared : s.frames = [] → s.Prepared
  once : s.globals.fatalErrorInProgress = true → s.code.head? ≠ some .nullify →
    ∀ a w older, s.frames = (a, w) :: older →
      Releases w s.globals.result s.globals.addrinfo ∧ .freeaddrinfo false ∉ log
  twice : s.globals.fatalErrorInProgress = true → s.code.head? = some .nullify →
    ∀ a w older, s.frames = (a, w) :: older →
      Repeats w s.globals.result (.freeaddrinfo false ∈ log) ∧ s.globals.addrinfo = false
  hears : s.frames ≠ [] → s.Hears log

structure Startup.Settled (s : Startup) (log : List StartEvent) : Prop where
  freed : s.globals.addrinfo = false
  doubled : .freeaddrinfo false ∈ log ↔ s.frames ≠ [] ∧ s.code.head? = some .nullify

theorem Startup.Early.snoc (early : s.Early log) (code : s'.code = s.code)
    (none : s'.globals.result = false ∧ s'.globals.addrinfo = false)
    (plain : event ≠ .freeaddrinfo false) : s'.Early (log ++ [event]) where
  none := none
  away := code ▸ early.away
  single member := by
    rcases List.mem_append.mp member with earlier | now
    · exact early.single earlier
    · exact plain (List.mem_singleton.mp now).symm

theorem Startup.Prepared.early (prepared : s.Prepared) (single : .freeaddrinfo false ∉ log)
    (unheard : s.globals.handled sig = false) : s.Early log := by
  rcases prepared with all | ⟨code, none⟩
  · rw [all sig] at unheard
    cases unheard
  · have away : ∀ k ≤ 4, (main.drop k).head? ≠ some .nullify := by decide
    refine ⟨none, ?_, single⟩
    rcases code with ⟨k, bound, code, _⟩ | code | code <;> rw [code]
    · exact away k bound
    · rintro ⟨⟩
    · rintro ⟨⟩

theorem Startup.Accounted.heard (accounted : s.Accounted log)
    (standing : Standing s log) (open' : s.blocks sig = false)
    (unheard : s.globals.handled sig = false) : s.Early log := by
  by_cases frames : s.frames = []
  · cases standing with
    | main _ calm =>
      exact (accounted.prepared frames).early (accounted.calm calm).2 unheard
    | entering a c older frames' | winding a c older frames' | trapped a b w x _ frames' =>
      rw [frames] at frames'
      cases frames'
  · rcases accounted.hears frames sig open' with handled | early
    · rw [unheard] at handled
      cases handled
    · exact early

theorem Startup.Early.settled (early : s.Early log) (code : s'.code = s.code)
    (addrinfo : s'.globals.addrinfo = s.globals.addrinfo) (plain : event ≠ .freeaddrinfo false) :
    s'.Settled (log ++ [event]) where
  freed := addrinfo.trans early.none.2
  doubled := by
    have away := early.away
    constructor
    · intro member
      rcases List.mem_append.mp member with earlier | now
      · exact absurd earlier early.single
      · exact absurd (List.mem_singleton.mp now).symm plain
    · rintro ⟨_, between⟩
      rw [code] at between
      exact absurd between away

theorem single_snoc (single : .freeaddrinfo false ∉ log) (plain : event ≠ .freeaddrinfo false) :
    .freeaddrinfo false ∉ log ++ [event] := by
  intro member
  rcases List.mem_append.mp member with earlier | now
  · exact single earlier
  · exact plain (List.mem_singleton.mp now).symm

theorem Startup.Accounted.keep (accounted : s.Accounted log) (code : s'.code = s.code)
    (frames : s'.frames = s.frames)
    (fatal : s'.globals.fatalErrorInProgress = s.globals.fatalErrorInProgress)
    (result : s'.globals.result = s.globals.result)
    (addrinfo : s'.globals.addrinfo = s.globals.addrinfo)
    (handled : s'.globals.handled = s.globals.handled) (plain : event ≠ .freeaddrinfo false) :
    s'.Accounted (log ++ [event]) where
  calm := by
    rw [code, fatal, result, addrinfo]
    intro calm
    exact ⟨(accounted.calm calm).1, single_snoc (accounted.calm calm).2 plain⟩
  prepared := by
    intro empty
    simp only [Startup.Prepared, code, result, addrinfo, handled]
    exact accounted.prepared (frames ▸ empty)
  once := by
    rw [code, fatal, frames, result, addrinfo]
    intro set away a w older here
    obtain ⟨releases, single⟩ := accounted.once set away a w older here
    exact ⟨releases, single_snoc single plain⟩
  twice := by
    rw [code, fatal, frames, result, addrinfo]
    intro set between a w older here
    obtain ⟨repeats, freed⟩ := accounted.twice set between a w older here
    exact ⟨repeats.mono (List.mem_append_left _), freed⟩
  hears := by
    rw [frames]
    intro interrupted sig open'
    rw [handled]
    rcases accounted.hears interrupted sig (by simpa [Startup.blocks, frames] using open') with
      heard | early
    · exact .inl heard
    · exact .inr (early.snoc code (by rw [result, addrinfo]; exact early.none) plain)

/-- What is known of a run until now, as long as no second signal was handled. -/
structure Startup.Tracked (s : Startup) (log : List StartEvent) : Prop where
  controlled : s.Controlled log
  accounted : Quiet log → s.ended = none → s.Accounted log
  settled : Quiet log → s.ended ≠ none → s.Settled log

theorem Quiet.earlier (quiet : Quiet (log ++ [event])) : Quiet log :=
  fun sig member => quiet sig (List.mem_append_left _ member)

theorem Tracked.notify (standing : Standing s log) (accounted : s.Accounted log)
    (alive : s.ended = none) (quiet : Quiet (log ++ [(s.notify sig).2])) :
    ((s.notify sig).1.ended = none → (s.notify sig).1.Accounted (log ++ [(s.notify sig).2])) ∧
      ((s.notify sig).1.ended ≠ none →
        (s.notify sig).1.Settled (log ++ [(s.notify sig).2])) := by
  cases blocked : s.blocks sig with
  | true =>
    rw [notify_blocked blocked]
    refine ⟨fun _ => ?_, fun ended => absurd alive ended⟩
    exact accounted.keep rfl rfl rfl rfl rfl rfl StartEvent.noConfusion
  | false =>
    revert quiet
    simp only [Startup.notify, blocked, Bool.false_eq_true, if_false, Startup.deliver]
    cases handled : s.globals.handled sig with
    | false =>
      intro _
      simp only [Bool.false_eq_true, if_false]
      have early := accounted.heard standing blocked handled
      exact ⟨(by rintro ⟨⟩), fun _ => early.settled rfl rfl StartEvent.noConfusion⟩
    | true =>
      simp only [if_true]
      intro quiet
      refine ⟨fun _ => ?_, fun ended => absurd alive ended⟩
      have calm : s.globals.fatalErrorInProgress = false := by
        by_contra set
        rw [Bool.not_eq_false] at set
        rw [set] at quiet
        exact quiet sig (List.mem_append_right _ (List.mem_singleton_self _))
      obtain ⟨releases, single⟩ := accounted.calm calm
      rw [calm]
      simp only [Bool.false_eq_true, if_false]
      refine ⟨fun _ => ⟨releases, single_snoc single StartEvent.noConfusion⟩,
        (by rintro ⟨⟩), fun set => ?_, fun set => ?_, fun _ other open' => ?_⟩
      · rw [calm] at set
        cases set
      · rw [calm] at set
        cases set
      · have before : s.blocks other = false := by
          simp only [Startup.blocks, List.any_cons, Bool.or_eq_false_iff] at open'
          exact open'.2
        cases heard : s.globals.handled other with
        | true => exact .inl rfl
        | false =>
          have early := accounted.heard standing before heard
          exact .inr (early.snoc rfl early.none StartEvent.noConfusion)

theorem Startup.Prepared.exec (prepared : s.Prepared) (code : s.code = stmt :: rest)
    (effect : Ordinary s.globals e) (exec : stmt.exec answer rest s.globals = some e)
    (goes : e.ending = none) (code' : s'.code = e.next) (globals' : s'.globals = e.globals) :
    s'.Prepared := by
  rcases prepared with all | ⟨⟨k, bound, here, handled⟩ | here | here, none⟩
  · exact .inl fun sig => by
      rw [globals']
      exact effect.handled sig (all sig)
  · have same := here.symm.trans code
    rw [Startup.Prepared, code', globals']
    obtain rfl | rfl | rfl | rfl | rfl : k = 0 ∨ k = 1 ∨ k = 2 ∨ k = 3 ∨ k = 4 := by omega
    · obtain ⟨rfl, rfl⟩ := List.cons.inj (same : .mutexInit :: main.drop 1 = stmt :: rest)
      cases answer <;> simp only [Stmt.exec, reduceCtorEq] at exec
      split at exec
      · cases exec
        exact .inr ⟨.inl ⟨1, by decide, rfl, (by rintro ⟨⟩)⟩, none⟩
      · cases exec
        exact .inr ⟨.inr (.inl rfl), none⟩
    · obtain ⟨rfl, rfl⟩ := List.cons.inj (same : .openlog :: main.drop 2 = stmt :: rest)
      cases answer <;> simp only [Stmt.exec, reduceCtorEq, Option.some.injEq] at exec
      subst exec
      exact .inr ⟨.inl ⟨2, by decide, rfl, (by rintro ⟨⟩)⟩, none⟩
    · obtain ⟨rfl, rfl⟩ := List.cons.inj (same : .getopt :: main.drop 3 = stmt :: rest)
      cases answer <;> simp only [Stmt.exec, reduceCtorEq, Option.some.injEq] at exec
      subst exec
      exact .inr ⟨.inl ⟨3, by decide, rfl, (by rintro ⟨⟩)⟩, none⟩
    · obtain ⟨rfl, rfl⟩ := List.cons.inj (same : .signal .sigint :: main.drop 4 = stmt :: rest)
      cases answer <;> simp only [Stmt.exec, reduceCtorEq, Option.some.injEq] at exec
      subst exec
      have now : Function.update s.globals.handled .sigint true .sigint = true :=
        Function.update_self ..
      exact .inr ⟨.inl ⟨4, by decide, rfl, fun _ => now⟩, none⟩
    · obtain ⟨rfl, rfl⟩ := List.cons.inj (same : .signal .sigterm :: main.drop 5 = stmt :: rest)
      cases answer <;> simp only [Stmt.exec, reduceCtorEq, Option.some.injEq] at exec
      subst exec
      refine .inl fun sig => ?_
      cases sig with
      | sigint => exact handled rfl
      | sigterm =>
        have now : Function.update s.globals.handled .sigterm true .sigterm = true :=
          Function.update_self ..
        exact now
  · obtain ⟨rfl, rfl⟩ := List.cons.inj (here.symm.trans code)
    have tidy := exec_tidy rfl exec
    refine .inr ⟨.inr (.inr ?_), ?_⟩
    · rw [code']
      cases tidy.inserts with
      | nothing clients next => exact next
      | release test => cases test
      | log failed => rcases failed with failed | failed <;> cases failed
      | node frees => cases frees
    · rw [globals', tidy.result, tidy.addrinfo]
      exact none
  · obtain ⟨rfl, rfl⟩ := List.cons.inj (here.symm.trans code)
    cases answer <;> simp only [Stmt.exec, reduceCtorEq, Option.some.injEq] at exec
    subst exec
    cases goes

theorem Tracked.main (ordinary : ∀ stmt ∈ s.code, stmt.ordinary = true) (frames : s.frames = [])
    (calm : s.globals.fatalErrorInProgress = false) (accounted : s.Accounted log)
    (step : s.run answer = some (s', event)) :
    (s'.ended = none → s'.Accounted (log ++ [event])) ∧
      (s'.ended ≠ none → s'.Settled (log ++ [event])) := by
  obtain ⟨releases, single⟩ := accounted.calm calm
  simp only [Startup.run, frames] at step
  split at step
  · cases step
  · rename_i stmt rest code
    rw [code, List.forall_mem_cons] at ordinary
    rw [code] at releases
    obtain ⟨e, exec, same⟩ := Option.map_eq_some_iff.mp step
    have effect := exec_ordinary ordinary.1 ordinary.2 exec
    obtain ⟨later, plain⟩ := exec_releases ordinary.1 releases exec
    simp only [Startup.executed, effect.raised, Prod.mk.injEq] at same
    obtain ⟨rfl, rfl⟩ := same
    have unset := effect.fatal.trans calm
    constructor
    · intro goes
      refine ⟨fun _ => ⟨later, single_snoc single plain⟩, fun _ => ?_, fun set => ?_, fun set => ?_,
        fun interrupted => absurd rfl interrupted⟩
      · exact (accounted.prepared frames).exec code effect exec goes rfl rfl
      · cases unset.symm.trans set
      · cases unset.symm.trans set
    · intro ended
      rw [effect.ending ended] at later
      refine ⟨later.2, ?_⟩
      constructor
      · exact fun member => absurd member (single_snoc single plain)
      · exact fun both => absurd rfl both.1

theorem Tracked.entering (frames : s.frames = (a, c) :: older) (entering : Entering a c)
    (calm : s.globals.fatalErrorInProgress = false) (accounted : s.Accounted log)
    (step : s.run answer = some (s', event)) :
    s'.ended = none ∧ s'.Accounted (log ++ [event]) := by
  obtain ⟨releases, single⟩ := accounted.calm calm
  have interrupted : s.frames ≠ [] := by simp [frames]
  have hears := accounted.hears interrupted
  rcases entering with rfl | rfl
  · simp only [Startup.run, frames, handleTermination] at step
    obtain ⟨e, exec, same⟩ := Option.map_eq_some_iff.mp step
    cases answer <;> simp only [Stmt.exec, calm, reduceCtorEq, Bool.false_eq_true, if_false,
      Option.some.injEq] at exec
    subst exec
    cases same
    refine ⟨rfl, fun _ => ⟨releases, single_snoc single StartEvent.noConfusion⟩,
      (by rintro ⟨⟩), fun set => ?_, fun set => ?_, fun _ sig open' => ?_⟩
    · cases calm.symm.trans set
    · cases calm.symm.trans set
    · refine (hears sig ?_).imp_right fun early => early.snoc rfl early.none StartEvent.noConfusion
      simpa [Startup.blocks, frames] using open'
  · simp only [Startup.run, frames] at step
    obtain ⟨e, exec, same⟩ := Option.map_eq_some_iff.mp step
    cases answer <;> simp only [Stmt.exec, reduceCtorEq, Option.some.injEq] at exec
    subst exec
    cases same
    refine ⟨rfl, (by rintro ⟨⟩), (by rintro ⟨⟩), ?_, ?_,
      fun _ sig open' => ?_⟩
    · intro _ away b w older' here
      cases here
      exact ⟨graceful_releases (releases.same away), single_snoc single StartEvent.noConfusion⟩
    · intro _ between b w older' here
      cases here
      obtain ⟨pointed, freed⟩ := releases.between between
      exact ⟨graceful_repeats pointed, freed⟩
    · refine (hears sig ?_).imp_right fun early => early.snoc rfl early.none StartEvent.noConfusion
      simpa [Startup.blocks, frames] using open'

theorem Startup.Accounted.wind (accounted : s.Accounted log) (frames : s.frames = (a, w) :: older)
    (fatal : s.globals.fatalErrorInProgress = true) (frames' : s'.frames = (a, d) :: older)
    (code : s'.code = s.code) (fatal' : s'.globals.fatalErrorInProgress = true)
    (handled : ∀ sig, sig ≠ a → s'.globals.handled sig = s.globals.handled sig)
    (none : s.globals.result = false ∧ s.globals.addrinfo = false →
      s'.globals.result = false ∧ s'.globals.addrinfo = false)
    (once : Releases w s.globals.result s.globals.addrinfo →
      Releases d s'.globals.result s'.globals.addrinfo ∧ event ≠ .freeaddrinfo false)
    (twice : Repeats w s.globals.result (.freeaddrinfo false ∈ log) → s.globals.addrinfo = false →
      Repeats d s'.globals.result (.freeaddrinfo false ∈ log ∨ event = .freeaddrinfo false) ∧
        s'.globals.addrinfo = false) : s'.Accounted (log ++ [event]) where
  calm unset := by cases fatal'.symm.trans unset
  prepared empty := by
    rw [frames'] at empty
    cases empty
  once _ away b x older' here := by
    cases frames'.symm.trans here
    obtain ⟨releases, single⟩ := accounted.once fatal (code ▸ away) a w older frames
    obtain ⟨later, plain⟩ := once releases
    exact ⟨later, single_snoc single plain⟩
  twice _ between b x older' here := by
    cases frames'.symm.trans here
    obtain ⟨repeats, freed⟩ := accounted.twice fatal (code ▸ between) a w older frames
    obtain ⟨later, freed'⟩ := twice repeats freed
    refine ⟨later.mono ?_, freed'⟩
    rintro (earlier | now)
    · exact List.mem_append_left _ earlier
    · exact List.mem_append_right _ (List.mem_singleton.mpr now.symm)
  hears _ sig open' := by
    have other : sig ≠ a := by
      rintro rfl
      rw [blocks_head frames'] at open'
      cases open'
    have before : s.blocks sig = false := by
      rw [Startup.blocks, frames] 
      rw [Startup.blocks, frames'] at open'
      exact open'
    rcases accounted.hears (frames ▸ List.cons_ne_nil _ _) sig before with heard | early
    · exact .inl ((handled sig other).trans heard)
    · obtain ⟨releases, _⟩ := accounted.once fatal early.away a w older frames
      exact .inr (early.snoc code (none early.none) (once releases).2)

theorem Tracked.winding (frames : s.frames = (a, w) :: older) (winds : Winds a w)
    (fatal : s.globals.fatalErrorInProgress = true)
    (default : w = [] ∨ w = [.raise a] → s.globals.handled a = false)
    (raised : w = [] → s.pending a = true) (accounted : s.Accounted log)
    (step : s.run answer = some (s', event)) :
    (s'.ended = none → s'.Accounted (log ++ [event])) ∧
      (s'.ended ≠ none → s'.Settled (log ++ [event])) := by
  have interrupted : s.frames ≠ [] := by simp [frames]
  have hears := accounted.hears interrupted
  cases w with
  | nil =>
    simp only [Startup.run, frames, raised rfl, if_true, Startup.deliver, default (.inl rfl),
      Bool.false_eq_true, if_false, Option.some.injEq, Prod.mk.injEq] at step
    obtain ⟨rfl, rfl⟩ := step
    refine ⟨(by rintro ⟨⟩), fun _ => ?_⟩
    by_cases between : s.code.head? = some .nullify
    · obtain ⟨doubled, freed⟩ := accounted.twice fatal between a [] older frames
      exact ⟨freed, iff_of_true (List.mem_append_left _ doubled) ⟨List.cons_ne_nil _ _, between⟩⟩
    · obtain ⟨releases, single⟩ := accounted.once fatal between a [] older frames
      exact ⟨releases.2, iff_of_false (single_snoc single StartEvent.noConfusion)
        fun both => between both.2⟩
  | cons stmt rest =>
    simp only [Startup.run, frames] at step
    obtain ⟨e, exec, same⟩ := Option.map_eq_some_iff.mp step
    refine winds.cases ?_ ?_ ?_
    · rintro rfl rfl
      cases answer <;> simp only [Stmt.exec, reduceCtorEq, Option.some.injEq] at exec
      subst exec
      have blocked : Startup.blocks { s with
          frames := (a, []) :: older, globals := s.globals, ended := none } a = true :=
        blocks_head rfl
      simp only [Startup.executed, Globals.then, notify_blocked blocked, Prod.mk.injEq] at same
      obtain ⟨rfl, rfl⟩ := same
      refine ⟨fun _ => ?_, fun ended => absurd rfl ended⟩
      exact accounted.wind frames fatal rfl rfl fatal (fun _ _ => rfl) id
        (fun releases => ⟨releases.2, StartEvent.noConfusion⟩)
        (fun doubled freed => ⟨.inl doubled, freed⟩)
    · rintro rfl rfl
      cases answer <;> simp only [Stmt.exec, reduceCtorEq, Option.some.injEq] at exec
      subst exec
      cases same
      refine ⟨fun _ => ?_, fun ended => absurd rfl ended⟩
      exact accounted.wind frames fatal rfl rfl fatal
        (fun _ other => Function.update_of_ne other ..) id
        (fun releases => ⟨releases.2, StartEvent.noConfusion⟩)
        (fun doubled freed => ⟨.inl doubled, freed⟩)
    · intro tidies more unraised winds'
      have tidy := exec_tidy tidies exec
      simp only [Startup.executed, tidy.raised, tidy.ending, Prod.mk.injEq] at same
      obtain ⟨rfl, rfl⟩ := same
      refine ⟨fun _ => ?_, fun ended => absurd rfl ended⟩
      refine accounted.wind frames fatal rfl rfl (tidy.fatal.trans fatal)
        (fun _ _ => by rw [tidy.handled]) ?_ (fun releases => tidy_releases tidies releases exec)
        (fun repeats freed => tidy_repeats tidies repeats freed exec)
      rintro ⟨null, freed⟩
      simp only [tidy.result, tidy.addrinfo, null, freed, ite_self, and_self]

theorem Tracked.later (controlled : s.Controlled log)
    (accounted : Quiet log → s.ended = none → s.Accounted log)
    (step : s.step action = some (s', event)) (quiet : Quiet (log ++ [event])) :
    (s'.ended = none → s'.Accounted (log ++ [event])) ∧
      (s'.ended ≠ none → s'.Settled (log ++ [event])) := by
  unfold Startup.step at step
  by_cases alive : s.ended = none
  · have standing := controlled.standing alive
    have accounted := accounted quiet.earlier alive
    rw [alive] at step
    cases action with
    | run answer =>
      cases standing with
      | main frames calm => exact Tracked.main controlled.ordinary frames calm accounted step
      | entering a c older frames entering beneath calm =>
        obtain ⟨goes, later⟩ := Tracked.entering frames entering calm accounted step
        exact ⟨fun _ => later, fun ended => absurd goes ended⟩
      | winding a w older frames winds short beneath fatal default raised =>
        exact Tracked.winding frames winds fatal default raised accounted step
      | trapped a b w x apart frames fatal handled bounces interrupted =>
        exact absurd interrupted (quiet.earlier b)
    | signal sig =>
      have same := Option.some.inj step
      have after : (s.notify sig).2 = event := congrArg Prod.snd same
      have tracked := Tracked.notify standing accounted alive (after.symm ▸ quiet)
      rw [same] at tracked
      exact tracked
    | threads files logFile data client =>
      simp only [Option.isSome_none, Bool.false_eq_true, if_false] at step
      split at step
      · cases step
        exact ⟨fun _ => accounted.keep rfl rfl rfl rfl rfl rfl StartEvent.noConfusion,
          fun ended => absurd rfl ended⟩
      · cases step
  · obtain ⟨ending, ended⟩ := Option.ne_none_iff_exists'.mp alive
    rw [ended] at step
    cases step

theorem Startup.Tracked.step (tracked : s.Tracked log)
    (step : s.step action = some (s', event)) : s'.Tracked (log ++ [event]) where
  controlled := tracked.controlled.step step
  accounted quiet := (Tracked.later tracked.controlled tracked.accounted step quiet).1
  settled quiet := (Tracked.later tracked.controlled tracked.accounted step quiet).2

theorem Startup.Tracked.of_run
    (run : Transition.execute Startup.step actions (.initial table) = some (s, events)) :
    s.Tracked events := by
  refine Transition.execute_history Startup.Tracked (fun _ _ _ _ _ tracked step =>
    tracked.step step) run ⟨.of_run (Transition.execute_nil _), fun _ _ => ?_,
      fun _ ended => absurd rfl ended⟩
  exact
    { calm := fun _ => ⟨main_releases, List.not_mem_nil⟩
      prepared := fun _ => .inr ⟨.inl ⟨0, by decide, rfl, (by rintro ⟨⟩)⟩, rfl, rfl⟩
      once := by rintro ⟨⟩
      twice := by rintro ⟨⟩
      hears := fun interrupted => absurd rfl interrupted }

end Account

section Results

/-- No signal comes between the two statements of `free_and_nullify_result` in `main`. -/
def Uncut (action : StartAction) (s : Startup) : Prop :=
  match action with
  | .signal _ => s.frames = [] → s.code.head? ≠ some .nullify
  | _ => True

def Startup.Cut (s : Startup) : Prop := s.frames ≠ [] ∧ s.code.head? = some .nullify

theorem notify_stays (frames : s.frames ≠ []) (same : s.notify sig = (s', event)) :
    s'.code = s.code ∧ s'.frames ≠ [] := by
  unfold Startup.notify Startup.deliver at same
  repeat' split at same
  all_goals
    cases same
    first
      | exact ⟨rfl, frames⟩
      | exact ⟨rfl, List.cons_ne_nil _ _⟩

theorem run_main (ordinary : ∀ stmt ∈ s.code, stmt.ordinary = true) (frames : s.frames = [])
    (step : s.run answer = some (s', event)) : s'.frames = [] := by
  simp only [Startup.run, frames] at step
  split at step
  · cases step
  · rename_i stmt rest code
    rw [code, List.forall_mem_cons] at ordinary
    obtain ⟨e, exec, same⟩ := Option.map_eq_some_iff.mp step
    simp only [Startup.executed, (exec_ordinary ordinary.1 ordinary.2 exec).raised,
      Prod.mk.injEq] at same
    exact same.1 ▸ rfl

/-- As long as a handler runs, `main` stays where it was interrupted. -/
theorem run_stays (frames : s.frames = (a, w) :: older) (raised : w = [] → s.pending a = true)
    (step : s.run answer = some (s', event)) : s'.code = s.code ∧ s'.frames ≠ [] := by
  cases w with
  | nil =>
    simp only [Startup.run, frames, raised rfl, if_true, Startup.deliver, Option.some.injEq] at step
    split at step
    · cases step
      exact ⟨rfl, List.cons_ne_nil _ _⟩
    · cases step
      exact ⟨rfl, List.cons_ne_nil _ _⟩
  | cons stmt rest =>
    simp only [Startup.run, frames] at step
    obtain ⟨e, _, same⟩ := Option.map_eq_some_iff.mp step
    unfold Startup.executed at same
    dsimp only at same
    split at same
    · have stays := notify_stays (by exact List.cons_ne_nil _ _) same
      exact stays
    · cases same
      exact ⟨rfl, List.cons_ne_nil _ _⟩

theorem Startup.Controlled.alive (step : s.step action = some (s', event)) : s.ended = none := by
  by_contra ended
  obtain ⟨ending, ended⟩ := Option.ne_none_iff_exists'.mp ended
  simp only [Startup.step, ended, Option.isSome_some, if_true, reduceCtorEq] at step

/-- A handler never returns to `main`. -/
theorem Startup.Controlled.stays (controlled : s.Controlled log) (frames : s.frames ≠ [])
    (step : s.step action = some (s', event)) : s'.code = s.code ∧ s'.frames ≠ [] := by
  have alive := Startup.Controlled.alive step
  have standing := controlled.standing alive
  simp only [Startup.step, alive, Option.isSome_none, Bool.false_eq_true, if_false] at step
  cases action with
  | run answer =>
    cases standing with
    | main empty => exact absurd empty frames
    | entering a c older frames entering =>
      refine run_stays frames (fun empty => ?_) step
      rcases entering with rfl | rfl <;> cases empty
    | winding a w older frames winds short beneath fatal default raised =>
      exact run_stays frames raised step
    | trapped a b w x apart frames fatal handled bounces =>
      refine run_stays frames (fun empty => ?_) step
      rcases bounces with rfl | rfl | ⟨_, pending⟩
      · cases empty
      · cases empty
      · exact pending
  | signal sig => exact notify_stays frames (Option.some.inj step)
  | threads files logFile data client =>
    simp only at step
    split at step
    · cases step
      exact ⟨rfl, frames⟩
    · cases step

theorem Startup.Tracked.cut_step (tracked : s.Tracked log)
    (step : s.step action = some (s', event)) : ¬s'.Cut ↔ ¬s.Cut ∧ Uncut action s := by
  have alive := Startup.Controlled.alive step
  by_cases frames : s.frames = []
  · have uncut : ¬s.Cut := fun cut => cut.1 frames
    simp only [Startup.step, alive, Option.isSome_none, Bool.false_eq_true, if_false] at step
    cases tracked.controlled.standing alive with
    | main _ calm uncaught quiet =>
      cases action with
      | run answer =>
        have empty : s'.frames = [] := run_main tracked.controlled.ordinary frames step
        exact iff_of_true (fun cut => cut.1 empty) ⟨uncut, trivial⟩
      | signal sig =>
        have blocks : s.blocks sig = false := by simp [Startup.blocks, frames]
        simp only [Startup.notify, blocks, Bool.false_eq_true, if_false, Startup.deliver,
          Option.some.injEq] at step
        split at step
        · cases step
          simp [Startup.Cut, Uncut, frames]
        · rename_i unheard
          cases step
          have early := (tracked.accounted quiet alive).heard
            (.main frames calm uncaught quiet) blocks (Bool.eq_false_iff.mpr unheard)
          exact iff_of_true (fun cut => cut.1 frames) ⟨uncut, fun _ => early.away⟩
      | threads files logFile data client =>
        simp only at step
        split at step
        · cases step
          exact iff_of_true (fun cut => cut.1 frames) ⟨uncut, trivial⟩
        · cases step
    | entering a c older frames' | winding a c older frames' | trapped a b w x _ frames' =>
      rw [frames] at frames'
      cases frames'
  · obtain ⟨code, interrupted⟩ := tracked.controlled.stays frames step
    have uncut : Uncut action s := by
      cases action with
      | signal sig => exact fun empty => absurd empty frames
      | run answer => trivial
      | threads files logFile data client => trivial
    simp only [Startup.Cut, code, frames, interrupted, uncut, ne_eq, not_false_eq_true, true_and,
      and_true]

/-- In every run that ends the list is freed in the end; and it is freed a second time exactly when a
signal came between the two statements. -/
theorem addrinfo_released
    (run : Transition.execute Startup.step actions (.initial table) = some (s, events))
    (gone : s.ended ≠ none) :
    s.globals.addrinfo = false ∧
      (.freeaddrinfo false ∉ events ↔
        Transition.Guarded Startup.step Uncut actions (.initial table)) := by
  have tracked := Startup.Tracked.of_run run
  have settled := tracked.settled (tracked.controlled.gone gone) gone
  have start : ¬(Startup.initial table).Cut := fun cut => cut.1 rfl
  have cut := Transition.guarded_iff (fun s => ¬s.Cut) (fun s => ∃ log, s.Tracked log)
    (fun action s s' event before step => by
      obtain ⟨log, tracked⟩ := before
      exact ⟨⟨_, tracked.step step⟩, tracked.cut_step step⟩) run
    ⟨[], .of_run (Transition.execute_nil _)⟩
  exact ⟨settled.freed, (not_congr settled.doubled).trans (cut.trans (and_iff_right start))⟩

/-- A signal comes when the list is freed and `result` still points to it. -/
def cutShort : List StartAction :=
  binding ++ [.run .quiet, .run .quiet, .signal .sigterm] ++
    [.quiet, .quiet, .fd (some 3), .ret 0, .quiet, .fd (some 3), .quiet, .quiet, .quiet, .quiet,
      .quiet, .quiet, .quiet, .quiet, .fd (some 3), .quiet, .quiet, .quiet, .quiet].map .run

theorem addrinfo_released_cut : ∃ s events,
    Transition.execute Startup.step cutShort (.initial standard) = some (s, events) ∧
      s.globals.addrinfo = false ∧
      (.freeaddrinfo false ∉ events ↔
        Transition.Guarded Startup.step Uncut cutShort (.initial standard)) := by
  have runs : (Transition.execute Startup.step cutShort (.initial standard)).map
      (fun last => last.1.ended) = some (some (.killed .sigterm)) := by
    decide +kernel
  obtain ⟨⟨s, events⟩, run, ended⟩ := Option.map_eq_some_iff.mp runs
  have gone : s.ended ≠ none := ended ▸ Option.some_ne_none _
  exact ⟨s, events, run, addrinfo_released run gone⟩

end Results

end Aesd
