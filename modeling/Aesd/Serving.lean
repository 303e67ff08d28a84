import Aesd.AddrInfo

/-! What `accept_and_log_client` finds: whatever descriptors the process was started with, the socket
listens, the address list is freed, and the other descriptors are as they were, but for the one that
`syslog` keeps and the standard ones of a daemon. -/
namespace Aesd

variable {s s' : Startup} {g : Globals} {e : Executed} {action : StartAction} {answer : StartAnswer}
  {actions : List StartAction} {event : StartEvent} {events log : List StartEvent} {stmt : Stmt}
  {c rest : List Stmt} {table : Nat → Option OpenedAs} {fd : Nat}

section Positions

def Stmt.late : Stmt → Bool
  | .syslog | .closeData | .freeNodes | .mutexDestroy | .closeSocket | .closeClient | .testResult
  | .freeaddrinfo | .nullify | .closelog | .exit | .exitWith _ => true
  | _ => false

structure HasLog (table : Nat → Option OpenedAs) (g : Globals) : Prop where
  log : ∀ m, g.logFile = some m → table m = none ∧ g.files m = some .log
  files : ∀ n, g.logFile ≠ some n → g.files n = table n

/-- The socket is new, and so is the log's descriptor, if there is one. -/
structure HasSocket (table : Nat → Option OpenedAs) (g : Globals) (fd : Nat)
    (bound listening : Bool) : Prop where
  sockFd : g.sockFd = some fd
  new : table fd = none
  log : ∀ m, g.logFile = some m → m ≠ fd ∧ table m = none
  socket : g.files fd = some (.socket bound listening)
  files : ∀ n, n ≠ fd → g.logFile ≠ some n → g.files n = table n

/-- The same for a daemon, whose standard descriptors are others. -/
structure HasDaemon (table : Nat → Option OpenedAs) (g : Globals) (fd : Nat)
    (listening : Bool) : Prop where
  mode : g.sFlags.daemonMode = true
  sockFd : g.sockFd = some fd
  new : table fd = none
  log : ∀ m, g.logFile = some m → m ≠ fd ∧ table m = none
  socket : 3 ≤ fd → g.files fd = some (.socket true listening)
  files : ∀ n, 3 ≤ n → n ≠ fd → g.logFile ≠ some n → g.files n = table n

/-- Standard input is closed, and the other two lead to `/dev/null`. -/
structure Redirected (g : Globals) : Prop where
  stdin : g.files 0 = none
  stdout : g.files 1 = some .devNull
  stderr : g.files 2 = some .devNull

def redirect : List Stmt := [.dup2 0 0, .dup2 0 1, .dup2 0 2, .close 0]

/-- How far `main` has come, and what the descriptors are there. -/
inductive Reached (table : Nat → Option OpenedAs) (c : List Stmt) (g : Globals) : Prop
  | begun (k : Nat) (bound : k ≤ 9) (code : c = main.drop k ∨ c = .syslog :: main.drop k)
      (log : HasLog table g) : Reached table c g
  | opened (k fd : Nat) (bound : k = 10 ∨ k = 11) (code : c = main.drop k)
      (socket : HasSocket table g fd false false) : Reached table c g
  | bound (fd : Nat) (code : c = main.drop 12 ∨ c = .freeaddrinfo :: .nullify :: main.drop 13 ∨
        c = .nullify :: main.drop 13 ∨ c = main.drop 13)
      (socket : HasSocket table g fd true false) : Reached table c g
  | daemon (k fd : Nat) (bound : k ≤ 6) (code : c = runDaemon.drop k ++ main.drop 14)
      (socket : HasDaemon table g fd false) (closed : ∀ n, n + 3 < k → g.files n = none) :
      Reached table c g
  | redirecting (k fd : Nat) (bound : k ≤ 3) (code : c = redirect.drop k ++ main.drop 14)
      (socket : HasDaemon table g fd false) (null : g.files 0 = some .devNull)
      (done : ∀ n, n < 3 → n < k → g.files n = some .devNull) : Reached table c g
  | listening (fd : Nat) (code : c = main.drop 14)
      (socket : (g.sFlags.daemonMode = false ∧ HasSocket table g fd true false) ∨
        (HasDaemon table g fd false ∧ Redirected g)) : Reached table c g
  | serving (fd : Nat) (code : c = main.drop 15)
      (socket : (g.sFlags.daemonMode = false ∧ HasSocket table g fd true true) ∨
        (3 ≤ fd ∧ HasDaemon table g fd true ∧ Redirected g)) : Reached table c g
  | late (late : ∀ stmt ∈ c, stmt.late = true) : Reached table c g

theorem onError_late : ∀ stmt ∈ onError, stmt.late = true := by decide

theorem Reached.error (table : Nat → Option OpenedAs) (g : Globals) : Reached table onError g :=
  .late onError_late

theorem exec_late (late : ∀ stmt' ∈ stmt :: rest, stmt'.late = true)
    (exec : stmt.exec answer rest g = some e) : ∀ stmt' ∈ e.next, stmt'.late = true := by
  obtain ⟨first, others⟩ := List.forall_mem_cons.mp late
  cases stmt <;> try exact absurd first Bool.false_ne_true
  all_goals
    rcases answer with _ | _ | (_ | _) | _ | _ | _ <;>
      simp only [Stmt.exec, reduceCtorEq, Option.some.injEq] at exec
    repeat' split at exec
    all_goals
      cases exec <;> first
        | exact others
        | exact List.forall_mem_nil _
        | exact late
        | simpa [Globals.then, Stmt.late] using others

def Stmt.plain : Stmt → Bool
  | .mutexInit | .openlog | .getopt | .signal _ | .logDaemon | .getaddrinfo | .resultNull
  | .setsockopt | .fork | .setsid | .chdir => true
  | _ => false

structure Plain (table : Nat → Option OpenedAs) (g : Globals) (rest : List Stmt) (stmt : Stmt)
    (e : Executed) : Prop where
  files : e.globals.files = g.files
  logFile : e.globals.logFile = g.logFile
  sockFd : e.globals.sockFd = g.sockFd
  mode : stmt ≠ .getopt → e.globals.sFlags = g.sFlags
  next : e.next = rest ∨ (stmt = .logDaemon ∧ e.next = .syslog :: rest) ∨
    Reached table e.next e.globals

theorem cleanup_late : ∀ stmt ∈ main.drop 16, stmt.late = true := by decide

theorem failure_late : ∀ stmt ∈ .syslog :: onError, stmt.late = true := by decide

theorem leaves_late (status : Int) : ∀ stmt ∈ [Stmt.syslog, .exitWith status], stmt.late = true := by
  simp [Stmt.late]

theorem exec_plain (plain : stmt.plain = true) (exec : stmt.exec answer rest g = some e) :
    Plain table g rest stmt e := by
  cases stmt <;> try exact absurd plain Bool.false_ne_true
  all_goals
    cases answer <;> simp only [Stmt.exec, reduceCtorEq, Option.some.injEq] at exec
    repeat' split at exec
    all_goals
      cases exec
      first
        | exact ⟨rfl, rfl, rfl, fun _ => rfl, .inl rfl⟩
        | exact ⟨rfl, rfl, rfl, fun other => absurd rfl other, .inl rfl⟩
        | exact ⟨rfl, rfl, rfl, fun _ => rfl, .inr (.inl ⟨rfl, rfl⟩)⟩
        | exact ⟨rfl, rfl, rfl, fun _ => rfl, .inr (.inr (.late onError_late))⟩
        | exact ⟨rfl, rfl, rfl, fun _ => rfl, .inr (.inr (.late failure_late))⟩
        | exact ⟨rfl, rfl, rfl, fun _ => rfl, .inr (.inr (.late (leaves_late _)))⟩

theorem Plain.reached (plain : Plain table g rest stmt e) (other : stmt ≠ .logDaemon)
    (goes : e.next = rest → Reached table e.next e.globals) : Reached table e.next e.globals := by
  rcases plain.next with here | ⟨same, _⟩ | reached
  · exact goes here
  · exact absurd same other
  · exact reached

theorem HasLog.keep (log : HasLog table g) (plain : Plain table g rest stmt e) :
    HasLog table e.globals where
  log := by
    rw [plain.logFile, plain.files]
    exact log.log
  files := by
    rw [plain.logFile, plain.files]
    exact log.files

theorem HasLog.drop (log : HasLog table g) : g.dropLog.files = table := by
  funext n
  cases here : g.logFile with
  | none =>
    simp only [Globals.dropLog, here]
    apply log.files n
    rw [here]
    rintro ⟨⟩
  | some m =>
    simp only [Globals.dropLog, here]
    by_cases same : n = m
    · rw [same, Function.update_self, (log.log m here).1]
    · rw [Function.update_of_ne same]
      apply log.files n
      rw [here]
      exact fun equal => same (Option.some.inj equal).symm

/-- A message to the log may take a free descriptor, or give one back. -/
theorem HasLog.syslog (log : HasLog table g) (exec : Stmt.syslog.exec answer rest g = some e) :
    HasLog table e.globals ∧ e.next = rest := by
  rcases answer with _ | _ | (_ | fd) | _ | _ | _ <;>
    simp only [Stmt.exec, reduceCtorEq, Option.some.injEq] at exec
  · subst exec
    refine ⟨⟨?_, fun n _ => congrFun log.drop n⟩, rfl⟩
    rintro m ⟨⟩
  · split at exec
    · cases exec
      exact ⟨⟨log.log, log.files⟩, rfl⟩
    · split at exec
      · rename_i lowest
        cases exec
        refine ⟨⟨?_, fun n other => ?_⟩, rfl⟩
        · intro m here
          cases here
          refine ⟨?_, g.dropLog.setFile_same fd _⟩
          rw [← log.drop]
          exact lowest.1
        · have apart : n ≠ fd := fun same => other (by rw [same]; rfl)
          exact (g.dropLog.setFile_other _ apart).trans (congrFun log.drop n)
      · cases exec

/-- The socket takes a free descriptor, which is not the log's. -/
theorem HasLog.socket (log : HasLog table g) (free : g.files fd = none) :
    HasSocket table { g.setFile fd (some (.socket false false)) with sockFd := some fd } fd false
      false := by
  have apart : ∀ m, g.logFile = some m → m ≠ fd := by
    rintro m here rfl
    cases free.symm.trans (log.log m here).2
  exact
    { sockFd := rfl
      new := (log.files fd fun here => apart fd here rfl).symm.trans free
      log := fun m here => ⟨apart m here, (log.log m here).1⟩
      socket := g.setFile_same fd _
      files := fun n other silent => (g.setFile_other _ other).trans (log.files n silent) }

theorem HasSocket.listen {bound listening bound' listening' : Bool}
    (socket : HasSocket table g fd bound listening) :
    HasSocket table (g.setFile fd (some (.socket bound' listening'))) fd bound' listening' where
  sockFd := socket.sockFd
  new := socket.new
  log := socket.log
  socket := g.setFile_same fd _
  files n other silent := (g.setFile_other _ other).trans (socket.files n other silent)

theorem HasSocket.keep {bound listening : Bool} (socket : HasSocket table g fd bound listening)
    (plain : Plain table g rest stmt e) : HasSocket table e.globals fd bound listening where
  sockFd := plain.sockFd.trans socket.sockFd
  new := socket.new
  log := plain.logFile ▸ socket.log
  socket := (congrFun plain.files fd).trans socket.socket
  files := by
    rw [plain.logFile, plain.files]
    exact socket.files

theorem Reached.exec_begun {k : Nat} (bound : k ≤ 9)
    (code : stmt :: rest = main.drop k ∨ stmt :: rest = .syslog :: main.drop k)
    (log : HasLog table g) (exec : stmt.exec answer rest g = some e) :
    Reached table e.next e.globals := by
  have plain : ∀ j ≤ 8, j ≠ 5 → (main.drop j).head?.all Stmt.plain = true ∧
      (main.drop j).tail = main.drop (j + 1) := by decide
  have logs : ∀ j ≤ 9, stmt :: rest = .syslog :: main.drop j → Reached table e.next e.globals := by
    intro j within same
    obtain ⟨rfl, rfl⟩ := List.cons.inj same
    obtain ⟨after, next⟩ := log.syslog exec
    exact .begun j within (.inl next) after
  rcases code with code | code
  · by_cases last : k = 9
    · subst last
      obtain ⟨rfl, rfl⟩ := List.cons.inj (code : stmt :: rest = .socket :: main.drop 10)
      rcases answer with _ | _ | (_ | fd) | _ | _ | _ <;> simp only [Stmt.exec, reduceCtorEq] at exec
      · cases exec
        exact .error table _
      · split at exec
        · rename_i lowest
          cases exec
          exact .opened 10 fd (.inl rfl) rfl (log.socket lowest.1)
        · cases exec
    · by_cases message : k = 5
      · subst message
        exact logs 6 (by decide) code
      · obtain ⟨first, tail⟩ := plain k (by omega) message
        rw [← code] at first tail
        have effect : Plain table g rest stmt e := exec_plain first exec
        have after := log.keep effect
        rcases effect.next with here | ⟨_, here⟩ | reached
        · exact .begun (k + 1) (by omega) (.inl (here.trans tail)) after
        · exact .begun (k + 1) (by omega) (.inr (here.trans (congrArg _ tail))) after
        · exact reached
  · exact logs k bound code

theorem Reached.exec_opened {k : Nat} (bound : k = 10 ∨ k = 11) (code : stmt :: rest = main.drop k)
    (socket : HasSocket table g fd false false) (exec : stmt.exec answer rest g = some e) :
    Reached table e.next e.globals := by
  rcases bound with rfl | rfl
  · obtain ⟨rfl, rfl⟩ := List.cons.inj (code : stmt :: rest = .setsockopt :: main.drop 11)
    have effect : Plain table g (main.drop 11) .setsockopt e := exec_plain rfl exec
    exact effect.reached Stmt.noConfusion fun here =>
      .opened 11 fd (.inr rfl) here (socket.keep effect)
  · obtain ⟨rfl, rfl⟩ := List.cons.inj (code : stmt :: rest = .bind :: main.drop 12)
    cases answer <;> simp only [Stmt.exec, socket.sockFd, reduceCtorEq] at exec
    split at exec
    · cases exec
      exact .error table _
    · cases exec
      exact .bound fd (.inl rfl) socket.listen

theorem Reached.exec_bound (code : stmt :: rest = main.drop 12 ∨
      stmt :: rest = .freeaddrinfo :: .nullify :: main.drop 13 ∨
      stmt :: rest = .nullify :: main.drop 13 ∨ stmt :: rest = main.drop 13)
    (socket : HasSocket table g fd true false) (exec : stmt.exec answer rest g = some e) :
    Reached table e.next e.globals := by
  rcases code with code | code | code | code
  · obtain ⟨rfl, rfl⟩ := List.cons.inj (code : stmt :: rest = .testResult :: main.drop 13)
    cases answer <;> simp only [Stmt.exec, reduceCtorEq] at exec
    split at exec
    · cases exec
      exact .bound fd (.inr (.inl rfl)) socket
    · cases exec
      exact .bound fd (.inr (.inr (.inr rfl))) socket
  · obtain ⟨rfl, rfl⟩ := List.cons.inj code
    cases answer <;> simp only [Stmt.exec, reduceCtorEq, Option.some.injEq] at exec
    subst exec
    exact .bound fd (.inr (.inr (.inl rfl)))
      ⟨socket.sockFd, socket.new, socket.log, socket.socket, socket.files⟩
  · obtain ⟨rfl, rfl⟩ := List.cons.inj code
    cases answer <;> simp only [Stmt.exec, reduceCtorEq, Option.some.injEq] at exec
    subst exec
    exact .bound fd (.inr (.inr (.inr rfl)))
      ⟨socket.sockFd, socket.new, socket.log, socket.socket, socket.files⟩
  · obtain ⟨rfl, rfl⟩ := List.cons.inj (code : stmt :: rest = .daemonMode :: main.drop 14)
    cases answer <;> simp only [Stmt.exec, reduceCtorEq] at exec
    split at exec
    · rename_i mode
      cases exec
      refine .daemon 0 fd (by decide) rfl ?_ fun n below => absurd below (Nat.not_lt_zero _)
      exact ⟨mode, socket.sockFd, socket.new, socket.log, fun _ => socket.socket,
        fun n _ => socket.files n⟩
    · rename_i mode
      cases exec
      exact .listening fd rfl (.inl ⟨Bool.eq_false_iff.mpr mode, socket⟩)

theorem HasDaemon.setFile {listening : Bool} {n : Nat} (socket : HasDaemon table g fd listening)
    (standard : n < 3) (opened : Option OpenedAs) :
    HasDaemon table (g.setFile n opened) fd listening where
  mode := socket.mode
  sockFd := socket.sockFd
  new := socket.new
  log := socket.log
  socket above := (g.setFile_other opened (by omega)).trans (socket.socket above)
  files m above other silent :=
    (g.setFile_other opened (by omega)).trans (socket.files m above other silent)

theorem HasDaemon.keep {listening : Bool} (socket : HasDaemon table g fd listening)
    (plain : Plain table g rest stmt e) (other : stmt ≠ .getopt) :
    HasDaemon table e.globals fd listening where
  mode := plain.mode other ▸ socket.mode
  sockFd := plain.sockFd.trans socket.sockFd
  new := socket.new
  log := plain.logFile ▸ socket.log
  socket above := (congrFun plain.files fd).trans (socket.socket above)
  files := by
    rw [plain.logFile, plain.files]
    exact socket.files

theorem Reached.exec_daemon {k : Nat} (bound : k ≤ 6)
    (code : stmt :: rest = runDaemon.drop k ++ main.drop 14) (socket : HasDaemon table g fd false)
    (closed : ∀ n, n + 3 < k → g.files n = none) (exec : stmt.exec answer rest g = some e) :
    Reached table e.next e.globals := by
  have plain : ∀ j ≤ 2, (runDaemon.drop j ++ main.drop 14).head?.all Stmt.plain = true ∧
      ((runDaemon.drop j ++ main.drop 14).head? ≠ some .getopt ∧
        (runDaemon.drop j ++ main.drop 14).head? ≠ some .logDaemon) ∧
      (runDaemon.drop j ++ main.drop 14).tail = runDaemon.drop (j + 1) ++ main.drop 14 := by decide
  have closing : ∀ n < 3, runDaemon.drop (n + 3) ++ main.drop 14 =
      .close n :: (runDaemon.drop (n + 4) ++ main.drop 14) := by decide
  by_cases early : k ≤ 2
  · obtain ⟨first, other, tail⟩ := plain k early
    rw [← code] at first other tail
    have effect : Plain table g rest stmt e := exec_plain first exec
    refine effect.reached (fun same => other.2 (congrArg some same)) fun here =>
      .daemon (k + 1) fd (by omega) (here.trans tail)
        (socket.keep effect fun same => other.1 (congrArg some same)) fun n below => ?_
    omega
  by_cases last : k = 6
  · subst last
    obtain ⟨rfl, rfl⟩ := List.cons.inj (code : stmt :: rest = .openNull :: main.drop 14)
    rcases answer with _ | _ | (_ | n) | _ | _ | _ <;> simp only [Stmt.exec, reduceCtorEq] at exec
    · cases exec
      exact .late failure_late
    · split at exec
      · rename_i lowest
        cases exec
        -- all three are closed, so that it gets number 0
        have zero : n = 0 := by
          by_contra above
          exact lowest.2 0 (Nat.pos_of_ne_zero above) (closed 0 (by decide))
        subst zero
        exact .redirecting 0 fd (by decide) rfl (socket.setFile (by decide) _)
          (g.setFile_same 0 _) (fun n _ below => absurd below (Nat.not_lt_zero n))
      · cases exec
  · obtain ⟨n, rfl⟩ : ∃ n, k = n + 3 := ⟨k - 3, by omega⟩
    rw [closing n (by omega)] at code
    obtain ⟨rfl, rfl⟩ := List.cons.inj code
    cases answer <;> simp only [Stmt.exec, reduceCtorEq, Option.some.injEq] at exec
    subst exec
    refine .daemon (n + 4) fd (by omega) rfl (socket.setFile (by omega) _) ?_
    intro m below
    by_cases same : m = n
    · subst same
      exact g.setFile_same m none
    · exact (g.setFile_other none same).trans (closed m (by omega))

theorem Reached.exec_redirecting {k : Nat} (bound : k ≤ 3)
    (code : stmt :: rest = redirect.drop k ++ main.drop 14) (socket : HasDaemon table g fd false)
    (null : g.files 0 = some .devNull) (done : ∀ n, n < 3 → n < k → g.files n = some .devNull)
    (exec : stmt.exec answer rest g = some e) : Reached table e.next e.globals := by
  have copying : ∀ n < 3, redirect.drop n ++ main.drop 14 =
      .dup2 0 n :: (redirect.drop (n + 1) ++ main.drop 14) := by decide
  by_cases last : k = 3
  · subst last
    obtain ⟨rfl, rfl⟩ := List.cons.inj (code : stmt :: rest = .close 0 :: main.drop 14)
    cases answer <;> simp only [Stmt.exec, reduceCtorEq, Option.some.injEq] at exec
    subst exec
    refine .listening fd rfl (.inr ⟨socket.setFile (by decide) _, g.setFile_same 0 none, ?_, ?_⟩)
    · exact (g.setFile_other none (by decide)).trans (done 1 (by decide) (by decide))
    · exact (g.setFile_other none (by decide)).trans (done 2 (by decide) (by decide))
  · have below : k < 3 := by omega
    rw [copying k below] at code
    obtain ⟨rfl, rfl⟩ := List.cons.inj code
    cases answer <;> simp only [Stmt.exec, null, reduceCtorEq] at exec
    split at exec
    · cases exec
      exact .late failure_late
    · cases exec
      refine .redirecting (k + 1) fd below rfl (socket.setFile below _) ?_ ?_
      · by_cases same : 0 = k
        · subst same
          exact g.setFile_same 0 _
        · exact (g.setFile_other _ same).trans null
      · intro n low until'
        by_cases same : n = k
        · subst same
          exact g.setFile_same n _
        · exact (g.setFile_other _ same).trans (done n low (by omega))

/-- `listen` fails on anything but a socket. -/
theorem Reached.exec_listening (code : stmt :: rest = main.drop 14)
    (socket : (g.sFlags.daemonMode = false ∧ HasSocket table g fd true false) ∨
      (HasDaemon table g fd false ∧ Redirected g)) (exec : stmt.exec answer rest g = some e) :
    Reached table e.next e.globals := by
  obtain ⟨rfl, rfl⟩ := List.cons.inj (code : stmt :: rest = .listen :: main.drop 15)
  rcases socket with ⟨mode, socket⟩ | ⟨socket, redirected⟩
  · cases answer <;> simp only [Stmt.exec, socket.sockFd, socket.socket, reduceCtorEq] at exec
    split at exec
    · cases exec
      exact .error table _
    · cases exec
      have after : HasSocket table (g.setFile fd (some (.socket true true))) fd true true :=
        socket.listen
      exact .serving fd rfl (.inl
        ⟨mode, after.sockFd, after.new, after.log, after.socket, after.files⟩)
  · cases answer <;> simp only [Stmt.exec, socket.sockFd, reduceCtorEq] at exec
    split at exec
    · cases exec
      exact .error table _
    · split at exec
      · rename_i here
        cases exec
        have above : 3 ≤ fd := by
          by_contra low
          obtain rfl | rfl | rfl : fd = 0 ∨ fd = 1 ∨ fd = 2 := by omega
          · cases redirected.stdin.symm.trans here
          · cases redirected.stdout.symm.trans here
          · cases redirected.stderr.symm.trans here
        cases (socket.socket above).symm.trans here
        refine .serving fd rfl (.inr ⟨above, ⟨socket.mode, socket.sockFd, socket.new, socket.log,
          fun _ => g.setFile_same fd _, fun n high other silent => ?_⟩, ?_⟩)
        · exact (g.setFile_other _ other).trans (socket.files n high other silent)
        · exact ⟨(g.setFile_other _ (by omega)).trans redirected.stdin,
            (g.setFile_other _ (by omega)).trans redirected.stdout,
            (g.setFile_other _ (by omega)).trans redirected.stderr⟩
      · cases exec

theorem Reached.exec (reached : Reached table (stmt :: rest) g)
    (exec : stmt.exec answer rest g = some e) : Reached table e.next e.globals := by
  cases reached with
  | begun k bound code log => exact .exec_begun bound code log exec
  | opened k fd bound code socket => exact .exec_opened bound code socket exec
  | bound fd code socket => exact .exec_bound code socket exec
  | daemon k fd bound code socket closed => exact .exec_daemon bound code socket closed exec
  | redirecting k fd bound code socket null done =>
    exact .exec_redirecting bound code socket null done exec
  | listening fd code socket => exact .exec_listening code socket exec
  | serving fd code socket =>
    obtain ⟨rfl, rfl⟩ := List.cons.inj (code : stmt :: rest = .serve :: main.drop 16)
    cases answer <;> simp only [Stmt.exec, reduceCtorEq, Option.some.injEq] at exec
    · split at exec
      · cases exec
        exact .error table _
      · cases exec
        exact .late cleanup_late
    · subst exec
      refine .serving fd rfl ?_
      rcases socket with ⟨mode, socket⟩ | ⟨above, socket, redirected⟩
      · exact .inl ⟨mode, socket.sockFd, socket.new, socket.log, socket.socket, socket.files⟩
      · exact .inr ⟨above, ⟨socket.mode, socket.sockFd, socket.new, socket.log, socket.socket,
          socket.files⟩, ⟨redirected.stdin, redirected.stdout, redirected.stderr⟩⟩
  | late late => exact .late (exec_late late exec)

end Positions

section Results

def StartAction.alone : StartAction → Prop
  | .threads .. => False
  | _ => True

structure Startup.Arrives (table : Nat → Option OpenedAs) (s : Startup) (log : List StartEvent) :
    Prop where
  controlled : s.Controlled log
  reached : s.frames = [] → Reached table s.code s.globals

theorem Startup.Arrives.step (arrives : s.Arrives table log) (alone : action.alone)
    (step : s.step action = some (s', event)) : s'.Arrives table (log ++ [event]) where
  controlled := arrives.controlled.step step
  reached empty := by
    have frames : s.frames = [] := by
      by_contra interrupted
      exact (arrives.controlled.stays interrupted step).2 empty
    have reached := arrives.reached frames
    have alive := Startup.Controlled.alive step
    simp only [Startup.step, alive, Option.isSome_none, Bool.false_eq_true, if_false] at step
    cases action with
    | run answer =>
      have ordinary := arrives.controlled.ordinary
      simp only [Startup.run, frames] at step
      split at step
      · cases step
      · rename_i stmt rest code
        rw [code] at reached ordinary
        obtain ⟨first, others⟩ := List.forall_mem_cons.mp ordinary
        obtain ⟨e, exec, same⟩ := Option.map_eq_some_iff.mp step
        simp only [Startup.executed, (exec_ordinary first others exec).raised, Prod.mk.injEq] at same
        obtain ⟨rfl, rfl⟩ := same
        exact reached.exec exec
    | signal sig =>
      have blocks : s.blocks sig = false := by simp [Startup.blocks, frames]
      simp only [Startup.notify, blocks, Bool.false_eq_true, if_false, Startup.deliver,
        Option.some.injEq] at step
      split at step
      · cases step
        cases empty
      · cases step
        exact reached
    | threads files logFile data client => cases alone

/-- What `accept_and_log_client` is called with. -/
structure Startup.Ready (table : Nat → Option OpenedAs) (s : Startup) (fd : Nat) : Prop where
  sockFd : s.globals.sockFd = some fd
  listening : s.globals.files fd = some (.socket true true)
  new : table fd = none
  released : s.globals.result = false ∧ s.globals.addrinfo = false
  log : ∀ m, s.globals.logFile = some m → m ≠ fd ∧ table m = none
  others : ∀ n, 3 ≤ n → n ≠ fd → s.globals.logFile ≠ some n → s.globals.files n = table n
  foreground : s.globals.sFlags.daemonMode = false →
    ∀ n < 3, n ≠ fd → s.globals.logFile ≠ some n → s.globals.files n = table n
  daemon : s.globals.sFlags.daemonMode = true → 3 ≤ fd ∧ Redirected s.globals

theorem Reached.serve (reached : Reached table c g) (here : c.head? = some .serve) :
    ∃ fd, (g.sFlags.daemonMode = false ∧ HasSocket table g fd true true) ∨
      (3 ≤ fd ∧ HasDaemon table g fd true ∧ Redirected g) := by
  have away : ∀ k ≤ 14, (main.drop k).head? ≠ some .serve := by decide
  have away' : ∀ k ≤ 6, (runDaemon.drop k ++ main.drop 14).head? ≠ some .serve := by decide
  have away'' : ∀ k ≤ 3, (redirect.drop k ++ main.drop 14).head? ≠ some .serve := by decide
  cases reached with
  | begun k bound code =>
    rcases code with rfl | rfl
    · exact absurd here (away k (by omega))
    · cases here
  | opened k fd bound code =>
    rw [code] at here
    exact absurd here (away k (by omega))
  | bound fd code =>
    rcases code with rfl | rfl | rfl | rfl
    · exact absurd here (away 12 (by decide))
    · cases here
    · cases here
    · exact absurd here (away 13 (by decide))
  | daemon k fd bound code =>
    rw [code] at here
    exact absurd here (away' k bound)
  | redirecting k fd bound code =>
    rw [code] at here
    exact absurd here (away'' k bound)
  | listening fd code =>
    rw [code] at here
    exact absurd here (away 14 (by decide))
  | serving fd code socket => exact ⟨fd, socket⟩
  | late late =>
    cases c with
    | nil => cases here
    | cons stmt rest =>
      cases here
      exact absurd (late _ List.mem_cons_self) Bool.false_ne_true

/-- Whenever the server comes to accept clients, its socket listens under a number that was free,
the address list is freed, and the other descriptors are those it was started with, but for the
log's, which was free as well; a daemon's standard input is closed, the other two lead to
`/dev/null`, and the socket is none of the three. -/
theorem serving_ready
    (run : Transition.execute Startup.step actions (.initial table) = some (s, events))
    (alone : ∀ action ∈ actions, action.alone) (alive : s.ended = none) (frames : s.frames = [])
    (here : s.code.head? = some .serve) : ∃ fd, s.Ready table fd := by
  have arrives : s.Arrives table ([] ++ events) := by
    refine Transition.Guarded.history (Startup.Arrives table) (fun _ _ _ _ _ arrives alone step =>
      arrives.step alone step) (Transition.guarded_labels alone _) run ?_
    exact ⟨.of_run (Transition.execute_nil _), fun _ =>
      .begun 0 (by decide) (.inl rfl) ⟨(by rintro _ ⟨⟩), fun _ _ => rfl⟩⟩
  have tracked := Startup.Tracked.of_run run
  have released : s.globals.result = false ∧ s.globals.addrinfo = false := by
    cases tracked.controlled.standing alive with
    | main _ calm _ quiet =>
      obtain ⟨releases, _⟩ := (tracked.accounted quiet alive).calm calm
      obtain ⟨rest, code⟩ : ∃ rest, s.code = .serve :: rest := List.head?_eq_some_iff.mp here
      rw [code] at releases
      exact releases.1
    | entering a c older frames' | winding a c older frames' | trapped a b w x _ frames' =>
      rw [frames] at frames'
      cases frames'
  obtain ⟨fd, ⟨mode, socket⟩ | ⟨above, socket, redirected⟩⟩ := (arrives.reached frames).serve here
  · exact ⟨fd,
      { sockFd := socket.sockFd
        listening := socket.socket
        new := socket.new
        released := released
        log := socket.log
        others := fun n _ => socket.files n
        foreground := fun _ n _ => socket.files n
        daemon := fun daemon => by
          rw [mode] at daemon
          cases daemon }⟩
  · exact ⟨fd,
      { sockFd := socket.sockFd
        listening := socket.socket above
        new := socket.new
        released := released
        log := socket.log
        others := socket.files
        foreground := fun foreground => by
          rw [socket.mode] at foreground
          cases foreground
        daemon := fun _ => ⟨above, redirected⟩ }⟩

def startDaemon : List StartAction :=
  [.ret 0, .quiet, .options ['d'], .quiet, .quiet, .fd (some 3), .quiet, .fd (some 3),
    .addrinfo 0 true, .quiet, .fd (some 4), .ret 0, .ret 0, .quiet, .quiet, .quiet, .quiet, .ret 0,
    .ret 7, .ret 0, .quiet, .quiet, .quiet, .fd (some 0), .ret 0, .ret 1, .ret 2, .quiet,
    .ret 0].map .run

theorem serving_ready_daemon : ∃ s events,
    Transition.execute Startup.step startDaemon (.initial standard) = some (s, events) ∧
      ∃ fd, s.Ready standard fd := by
  have runs : (Transition.execute Startup.step startDaemon (.initial standard)).map
      (fun last => decide (last.1.ended = none ∧ last.1.frames = [] ∧
        last.1.code.head? = some .serve)) = some true := by
    decide +kernel
  obtain ⟨⟨s, events⟩, run, there⟩ := Option.map_eq_some_iff.mp runs
  obtain ⟨alive, frames, here⟩ := of_decide_eq_true there
  refine ⟨s, events, run, serving_ready run ?_ alive frames here⟩
  intro action member
  obtain ⟨answer, _, rfl⟩ := List.mem_map.mp member
  trivial

end Results

end Aesd
