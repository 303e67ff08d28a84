import Aesd.Library.Numeral
import Aesd.ReceiveLoop
import Aesd.Requests

/-! What a seek request sends to the device. The handler does not look at how many numbers
`sscanf` found: a missing one is what the stack held, and a number at the end of the received
bytes goes on in what an earlier `recv` left in the buffer. -/
namespace Aesd

variable {id fd : Nat} {answer : Answer} {action : Action} {h h' : Handler}
  {shared shared' : Shared} {event : Event} {s s' : Server} {log : List Event}
  {text more tail bytes : List Byte} {X Y value : Int} {seekto stack : Seekto} {j : Journal}
  {history : List (List Byte)}

def ascii : Numeral.Alphabet Byte where
  space := isSpace
  digit := isDigit
  weight d := d.toNat - 48
  plus := 43
  minus := 45

/-- Two numbers with a comma between them, and a tail that does not go on with digits. -/
def Asks (text : List Byte) (writeCmd writeCmdOffset : Int) (tail : List Byte) : Prop :=
  ∃ first second, text = first ++ 44 :: (second ++ tail) ∧ ascii.Denotes first writeCmd ∧
    ascii.Denotes second writeCmdOffset ∧ ∀ b, tail.head? = some b → isDigit b = false

/-- What the last `recv` of the handler `id` returned; a new handler has received nothing. -/
def Event.latest (id : Nat) (last : Option (List Byte)) : Event → Option (List Byte)
  | .accepted other _ => if other = id then none else last
  | .received other bytes _ => if other = id then bytes else last
  | _ => last

def lastReceived (id : Nat) (events : List Event) : Option (List Byte) :=
  events.foldl (Event.latest id) none

/-- In some run of the server, a handler issues the seek for the bytes of its last `recv`. -/
def Issues (bytes : List Byte) (seekto : Seekto) : Prop :=
  ∃ actions s log id fd,
    Transition.execute Server.step actions .initial = some (s, log ++ [.sought id fd seekto]) ∧
      lastReceived id log = some bytes

/-- In every run, the device gets for these bytes the numbers of the request in them and no
others, and no seek without a request. `form` is what else the text of a request has to be. -/
structure SeekDetermined (form : List Byte → Prop) (bytes : List Byte) : Prop where
  request : ∀ seekto, Issues bytes seekto → form (bytes.drop ioctlStr.length) ∧ ∃ tail,
    Asks (bytes.drop ioctlStr.length) seekto.writeCmd.toNat seekto.writeCmdOffset.toNat tail
  same : ∀ seekto seekto', Issues bytes seekto → Issues bytes seekto' → seekto = seekto'

def Complete (text : List Byte) : Prop :=
  ∃ (writeCmd writeCmdOffset : Nat) (tail : List Byte), writeCmd < 2 ^ 32 ∧
    writeCmdOffset < 2 ^ 32 ∧ tail ≠ [] ∧ Asks text writeCmd writeCmdOffset tail

theorem digit_apart {d : Byte} (digit : isDigit d = true) :
    isSpace d = false ∧ d ≠ 45 ∧ d ≠ 43 ∧ d ≠ 0 := by
  simp only [isDigit] at digit
  simp only [isSpace]
  grind

theorem scanSign_digit {d : Byte} (digit : isDigit d = true) (rest : List Byte) :
    scanSign (d :: rest) = (false, d :: rest) := by
  obtain ⟨_, minus, plus, _⟩ := digit_apart digit
  unfold scanSign
  split
  · rename_i same
    cases same
    exact absurd rfl minus
  · rename_i same
    cases same
    exact absurd rfl plus
  · rfl

theorem scanInt_denotes (denotes : ascii.Denotes text value) (above : -2 ^ 63 ≤ value)
    (below : value < 2 ^ 63) (stop : ∀ b, more.head? = some b → isDigit b = false) :
    scanInt (text ++ more) = some (value, more) := by
  obtain ⟨space, sign, digits, rfl, reads⟩ := denotes
  have taken : (digits ++ more).takeWhile isDigit = digits :=
    Numeral.takeWhile_munch reads.decimal stop
  have left : (digits ++ more).dropWhile isDigit = more :=
    Numeral.dropWhile_munch reads.decimal stop
  have unspaced : ∀ tail, (∀ b, tail.head? = some b → isSpace b = false) →
      (space ++ tail).dropWhile isSpace = tail :=
    fun _ => Numeral.dropWhile_munch (p := isSpace) reads.blank
  have signed : ∃ negative, scanSign ((space ++ (sign ++ (digits ++ more))).dropWhile isSpace) =
      (negative, digits ++ more) ∧ value = longValue negative digits := by
    rcases reads.signed with ⟨rfl | rfl, rfl⟩ | ⟨rfl, rfl⟩
    · obtain ⟨d, rest, rfl⟩ := List.exists_cons_of_ne_nil reads.nonempty
      have digit : isDigit d = true := reads.decimal d List.mem_cons_self
      refine ⟨false, ?_, (min_eq_right (Int.le_sub_one_of_lt below)).symm⟩
      rw [List.nil_append, unspaced]
      · exact scanSign_digit digit _
      · rintro b ⟨⟩
        exact (digit_apart digit).1
    · refine ⟨false, ?_, (min_eq_right (Int.le_sub_one_of_lt below)).symm⟩
      rw [unspaced]
      · rfl
      · rintro b ⟨⟩
        rfl
    · refine ⟨true, ?_, (max_eq_right above).symm⟩
      rw [unspaced]
      · rfl
      · rintro b ⟨⟩
        rfl
  obtain ⟨negative, scanned, rfl⟩ := signed
  rw [List.append_assoc, List.append_assoc]
  refine scanInt_eq_some_iff.mpr ⟨negative, digits ++ more, scanned, ?_, ?_, left.symm⟩
  · rw [taken]
    exact reads.nonempty
  · rw [taken]

/-- A further digit makes the second number another one. -/
theorem Asks.snoc (asks : Asks text X Y []) :
    ∃ unit : Int, (unit = 1 ∨ unit = -1) ∧ ∀ d, isDigit d = true →
      Asks (text ++ [d]) X (10 * Y + unit * ascii.weight d) [] := by
  obtain ⟨first, second, rfl, command, offset, _⟩ := asks
  obtain ⟨unit, sign, longer⟩ := offset.snoc
  refine ⟨unit, sign, fun d digit => ⟨first, second ++ [d], by simp, command, longer d digit, ?_⟩⟩
  intro b none
  cases none

theorem head_cString {b : Byte} (head : (cString text).head? = some b) : text.head? = some b := by
  cases text with
  | nil => cases head
  | cons c text =>
    simp only [cString, List.takeWhile_cons] at head
    split at head
    · exact head
    · cases head

theorem cString_append (nonzero : ∀ b ∈ text, b ≠ 0) (more : List Byte) :
    cString (text ++ more) = text ++ cString more :=
  List.takeWhile_append_of_pos fun b member => decide_eq_true (nonzero b member)

theorem nonzero_denotes (denotes : ascii.Denotes text value) : ∀ b ∈ text, b ≠ 0 := by
  apply denotes.all (P := fun b => b ≠ 0)
  · rintro b space rfl
    cases space
  · exact fun b digit => (digit_apart digit).2.2.2
  · exact Ne.symm (by decide)
  · exact Ne.symm (by decide)

/-- What a seek request asks for is what `sscanf` finds, if the memory after the received bytes
does not go on with digits either. -/
theorem sscanf_asks (starts : isSeek bytes = true) (asks : Asks (bytes.drop ioctlStr.length) X Y tail)
    (command : -2 ^ 63 ≤ X ∧ X < 2 ^ 63) (offset : -2 ^ 63 ≤ Y ∧ Y < 2 ^ 63)
    (stop : ∀ b, (tail ++ more).head? = some b → isDigit b = false) (stack : Seekto) :
    sscanfSeekto (cString (bytes ++ more)) stack = ⟨storeInt X, storeInt Y⟩ := by
  obtain ⟨first, second, arguments, denotes, denotes', _⟩ := asks
  have whole : bytes = ioctlStr ++ (first ++ 44 :: second) ++ tail := by
    have start : bytes.take ioctlStr.length = ioctlStr := by simpa [isSeek] using starts
    rw [← List.take_append_drop ioctlStr.length bytes, start, arguments]
    simp
  have nonzero : ∀ b ∈ ioctlStr ++ (first ++ 44 :: second), b ≠ 0 := by
    simp only [List.forall_mem_append, List.forall_mem_cons]
    exact ⟨by decide +kernel, nonzero_denotes denotes, by decide, nonzero_denotes denotes'⟩
  have string : cString (bytes ++ more) =
      ioctlStr ++ (first ++ 44 :: (second ++ cString (tail ++ more))) := by
    rw [whole, List.append_assoc, cString_append nonzero]
    simp
  have first : scanInt (first ++ 44 :: (second ++ cString (tail ++ more))) =
      some (X, 44 :: (second ++ cString (tail ++ more))) := by
    apply scanInt_denotes denotes command.1 command.2
    rintro b ⟨⟩
    rfl
  have second : scanInt (second ++ cString (tail ++ more)) = some (Y, cString (tail ++ more)) :=
    scanInt_denotes denotes' offset.1 offset.2 fun b head => stop b (head_cString head)
  apply sscanfSeekto_request
  have seeks : isSeek (cString (bytes ++ more)) = true := by
    simp [string, isSeek]
  rw [seekRequest, if_pos seeks, string, List.drop_left]
  simp only [first, second, Option.map_some]

theorem storeInt_toNat {n : Nat} (small : n < 2 ^ 32) : (storeInt n).toNat = n := by
  have same : ((n : Int) % 2 ^ 32).toNat = n := by omega
  rw [storeInt, same]
  exact UInt32.toNat_ofNat_of_lt' small

theorem storeInt_inj (same : storeInt X = storeInt Y) : X % 2 ^ 32 = Y % 2 ^ 32 := by
  have equal := congrArg UInt32.toNat same
  simp only [storeInt, UInt32.toNat_ofNat'] at equal
  omega

@[simp] theorem lastReceived_snoc :
    lastReceived id (log ++ [event]) = event.latest id (lastReceived id log) := by
  simp [lastReceived]

/-- A seek request was scanned from the last result of `recv` and from what is not in it: the
memory after it, and what the stack held. -/
def Parsed (id : Nat) (h : Handler) (log : List Event) : Prop :=
  ∀ bytes, lastReceived id log = some bytes → isSeek bytes = true →
    ∃ more stack, h.seekto = sscanfSeekto (cString (bytes ++ more)) stack

theorem Advance.latest_other {other : Nat} (step : Advance id h shared answer h' shared' event)
    (different : other ≠ id) (last : Option (List Byte)) : event.latest other last = last := by
  cases step <;> simp [Event.latest, different.symm]

theorem Advance.parsed (step : Advance id h shared answer h' shared' event)
    (parsed : Parsed id h log) : Parsed id h' (log ++ [event]) := by
  intro bytes last starts
  rw [lastReceived_snoc] at last
  cases step with
  | recvFailed stack beyond here => simp [Event.latest] at last
  | recv received stack beyond here fits =>
    obtain rfl : received = bytes := by simpa [Event.latest] using last
    have seeks : isSeek (overlay h.receiveBuffer received) = true := (isSeek_append starts _).1
    refine ⟨h.receiveBuffer.drop received.length ++ beyond, stack, ?_⟩
    have scanned : (h.receive received stack beyond).seekto =
        sscanfSeekto (cString (overlay h.receiveBuffer received ++ beyond)) stack := if_pos seeks
    rw [scanned, overlay, List.append_assoc]
  | _ => exact parsed bytes last starts

theorem step_parsed (parsed : ∀ id, Parsed id (s.handler id) log)
    (result : Server.step action s = some (s', event)) :
    ∀ id, Parsed id (s'.handler id) (log ++ [event]) := by
  rcases step_cases result with ⟨id, fd, _, _, _, rfl, rfl⟩ | ⟨id, answer, h', shared, _, step, rfl⟩
  · refine update_all (P := fun other h => Parsed other h (log ++ [.accepted id fd])) ?_ ?_
    · intro bytes last
      simp [Event.latest] at last
    · intro other different bytes last
      rw [lastReceived_snoc, Event.latest, if_neg different.symm] at last
      exact parsed other bytes last
  · refine update_all (P := fun other h => Parsed other h (log ++ [event]))
      (step.parsed (parsed id)) ?_
    intro other different bytes last
    rw [lastReceived_snoc, step.latest_other different] at last
    exact parsed other bytes last

theorem Issues.parsed (issues : Issues bytes seekto) (starts : isSeek bytes = true) :
    ∃ more stack, seekto = sscanfSeekto (cString (bytes ++ more)) stack := by
  obtain ⟨actions, s, log, id, fd, run, last⟩ := issues
  obtain ⟨before, action, middle, front, one⟩ := Transition.execute_last run
  have parsed : ∀ id, Parsed id (middle.handler id) log := by
    refine Transition.execute_history (fun s log => ∀ id, Parsed id (s.handler id) log) ?_ front ?_
    · exact fun _ _ _ _ _ parsed result => step_parsed parsed result
    · rintro id bytes ⟨⟩
  rcases step_cases one with ⟨_, _, _, _, _, _, other⟩ | ⟨_, _, _, _, _, step, _⟩
  · cases other
  · cases step with
    | ioctl env fd here call => exact parsed id bytes last starts

def Reaches (id : Nat) (h : Handler) (shared : Shared) (log : List Event) : Prop :=
  ∃ actions s, Transition.execute Server.step actions .initial = some (s, log) ∧
    s.handler id = h ∧ s.shared = shared

theorem Reaches.step (reaches : Reaches id h shared log)
    (step : Advance id h shared answer h' shared' event) :
    Reaches id h' shared' (log ++ [event]) := by
  obtain ⟨actions, s, run, rfl, rfl⟩ := reaches
  refine ⟨actions ++ [.run id answer], s.update id h' shared', ?_, update_handler .., rfl⟩
  exact Transition.execute_snoc_iff.mpr ⟨s, run, step.served⟩

theorem reaches_fresh : Reaches 0 (.fresh 4) soleServer.shared [.accepted 0 4] :=
  ⟨[.accept 0 4], soleServer, rfl, rfl, rfl⟩

theorem Reaches.opens {phase : Phase} (reaches : Reaches id h shared log) (here : h.pc = .recv)
    (free : shared.files fd = none) (fits : bytes.length ≤ bufLen)
    (routed : (h.receive bytes stack []).pc = .opening phase) :
    ∃ log', lastReceived id log' = some bytes ∧
      Reaches id { h.receive bytes stack [] with pc := .check phase }
        { shared with
          files := setFile shared.files fd (some (.data 0 phase.writable))
          dataFileDescriptor := some fd } log' := by
  have received := reaches.step (.recv bytes stack [] here fits)
  have opened := received.step (.opened phase fd routed free)
  refine ⟨_, ?_, opened.step (.assign phase (some fd) rfl)⟩
  rw [lastReceived_snoc, lastReceived_snoc, lastReceived_snoc]
  exact if_pos rfl

theorem Reaches.seek (reaches : Reaches id h shared log) (here : h.pc = .recv)
    (models : Models shared.kernel j) (free : shared.files fd = none) (fits : bytes.length ≤ bufLen)
    (starts : isSeek bytes = true) (stack : Seekto) :
    Issues bytes (sscanfSeekto (cString (bytes ++ h.receiveBuffer.drop bytes.length)) stack) := by
  have seeks : isSeek (overlay h.receiveBuffer bytes) = true := (isSeek_append starts _).1
  have routed : (h.receive bytes stack []).pc = .opening .seek := by simp [Handler.receive, seeks]
  have scanned : (h.receive bytes stack []).seekto =
      sscanfSeekto (cString (bytes ++ h.receiveBuffer.drop bytes.length)) stack := by
    rw [← overlay, ← List.append_nil (overlay _ _)]
    exact if_pos seeks
  rw [← scanned]
  obtain ⟨log', last, opened⟩ := reaches.opens here free fits routed
  generalize h.receive bytes stack [] = h' at opened
  have loaded : Reaches id { h' with pc := .use .ioctl (some fd) }
      { shared with
        files := setFile shared.files fd (some (.data 0 true))
        dataFileDescriptor := some fd } (log' ++ [.checked id] ++ [.loaded id (some fd)]) :=
    (opened.step (.check .seek rfl)).step (.load .ioctl rfl)
  obtain ⟨after, call⟩ := Shared.ioctl_total (s := { shared with
    files := setFile shared.files fd (some (.data 0 true)), dataFileDescriptor := some fd }) models
    (some fd) h'.seekto
  obtain ⟨actions, s, run, _⟩ := loaded.step (.ioctl .success (some fd) rfl call)
  refine ⟨actions, s, _, id, some fd, run, ?_⟩
  rw [lastReceived_snoc, lastReceived_snoc]
  exact last

theorem Reaches.data (reaches : Reaches id h shared log) (here : h.pc = .recv)
    (models : Models shared.kernel ⟨history, .held []⟩) (free : shared.files fd = none)
    (unlocked : shared.lock = none) (fits : bytes.length ≤ bufLen)
    (plain : isSeek (overlay h.receiveBuffer bytes) = false) (inside : newline ∉ bytes) :
    ∃ h' shared' log' j, Reaches id h' shared' log' ∧ h'.pc = .recv ∧
      h'.receiveBuffer = overlay h.receiveBuffer bytes ∧ Models shared'.kernel j ∧
      shared'.files fd = none := by
  have routed : (h.receive bytes ⟨0, 0⟩ []).pc = .opening .data := by
    simp [Handler.receive, plain]
  have chunk := receive_chunk h bytes ⟨0, 0⟩ []
  have buffer : (h.receive bytes ⟨0, 0⟩ []).receiveBuffer = overlay h.receiveBuffer bytes := rfl
  obtain ⟨log', _, opened⟩ := reaches.opens here free fits routed
  generalize h.receive bytes ⟨0, 0⟩ [] = h' at opened chunk buffer
  let working : Shared := { shared with
    files := setFile shared.files fd (some (.data 0 true))
    dataFileDescriptor := some fd
    lock := some id }
  have loaded : Reaches id { h' with pc := .use .write (some fd) } working _ :=
    ((opened.step (.check .data rfl)).step (.lock .data rfl unlocked)).step (.load .write rfl)
  have small : h'.chunk.length ≤ kmallocMax := by
    rw [chunk]
    exact Nat.le_trans fits (by decide)
  obtain ⟨after, call⟩ := Shared.write_total (s := working) models (setFile_same _ _ _)
    (models.succeeds small)
  have write : Advance id { h' with pc := .use .write (some fd) } working _ _ after _ :=
    .write .success false (some fd) true rfl call
  have closing : Reaches id { h' with pc := .use .closeData after.dataFileDescriptor }
      { after with lock := none } _ :=
    ((loaded.step write).step (.unlock .data rfl)).step (.load .closeData rfl)
  obtain ⟨j, device⟩ := write.device models
  refine ⟨_, _, _, j, closing.step (.closeData _ rfl), ?_, buffer, ?_, ?_⟩
  · exact (nextIteration_recv _).mpr (chunk ▸ inside)
  · rwa [Shared.close_kernel]
  · have known : after.dataFileDescriptor = some fd := (Shared.write_frame call).dataFileDescriptor
    rw [known]
    exact setFile_same _ _ _

/-- A digit that an earlier `recv` left in the buffer goes on from where the bytes end. -/
theorem issues_stale {d : Byte} (short : bytes.length < bufLen) (starts : isSeek bytes = true)
    (digit : isDigit d = true) (asks : Asks (bytes.drop ioctlStr.length ++ [d]) X Y [])
    (command : -2 ^ 63 ≤ X ∧ X < 2 ^ 63) (offset : -2 ^ 63 ≤ Y ∧ Y < 2 ^ 63) :
    Issues bytes ⟨storeInt X, storeInt Y⟩ := by
  have free : soleServer.shared.files 6 = none := rfl
  have plain : isSeek (overlay emptyBuffer (List.replicate (bytes.length + 1) d)) = false := by
    rw [Bool.eq_false_iff]
    intro seek
    have head : some d = ioctlStr.head? := congrArg List.head? (beq_iff_eq.mp seek)
    cases head
    cases digit
  have inside : newline ∉ List.replicate (bytes.length + 1) d := by
    intro member
    cases List.eq_of_mem_replicate member
    cases digit
  have fits : (List.replicate (bytes.length + 1) d).length ≤ bufLen := by
    rwa [List.length_replicate]
  obtain ⟨h, shared, log, j, reaches, here, buffer, models, free⟩ :=
    reaches_fresh.data rfl aesdInitModule_models free rfl fits plain inside
  have left : h.receiveBuffer.drop bytes.length = d :: emptyBuffer.drop (bytes.length + 1) := by
    have laid : h.receiveBuffer =
        List.replicate bytes.length d ++ d :: emptyBuffer.drop (bytes.length + 1) := by
      rw [buffer, overlay, List.length_replicate, List.replicate_succ', List.append_assoc]
      rfl
    rw [laid]
    exact List.drop_left' List.length_replicate
  have issued := reaches.seek here models free (Nat.le_of_lt short) starts ⟨0, 0⟩
  obtain ⟨starts', arguments⟩ := isSeek_append starts [d]
  rw [← arguments] at asks
  rw [left, List.append_cons, sscanf_asks starts' asks command offset] at issued
  · exact issued
  · intro b head
    have zero : b ∈ emptyBuffer := List.mem_of_mem_drop (List.mem_of_mem_head? head)
    cases List.eq_of_mem_replicate zero
    rfl

/-- When the second number ends with the bytes, what was received earlier decides on the seek. -/
theorem Asks.ambiguous (asks : Asks (bytes.drop ioctlStr.length) X Y [])
    (short : bytes.length < bufLen) (starts : isSeek bytes = true) (command : 0 ≤ X ∧ X < 2 ^ 32)
    (offset : 0 ≤ Y ∧ Y < 2 ^ 32) :
    ∃ seekto seekto', Issues bytes seekto ∧ Issues bytes seekto' ∧ seekto ≠ seekto' := by
  obtain ⟨unit, sign, longer⟩ := asks.snoc
  have bounds : ∀ digit : Int, 0 ≤ digit → digit ≤ 9 →
      -2 ^ 63 ≤ 10 * Y + unit * digit ∧ 10 * Y + unit * digit < 2 ^ 63 := by
    intro digit low high
    rcases sign with rfl | rfl <;> omega
  have one := issues_stale short starts (d := 49) rfl (longer 49 rfl) (by omega)
    (bounds 1 (by decide) (by decide))
  have two := issues_stale short starts (d := 50) rfl (longer 50 rfl) (by omega)
    (bounds 2 (by decide) (by decide))
  refine ⟨_, _, one, two, fun equal => ?_⟩
  have same := storeInt_inj (congrArg Seekto.writeCmdOffset equal)
  have weights : ascii.weight 49 = 1 ∧ ascii.weight 50 = 2 := ⟨rfl, rfl⟩
  rw [weights.1, weights.2] at same
  rcases sign with rfl | rfl <;> omega

/-- A further byte after the second number keeps all else out of the seek. -/
theorem Issues.asked (issues : Issues bytes seekto) (starts : isSeek bytes = true)
    (asks : Asks (bytes.drop ioctlStr.length) X Y tail) (nonempty : tail ≠ [])
    (command : 0 ≤ X ∧ X < 2 ^ 32) (offset : 0 ≤ Y ∧ Y < 2 ^ 32) :
    seekto = ⟨storeInt X, storeInt Y⟩ := by
  obtain ⟨more, stack, rfl⟩ := issues.parsed starts
  apply sscanf_asks starts asks (by omega) (by omega)
  obtain ⟨first, rest, rfl⟩ := List.exists_cons_of_ne_nil nonempty
  obtain ⟨_, _, _, _, _, stop⟩ := asks
  exact stop

/-- The seek for a seek request is determined exactly when both numbers fit their targets and
a further byte was received after them. -/
theorem seek_determined_iff {form : List Byte → Prop} (short : bytes.length < bufLen)
    (starts : isSeek bytes = true) : SeekDetermined form bytes ↔
      form (bytes.drop ioctlStr.length) ∧ Complete (bytes.drop ioctlStr.length) := by
  constructor
  · intro determined
    have free : soleServer.shared.files 6 = none := rfl
    have issued :=
      reaches_fresh.seek rfl aesdInitModule_models free (Nat.le_of_lt short) starts ⟨0, 0⟩
    obtain ⟨formed, tail, asks⟩ := determined.request _ issued
    generalize sscanfSeekto _ _ = seekto at asks
    have command := UInt32.toNat_lt seekto.writeCmd
    have offset := UInt32.toNat_lt seekto.writeCmdOffset
    refine ⟨formed, _, _, tail, command, offset, ?_, asks⟩
    rintro rfl
    obtain ⟨_, _, one, two, different⟩ := asks.ambiguous short starts (by omega) (by omega)
    exact different (determined.same _ _ one two)
  · rintro ⟨formed, command, offset, tail, small, small', nonempty, asks⟩
    have determined : ∀ seekto, Issues bytes seekto →
        seekto = ⟨storeInt command, storeInt offset⟩ :=
      fun seekto issues => issues.asked starts asks nonempty (by omega) (by omega)
    constructor
    · intro seekto issues
      rw [determined seekto issues, storeInt_toNat small, storeInt_toNat small']
      exact ⟨formed, tail, asks⟩
    · intro seekto seekto' issues issues'
      rw [determined seekto issues, determined seekto' issues']

theorem seekLine_determined : SeekDetermined Ends seekLine := by
  apply (seek_determined_iff (by decide) (by decide)).mpr
  have digits : ∀ c ∈ [48], ascii.digit c = true := List.forall_mem_singleton.mpr rfl
  have zero : ascii.Denotes [48] 0 :=
    ⟨[], [], [48], rfl, by simp, by simp, digits, .inl ⟨.inl rfl, rfl⟩⟩
  refine ⟨⟨[48, 44, 48], rfl⟩, 0, 0, [newline], by decide, by decide, by decide, [48], [48], rfl, zero,
    zero, ?_⟩
  rintro b ⟨⟩
  rfl

def bareSeek : List Byte := ioctlStr ++ [newline]

theorem bareSeek_keeps (stack : Seekto) : Issues bareSeek stack := by
  have free : soleServer.shared.files 6 = none := rfl
  exact reaches_fresh.seek rfl aesdInitModule_models free (by decide) (by decide) stack

/-- Without numbers, the device gets what the stack held. -/
theorem seek_undetermined : bareSeek.length < bufLen ∧ isSeek bareSeek = true ∧
    Issues bareSeek ⟨5, 7⟩ ∧ Issues bareSeek ⟨6, 8⟩ ∧
    ¬SeekDetermined (fun _ => True) bareSeek := by
  refine ⟨by decide, by decide, bareSeek_keeps ⟨5, 7⟩, bareSeek_keeps ⟨6, 8⟩, ?_⟩
  intro determined
  cases determined.same _ _ (bareSeek_keeps ⟨5, 7⟩) (bareSeek_keeps ⟨6, 8⟩)

end Aesd
