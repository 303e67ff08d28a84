import Aesd.Drain
import Aesd.Progress

/-! The reply of a thread that runs by itself and to which no call fails: it opens the data
file, reads and sends piece by piece what the device holds, and ends after finitely many
steps. -/
namespace Aesd

variable {id fd n p rank : Nat} {answer : Answer} {answers : List Answer} {h h' : Handler}
  {s s' : Shared} {event : Event} {log events : List Event} {j : Journal} {content sent : List Byte}

def Event.sentBytes : Event → List Byte
  | .sent _ bytes (some count) => bytes.take count
  | _ => []

def sentOf (events : List Event) : List Byte := events.flatMap Event.sentBytes

@[simp] theorem sentOf_snoc : sentOf (log ++ [event]) = sentOf log ++ event.sentBytes := by
  simp [sentOf]

def Pc.replying : Pc → Bool
  | .opening .reply | .assign .reply _ | .check .reply | .lock .reply | .load .read | .use .read _
  | .unlock .reply | .send => true
  | _ => false

def Pc.leaving : Pc → Bool
  | .closeSocket | .complete | .load .closeEnd | .use .closeEnd _ | .returned true => true
  | _ => false

/-- The steps from here to the next `read` and over it, when one follows. -/
def Pc.distance : Pc → Nat
  | .opening _ => 8
  | .assign _ _ | .unlock _ => 7
  | .check _ | .send => 6
  | .lock _ => 5
  | .load _ => 4
  | .use _ _ => 3
  | _ => 0

def Pc.At (pc : Pc) (s : Shared) (p : Nat) : Prop :=
  ∃ n writable, pc.current s.dataFileDescriptor = some n ∧ s.files n = some (.data p writable)

/-- Between two sends, at position `p`: what was sent is the content up to there. `rank` bounds
the steps to come. -/
structure Reading (content : List Byte) (pc : Pc) (s : Shared) (sent : List Byte) (rank p : Nat) :
    Prop where
  position : pc.At s p
  inside : p ≤ content.length
  progress : sent = content.take p
  rank : rank = 5 * (content.length - p) + pc.distance

/-- Between a `read` and the `send` of what it delivered. -/
structure Sending (content : List Byte) (h : Handler) (s : Shared) (sent : List Byte)
    (rank p : Nat) : Prop where
  position : h.pc.At s p
  inside : p ≤ content.length
  progress : sent ++ h.sendBuffer.take h.bytesFromFile = content.take p
  ended : h.bytesFromFile = 0 → p = content.length
  rank : rank = if h.bytesFromFile = 0 then h.pc.distance - 5
    else 5 * (content.length - p) + h.pc.distance

/-- The thread is replying with `content` and has sent `sent`. -/
def Replying (content : List Byte) (h : Handler) (s : Shared) (sent : List Byte) (rank : Nat) :
    Prop :=
  match h.pc with
  | .opening .reply => sent = [] ∧ rank = 5 * content.length + 8
  | .assign .reply _ | .check .reply | .lock .reply | .load .read | .use .read _ =>
    ∃ p, Reading content h.pc s sent rank p
  | .unlock .reply | .send => ∃ p, Sending content h s sent rank p
  | _ => False

theorem Shared.read_piece (models : Models s.kernel j) {env : ReadEnv} {socket : Option (List Byte)}
    {bytes : List Byte} {writable : Bool} (file : s.files n = some (.data (p : Nat) writable))
    (width : p < 2 ^ 64) (call : s.read env socket (some n) = some (some bytes, s')) :
    s'.files n = some (.data ((p + bytes.length : Nat)) writable) ∧ bytes <+: j.content.drop p ∧
      (bytes = [] → j.content.length ≤ p) := by
  obtain ⟨r, result, ret, fpos, same, _⟩ := aesdRead_refines models env true true bufLen p
  simp only [Shared.read, lookup_of_file file, result, Option.map_some, Option.some.injEq,
    Prod.mk.injEq, Shared.returned] at call
  obtain ⟨delivered, rfl⟩ := call
  simp only [setFile_same]
  rcases j.read_cases env true true bufLen p width with ⟨value, negative, outcome⟩ |
    ⟨beyond, outcome⟩ | ⟨piece, nonempty, _, next, outcome⟩
  · have failed : ¬0 ≤ r.ret := by
      rw [ret, outcome]
      exact Int.not_le.mpr negative
    simp [failed] at delivered
  · have fine : 0 ≤ r.ret := by rw [ret, outcome]
    have nothing : bytes = [] := by
      simpa [fine, same, outcome] using delivered.symm
    rw [fpos, outcome, nothing]
    exact ⟨rfl, List.nil_prefix, fun _ => beyond⟩
  · have fine : 0 ≤ r.ret := by
      rw [ret, outcome]
      exact Int.natCast_nonneg _
    have all : bytes = piece := by
      simpa [fine, same, outcome] using delivered.symm
    rw [fpos, outcome, all]
    exact ⟨by simp, next, fun empty => absurd empty (nonempty (by decide))⟩

theorem Pc.At.keep {pc pc' : Pc} (position : pc.At s p)
    (current : pc'.current s'.dataFileDescriptor = pc.current s.dataFileDescriptor)
    (files : s'.files = s.files) : pc'.At s' p := by
  obtain ⟨n, writable, mine, file⟩ := position
  exact ⟨n, writable, current.trans mine, by rw [files]; exact file⟩

theorem Reading.move {pc : Pc} (reading : Reading content pc s sent rank p)
    (position : h'.pc.At s' p) (closer : h'.pc.distance < pc.distance) (nothing : event.sentBytes = [])
    (stage : ∀ rank', Reading content h'.pc s' sent rank' p → Replying content h' s' sent rank') :
    ∃ rank' < rank, Replying content h' s' (sent ++ event.sentBytes) rank' := by
  refine ⟨5 * (content.length - p) + h'.pc.distance, ?_, ?_⟩
  · rw [reading.rank]
    omega
  · rw [nothing, List.append_nil]
    exact stage _ ⟨position, reading.inside, reading.progress, rfl⟩

theorem take_next {bytes : List Byte} (next : bytes <+: content.drop p) :
    content.take (p + bytes.length) = content.take p ++ bytes := by
  rw [List.take_add, List.prefix_iff_eq_take.mp next]
  simp

theorem Reading.read {env : ReadEnv} {socket : Option (List Byte)} {cur : Option Nat}
    {bytes : List Byte} (reading : Reading j.content (.use .read cur) s sent rank p)
    (models : Models s.kernel j) (loaded : s.dataFileDescriptor = cur)
    (call : s.read env socket cur = some (some bytes, s')) :
    ∃ rank' < rank, Replying j.content
      { h with
        pc := .unlock .reply
        sendBuffer := overlay h.sendBuffer bytes
        bytesFromFile := bytes.length } s' sent rank' := by
  obtain ⟨n, writable, mine, file⟩ := reading.position
  have given : cur = some n := mine
  subst given
  have small := models.content_lt
  have inside := reading.inside
  obtain ⟨file', next, ended⟩ := Shared.read_piece models file (by omega) call
  have frame := (Shared.read_frame call).1
  have fits := next.length_le
  rw [List.length_drop] at fits
  refine ⟨_, ?_, p + bytes.length, ⟨n, writable, frame.dataFileDescriptor.trans loaded, file'⟩,
    by omega, ?_, ?_, rfl⟩
  · rw [reading.rank]
    simp only [Pc.distance]
    split <;> omega
  · rw [take_next next, ← reading.progress]
    simp [overlay]
  · intro nothing
    have beyond := ended (List.eq_nil_of_length_eq_zero nothing)
    omega

theorem Sending.send {count : Nat} (sending : Sending content h s sent rank p)
    (here : h.pc = .send) (healthy : (Event.sent id (h.sendBuffer.take h.bytesFromFile)
      (some count)).healthy = true) :
    (∃ rank' < rank, Replying content
      { h with pc := if 0 < h.bytesFromFile then .lock .reply else .closeSocket } s
      (sent ++ (h.sendBuffer.take h.bytesFromFile).take count) rank') ∨
      ((if 0 < h.bytesFromFile then Pc.lock .reply else .closeSocket).leaving = true ∧
        sent ++ (h.sendBuffer.take h.bytesFromFile).take count = content) := by
  have all : (h.sendBuffer.take h.bytesFromFile).take count = h.sendBuffer.take h.bytesFromFile := by
    have full : count = (h.sendBuffer.take h.bytesFromFile).length := by
      simpa [Event.healthy] using healthy
    rw [full, List.take_length]
  have rank := sending.rank
  rw [all, sending.progress]
  by_cases more : 0 < h.bytesFromFile
  · left
    simp only [if_pos more]
    refine ⟨5 * (content.length - p) + 5, ?_, p, ?_, sending.inside, rfl, rfl⟩
    · rw [rank, if_neg (by omega), here]
      exact Nat.lt_succ_self _
    · exact sending.position.keep (by rw [here]; rfl) rfl
  · right
    rw [if_neg more, sending.ended (by omega), List.take_length]
    exact ⟨rfl, rfl⟩

theorem Replying.step (replying : Replying content h s sent rank) (models : Models s.kernel j)
    (same : content = j.content) (loaded : ∀ cur, h.pc = .use .read cur → s.dataFileDescriptor = cur)
    (step : Advance id h s answer h' s' event) (healthy : event.healthy = true) :
    (∃ rank' < rank, Replying content h' s' (sent ++ event.sentBytes) rank') ∨
      (h'.pc.leaving = true ∧ sent ++ event.sentBytes = content) := by
  cases step with
  | recvFailed stack beyond here | recv bytes stack beyond here fits | ioctl env cur here call
  | write env socket cur ok here call | closeData cur here | closeEnd cur here | closeSocket here
  | complete here =>
    simp only [Replying, here] at replying
  | openFailed phase here | readFailed env socket cur here call | sendFailed here => cases healthy
  | opened phase m here free =>
    cases phase with
    | seek | data => simp only [Replying, here] at replying
    | reply =>
      simp only [Replying, here] at replying
      obtain ⟨rfl, rfl⟩ := replying
      exact .inl ⟨5 * content.length + 7, Nat.lt_succ_self _, 0, ⟨m, false, rfl, setFile_same _ _ _⟩,
        Nat.zero_le _, rfl, rfl⟩
  | assign phase cur here =>
    cases phase with
    | seek | data => simp only [Replying, here] at replying
    | reply =>
      simp only [Replying, here] at replying
      obtain ⟨p, reading⟩ := replying
      exact .inl (reading.move (reading.position.keep rfl rfl) (Nat.lt_succ_self _) rfl
        (fun _ after => ⟨p, after⟩))
  | check phase here =>
    cases phase with
    | seek | data => simp only [Replying, here] at replying
    | reply =>
      simp only [Replying, here] at replying
      obtain ⟨p, reading⟩ := replying
      obtain ⟨n, writable, known, file⟩ := reading.position
      have cur : s.dataFileDescriptor = some n := known
      refine .inl (reading.move ?_ ?_ rfl ?_)
      · rw [cur]
        exact ⟨n, writable, cur, file⟩
      · rw [cur]
        exact Nat.lt_succ_self _
      · intro rank' after
        simp only [cur] at after ⊢
        exact ⟨p, after⟩
  | lock phase here free =>
    cases phase with
    | seek | data => simp only [Replying, here] at replying
    | reply =>
      simp only [Replying, here] at replying
      obtain ⟨p, reading⟩ := replying
      exact .inl (reading.move (reading.position.keep rfl rfl) (Nat.lt_succ_self _) rfl
        (fun _ after => ⟨p, after⟩))
  | load use here =>
    cases use with
    | ioctl | write | closeData | closeEnd => simp only [Replying, here] at replying
    | read =>
      simp only [Replying, here] at replying
      obtain ⟨p, reading⟩ := replying
      exact .inl (reading.move (reading.position.keep rfl rfl) (Nat.lt_succ_self _) rfl
        (fun _ after => ⟨p, after⟩))
  | read env socket cur bytes here call =>
    simp only [Replying, here] at replying
    obtain ⟨p, reading⟩ := replying
    rw [same] at reading
    have nothing : (Event.fetched id cur true).sentBytes = [] := rfl
    rw [nothing, List.append_nil, same]
    exact .inl (reading.read models (loaded cur here) call)
  | unlock phase here =>
    cases phase with
    | seek | data => simp only [Replying, here] at replying
    | reply =>
      simp only [Replying, here] at replying
      obtain ⟨p, sending⟩ := replying
      have nothing : (Event.unlocked id).sentBytes = [] := rfl
      rw [nothing, List.append_nil]
      refine .inl ⟨_, ?_, p, sending.position.keep (by rw [here]; rfl) rfl, sending.inside,
        sending.progress, sending.ended, rfl⟩
      rw [sending.rank, here]
      simp only [Pc.distance]
      split <;> simp
  | send count here =>
    simp only [Replying, here] at replying
    obtain ⟨p, sending⟩ := replying
    exact sending.send here healthy

/-- After the reply loop nothing more is sent. -/
theorem leaving_step (leaving : h.pc.leaving = true) (step : Advance id h s answer h' s' event) :
    h'.pc.leaving = true ∧ event.sentBytes = [] := by
  cases step with
  | load use here =>
    rw [here] at leaving
    cases use with
    | closeEnd => exact ⟨rfl, rfl⟩
    | _ => cases leaving
  | closeEnd cur here | closeSocket here | complete here => exact ⟨rfl, rfl⟩
  | _ => simp_all [Pc.leaving]

/-- Outside the receive loop the device is left alone. -/
theorem Advance.kept (step : Advance id h s answer h' s' event)
    (outside : h.pc.branch = none) (models : Models s.kernel j) : Models s'.kernel j := by
  cases step with
  | ioctl env cur here call | write env socket cur ok here call | closeData cur here =>
    rw [here] at outside
    cases outside
  | readFailed env socket cur here call | read env socket cur bytes here call =>
    exact (Shared.read_frame call).2 j models
  | closeEnd cur here | closeSocket here => rwa [Shared.close_kernel]
  | _ => exact models

theorem Replying.stage (replying : Replying content h s sent rank) :
    h.pc.replying = true := by
  unfold Replying at replying
  split at replying <;> first | (rename_i here; rw [here]; rfl) | cases replying

theorem Replying.rank_le (replying : Replying content h s sent rank) :
    rank ≤ 5 * content.length + 8 := by
  have distance : h.pc.distance ≤ 8 := by
    unfold Pc.distance
    split <;> omega
  unfold Replying at replying
  split at replying
  case h_1 => exact Nat.le_of_eq replying.2
  case h_2 | h_3 | h_4 | h_5 | h_6 =>
    obtain ⟨p, reading⟩ := replying
    have rank := reading.rank
    omega
  case h_7 | h_8 =>
    obtain ⟨p, sending⟩ := replying
    have rank := sending.rank
    split at rank <;> omega
  case h_9 => cases replying

theorem replying_outside {pc : Pc} (replying : pc.replying = true) : pc.branch = none := by
  unfold Pc.replying at replying
  split at replying <;> first | rfl | cases replying

theorem leaving_outside {pc : Pc} (leaving : pc.leaving = true) : pc.branch = none := by
  unfold Pc.leaving at leaving
  split at leaving <;> first | rfl | cases leaving

theorem leaving_replying {pc : Pc} (leaving : pc.leaving = true) : pc.replying = false := by
  unfold Pc.leaving at leaving
  split at leaving <;> first | rfl | cases leaving

/-- A run of healthy steps in the reply loop is no longer than its rank. -/
theorem Replying.run (replying : Replying j.content h s sent rank) (models : Models s.kernel j)
    (poised : Poised id h s) (routed : h.Routed)
    (run : Transition.execute (threadStep id) answers (h, s) = some ((h', s'), events))
    (healthy : ∀ event ∈ events, event.healthy = true) (still : h'.pc.replying = true) :
    events.length ≤ rank := by
  let active (rank : Nat) (t : Handler × Shared) : Prop := ∃ sent,
    Replying j.content t.1 t.2 sent rank ∧ Models t.2.kernel j ∧ Poised id t.1 t.2 ∧ t.1.Routed
  have start : active rank (h, s) := ⟨sent, replying, models, poised, routed⟩
  apply Transition.length_le_rank active (fun t => t.1.pc.leaving = true) ?_ ?_ run healthy start
  · intro leaving
    cases still.symm.trans (leaving_replying leaving)
  · rintro answer t next event rank ⟨sent, replying, models, poised, routed⟩ now one
    have step := threadStep_cases one
    have loaded := fun cur here => poised.loaded .read cur here
    rcases replying.step models rfl loaded step now with ⟨rank', less, after⟩ | ⟨leaving, _⟩
    · exact .inl ⟨rank', less, _, after, step.kept (replying_outside replying.stage) models,
        poised.step routed step (Event.healthy_fine now), step.routed routed⟩
    · exact .inr leaving
  · exact fun answer t next event leaving one => (leaving_step leaving (threadStep_cases one)).1

end Aesd
