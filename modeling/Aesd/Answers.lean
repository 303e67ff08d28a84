import Aesd.Conversation

/-! Clients that send a line, in any pieces, or a whole seek request. The specification answers a
seek request from the byte of the line that it names; the ioctl counts by slots of the ring, so that
this is what a client gets exactly when the slots before that byte have the sizes of the lines before
it. -/
namespace Aesd

variable {s : Server} {exchanges : List Exchange} {requests : List Request}
  {results : List (List Byte × Option Seekto)} {history lines : List (List Byte)} {text : List Byte}
  {seekto : Seekto} {cmd offset : Nat}

section Specification

inductive Request where
  | line (text : List Byte)
  | seek (seekto : Seekto)
  deriving DecidableEq, Repr

def Request.isLine : Request → Bool
  | .line _ => true
  | .seek _ => false

/-- What follows from byte `offset` of line `cmd` on, counted from the oldest; all, if there is no
such byte. -/
def bytesFrom (lines : List (List Byte)) (cmd offset : Nat) : List Byte :=
  if offset < (lines.getD cmd []).length then
    (lines.getD cmd []).drop offset ++ (lines.drop (cmd + 1)).flatten
  else lines.flatten

/-- The reply to a request, and the lines afterwards. -/
def respond (history : List (List Byte)) : Request → List Byte × List (List Byte)
  | .line text => ((lastTen (history ++ [text])).flatten, history ++ [text])
  | .seek seekto =>
    (bytesFrom (lastTen history) seekto.writeCmd.toNat seekto.writeCmdOffset.toNat, history)

def respondAll (history : List (List Byte)) : List Request → List (List Byte)
  | [] => []
  | request :: requests =>
    (respond history request).1 :: respondAll (respond history request).2 requests

/-- The slot that the ioctl looks at has the byte exactly when the line has it, and the slots before
it are as long as the lines before that. -/
def InPlace (history : List (List Byte)) (cmd offset : Nat) : Prop :=
  let j : Journal := ⟨history, .held []⟩
  let line := (lastTen history).getD cmd []
  ((cmd < maxWriteOperations ∧ offset < (j.slot cmd).length) ↔ offset < line.length) ∧
    (offset < line.length → j.slotsLength cmd = (((lastTen history).map List.length).take cmd).sum)

instance : Decidable (InPlace history cmd offset) := inferInstanceAs (Decidable (_ ∧ _))

def Placed (history : List (List Byte)) : List Request → Prop
  | [] => True
  | .line text :: requests => Placed (history ++ [text]) requests
  | .seek seekto :: requests =>
    InPlace history seekto.writeCmd.toNat seekto.writeCmdOffset.toNat ∧ Placed history requests

/-- After ten lines and a longer one, line 1 no longer is where slot 1 is. -/
example : ¬InPlace elevenLines 1 0 ∧ InPlace elevenLines 0 0 := by decide

end Specification

section Slots

def startIn (lines : List (List Byte)) (cmd offset : Nat) : Nat :=
  if offset < (lines.getD cmd []).length then ((lines.map List.length).take cmd).sum + offset
  else 0

theorem getD_inside (inside : offset < (lines.getD cmd []).length) :
    ∃ bound : cmd < lines.length, lines.getD cmd [] = lines[cmd] := by
  by_cases bound : cmd < lines.length
  · exact ⟨bound, by simp [bound]⟩
  · rw [List.getD_eq_getElem?_getD, List.getElem?_eq_none (Nat.le_of_not_lt bound)] at inside
    cases inside

theorem bytesFrom_eq (lines : List (List Byte)) (cmd offset : Nat) :
    bytesFrom lines cmd offset = lines.flatten.drop (startIn lines cmd offset) := by
  unfold bytesFrom startIn
  split
  · rename_i inside
    obtain ⟨bound, line⟩ := getD_inside inside
    rw [line] at inside ⊢
    exact (Locate.drop_flatten lines cmd offset bound (Nat.le_of_lt inside)).symm
  · rfl

theorem startIn_le (lines : List (List Byte)) (cmd offset : Nat) :
    startIn lines cmd offset ≤ lines.flatten.length := by
  unfold startIn
  split
  · rename_i inside
    obtain ⟨bound, line⟩ := getD_inside inside
    have next := List.sum_take_succ (lines.map List.length) cmd (by simpa using bound)
    have all := List.sum_take_add_sum_drop (lines.map List.length) (cmd + 1)
    rw [List.getElem_map, ← line] at next
    rw [List.length_flatten]
    omega
  · exact Nat.zero_le _

theorem slot_zero (full : ∀ line ∈ history, line ≠ []) (some : history ≠ []) :
    0 < (Journal.slot ⟨history, .held []⟩ 0).length := by
  have positive := List.length_pos_of_ne_nil some
  have bound : history.length - 1 - (history.length - 1 - 0) % 10 < history.length := by omega
  simp only [Journal.slot, if_pos positive, List.getD_eq_getElem?_getD,
    List.getElem?_eq_getElem bound, Option.getD_some]
  exact List.length_pos_of_ne_nil (full _ (List.getElem_mem bound))

theorem slotsLength_zero {j : Journal} (some : 0 < (j.slot 0).length)
    (none : j.slotsLength cmd = 0) : cmd = 0 := by
  cases cmd with
  | zero => rfl
  | succ n =>
    induction n with
    | zero =>
      simp only [Journal.slotsLength] at none
      omega
    | succ n ih =>
      rw [Journal.slotsLength] at none
      cases ih (by omega)

theorem lines_zero (full : ∀ line ∈ lines, line ≠ []) (some : lines ≠ [])
    (none : ((lines.map List.length).take cmd).sum = 0) : cmd = 0 := by
  cases lines with
  | nil => exact absurd rfl some
  | cons line rest =>
    have positive := List.length_pos_of_ne_nil (full line List.mem_cons_self)
    cases cmd with
    | zero => rfl
    | succ n =>
      simp only [List.map_cons, List.take_succ_cons, List.sum_cons] at none
      omega

/-- The ioctl leads where the specification says exactly when the request is in place. -/
theorem target_iff (full : ∀ line ∈ history, line ≠ []) :
    Journal.target ⟨history, .held []⟩ seekto =
        startIn (lastTen history) seekto.writeCmd.toNat seekto.writeCmdOffset.toNat ↔
      InPlace history seekto.writeCmd.toNat seekto.writeCmdOffset.toNat := by
  have live : ∀ line ∈ lastTen history, line ≠ [] :=
    fun line member => full line (List.mem_of_mem_drop member)
  have both : history ≠ [] → lastTen history ≠ [] := by
    intro some none
    have := List.length_pos_of_ne_nil some
    have length := congrArg List.length none
    simp only [lastTen, List.length_drop, List.length_nil] at length
    omega
  unfold Journal.target startIn InPlace
  generalize seekto.writeCmd.toNat = cmd
  generalize seekto.writeCmdOffset.toNat = offset
  dsimp only
  by_cases slot : cmd < maxWriteOperations ∧
    offset < (Journal.slot ⟨history, .held []⟩ cmd).length
  · rw [if_pos slot]
    by_cases line : offset < ((lastTen history).getD cmd []).length
    · rw [if_pos line, Nat.add_right_cancel_iff]
      exact ⟨fun same => ⟨iff_of_true slot line, fun _ => same⟩, fun place => place.2 line⟩
    · rw [if_neg line]
      refine iff_of_false (fun none => line ?_) (fun place => line (place.1.mp slot))
      -- only the first byte of all is at 0, and that is in the first line
      have some : history ≠ [] := by
        rintro rfl
        simp [Journal.slot] at slot
      obtain ⟨rfl, rfl⟩ : cmd = 0 ∧ offset = 0 :=
        ⟨slotsLength_zero (slot_zero full some) (by omega), by omega⟩
      obtain ⟨first, rest, same⟩ := List.exists_cons_of_ne_nil (both some)
      rw [same]
      exact List.length_pos_of_ne_nil (live first (same ▸ List.mem_cons_self))
  · rw [if_neg slot]
    by_cases line : offset < ((lastTen history).getD cmd []).length
    · rw [if_pos line]
      refine iff_of_false (fun none => slot ?_) (fun place => slot (place.1.mpr line))
      have some : history ≠ [] := by
        rintro rfl
        simp [lastTen] at line
      obtain ⟨rfl, rfl⟩ : cmd = 0 ∧ offset = 0 :=
        ⟨lines_zero live (both some) (by omega), by omega⟩
      exact ⟨by decide, slot_zero full some⟩
    · rw [if_neg line]
      exact iff_of_true rfl ⟨iff_of_false slot line, fun inside => absurd inside line⟩

/-- While the ring has not wrapped, every request is in place. -/
theorem inPlace_of_few (few : history.length ≤ 10) : InPlace history cmd offset := by
  have live : lastTen history = history := by
    rw [lastTen, Nat.sub_eq_zero_of_le few, List.drop_zero]
  have slots : ∀ i < 10, Journal.slot ⟨history, .held []⟩ i = history.getD i [] := by
    intro i bound
    unfold Journal.slot
    dsimp only
    split
    · have same : history.length - 1 - (history.length - 1 - i) % 10 = i := by omega
      rw [same]
    · rw [List.getD_eq_getElem?_getD, List.getElem?_eq_none (by omega)]
      rfl
  unfold InPlace
  dsimp only
  rw [live]
  refine ⟨⟨fun slot => slots cmd slot.1 ▸ slot.2, fun line => ?_⟩, fun line => ?_⟩
  · obtain ⟨bound, _⟩ := getD_inside line
    have below : cmd < 10 := by omega
    exact ⟨below, by rw [slots cmd below]; exact line⟩
  · obtain ⟨bound, _⟩ := getD_inside line
    have order : ∀ i < 10, (Journal.slot ⟨history, .held []⟩ i).length =
        ((Journal.live ⟨history, .held []⟩).getD i []).length := by
      intro i below
      have same : Journal.live ⟨history, .held []⟩ = history := live
      rw [slots i below, same]
    have sum := Journal.slotsLength_eq order cmd (by omega)
    have same : Journal.live ⟨history, .held []⟩ = history := live
    rwa [same] at sum

theorem placed_of_few (few : history.length + requests.countP Request.isLine ≤ 10) :
    Placed history requests := by
  induction requests generalizing history with
  | nil => trivial
  | cons request requests ih =>
    cases request with
    | line text =>
      rw [List.countP_cons_of_pos rfl] at few
      exact ih (by rw [List.length_append, List.length_singleton]; omega)
    | seek seekto =>
      rw [List.countP_cons_of_neg Bool.false_ne_true] at few
      exact ⟨inPlace_of_few (by omega), ih few⟩

end Slots

section Replies

/-- The client sent this request: a line of which no piece makes the buffer look like a seek
request, or a seek request in one piece, with both its numbers and a newline. -/
inductive Exchange.Asks (exchange : Exchange) : Request → Prop
  | line {text : List Byte} (whole : Delimited.Segment newline text)
      (pieces : (exchange.results.map Prod.fst).flatten = text)
      (plain : ∀ seek ∈ exchange.results.map Prod.snd, seek = none) : exchange.Asks (.line text)
  | seek {text : List Byte} {seekto : Seekto} (piece : exchange.results.map Prod.fst = [text])
      (ends : Ends text) (found : seekRequest (cString text) = some seekto) :
      exchange.Asks (.seek seekto)

theorem takeUp_line (whole : Delimited.Segment newline text)
    (pieces : (results.map Prod.fst).flatten = text)
    (plain : ∀ seek ∈ results.map Prod.snd, seek = none) :
    takeUp ⟨history, []⟩ results = ⟨history ++ [text], []⟩ := by
  have uncut : ∀ piece ∈ results.map Prod.fst, Delimited.cut newline piece = piece := by
    intro piece member
    obtain ⟨front, back, split⟩ := List.append_of_mem member
    apply (Delimited.cut_eq_self_iff piece).mpr
    intro ends
    have around : Delimited.Segment newline (front.flatten ++ piece ++ back.flatten) := by
      rw [← pieces, split] at whole
      simpa using whole
    exact (around.piece ends).2
  rw [takeUp, routed_all plain, (Delimited.flatten_map_cut_iff _).mpr uncut, pieces]
  obtain ⟨body, clear, rfl⟩ := whole
  exact Delimited.feed_closed _ body clear

theorem startOf_plain (j : Journal) (plain : ∀ seek ∈ results.map Prod.snd, seek = none) :
    startOf j results = 0 := by
  unfold startOf
  split
  · rename_i bytes seekto last
    cases plain _ (List.mem_map_of_mem (List.mem_of_getLast? last))
  · rfl

theorem replyTo_line (whole : Delimited.Segment newline text)
    (pieces : (results.map Prod.fst).flatten = text)
    (plain : ∀ seek ∈ results.map Prod.snd, seek = none) :
    replyTo ⟨history, []⟩ results = (respond history (.line text)).1 := by
  rw [replyTo, startOf_plain _ plain, takeUp_line whole pieces plain]
  rfl

theorem seek_results (interpreted : Interpreted results) (piece : results.map Prod.fst = [text])
    (ends : Ends text) (found : seekRequest (cString text) = some seekto) :
    results = [(text, some seekto)] := by
  obtain ⟨⟨bytes, seek⟩, rest, rfl, rfl, none⟩ := List.map_eq_cons_iff.mp piece
  obtain rfl := List.map_eq_nil_iff.mp none
  have starts : isSeek bytes = true := by
    have string : isSeek (cString bytes) = true := by
      unfold seekRequest at found
      split at found
      · assumption
      · cases found
    have whole := (isSeek_append string (bytes.dropWhile (· ≠ 0))).1
    rwa [cString, List.takeWhile_append_dropWhile] at whole
  have seeks := (isSeek_append starts (emptyBuffer.drop bytes.length)).1
  cases interpreted with
  | cons interprets _ =>
    rw [Interprets, overlay, if_pos seeks] at interprets
    obtain ⟨stack, beyond, same⟩ := interprets
    rw [List.append_assoc, sscanf_line ends found] at same
    exact congrArg (fun seek => [(bytes, seek)]) same

/-- Both leave a last part of what can be read, so that they agree when they leave as much. -/
theorem replyTo_seek {k : Kernel} (models : Models k ⟨history, .held []⟩)
    (full : ∀ line ∈ history, line ≠ []) :
    replyTo ⟨history, []⟩ [(text, some seekto)] = (respond history (.seek seekto)).1 ↔
      InPlace history seekto.writeCmd.toNat seekto.writeCmdOffset.toNat := by
  rw [← target_iff full]
  have reply : replyTo ⟨history, []⟩ [(text, some seekto)] =
      (lastTen history).flatten.drop (Journal.target ⟨history, .held []⟩ seekto) := rfl
  have target : Journal.target ⟨history, .held []⟩ seekto ≤ (lastTen history).flatten.length :=
    models.target_le seekto
  have start := startIn_le (lastTen history) seekto.writeCmd.toNat seekto.writeCmdOffset.toNat
  rw [reply, respond, bytesFrom_eq]
  constructor
  · intro same
    have length := congrArg List.length same
    rw [List.length_drop, List.length_drop] at length
    omega
  · exact fun same => congrArg (lastTen history).flatten.drop same

theorem Exchange.Asks.takeUp {exchange : Exchange} {request : Request}
    (asks : exchange.Asks request) (interpreted : Interpreted exchange.results) :
    Aesd.takeUp ⟨history, []⟩ exchange.results = ⟨(Aesd.respond history request).2, []⟩ := by
  cases asks with
  | line whole pieces plain => exact takeUp_line whole pieces plain
  | seek piece ends found =>
    rw [seek_results interpreted piece ends found]
    rfl

theorem Exchange.Asks.placed {exchange : Exchange} {request : Request} {k : Kernel}
    (asks : exchange.Asks request) (interpreted : Interpreted exchange.results)
    (models : Models k ⟨history, .held []⟩) (full : ∀ line ∈ history, line ≠ [])
    (requests : List Request) :
    Placed history (request :: requests) ↔
      replyTo ⟨history, []⟩ exchange.results = (respond history request).1 ∧
        Placed (respond history request).2 requests := by
  cases asks with
  | line whole pieces plain =>
    exact (and_iff_right (replyTo_line whole pieces plain)).symm
  | seek piece ends found =>
    rw [seek_results interpreted piece ends found, replyTo_seek models full]
    exact Iff.rfl

theorem Exchange.Asks.full {exchange : Exchange} {request : Request}
    (asks : exchange.Asks request) (full : ∀ line ∈ history, line ≠ []) :
    ∀ line ∈ (respond history request).2, line ≠ [] := by
  cases asks with
  | line whole pieces plain =>
    intro line member
    rcases List.mem_append.mp member with before | last
    · exact full line before
    · rw [List.mem_singleton.mp last]
      obtain ⟨body, _, rfl⟩ := whole
      exact List.append_ne_nil_of_right_ne_nil _ (List.cons_ne_nil _ _)
  | seek piece ends found => exact full

theorem replies_respondAll (asked : List.Forall₂ Exchange.Asks exchanges requests)
    (full : ∀ line ∈ history, line ≠ [])
    (served : ∀ k (inside : k < exchanges.length),
      let lines := (exchanges.take k).foldl (fun lines exchange => takeUp lines exchange.results)
        ⟨history, []⟩
      (∃ kernel, Models kernel (.ofAssembly lines)) ∧ Interpreted exchanges[k].results ∧
        exchanges[k].reply = replyTo lines exchanges[k].results) :
    exchanges.map Exchange.reply = respondAll history requests ↔ Placed history requests := by
  induction asked generalizing history with
  | nil => exact iff_of_true rfl trivial
  | @cons exchange request exchanges requests asks asked ih =>
    obtain ⟨⟨kernel, models⟩, interpreted, reply⟩ := served 0 (Nat.zero_lt_succ _)
    have models : Models kernel ⟨history, .held []⟩ := models
    have reply : exchange.reply = replyTo ⟨history, []⟩ exchange.results := reply
    have next : takeUp ⟨history, []⟩ exchange.results = ⟨(respond history request).2, []⟩ :=
      asks.takeUp interpreted
    have rest : exchanges.map Exchange.reply = respondAll (respond history request).2 requests ↔
        Placed (respond history request).2 requests := by
      apply ih (asks.full full)
      intro k inside
      have later := served (k + 1) (Nat.succ_lt_succ inside)
      rw [List.take_succ_cons, List.foldl_cons, next] at later
      exact later
    rw [asks.placed interpreted models full requests, ← rest, List.map_cons, respondAll,
      List.cons.injEq]
    exact and_congr_left fun _ => by rw [reply]

/-- What clients get back that send lines and seek requests, one after another: what the
specification says exactly when every seek request is in place, as each is with ten lines at most. -/
theorem requests_answered (conversation : Conversation exchanges s)
    (asked : List.Forall₂ Exchange.Asks exchanges requests) :
    (exchanges.map Exchange.reply = respondAll [] requests ↔ Placed [] requests) ∧
      (requests.countP Request.isLine ≤ 10 →
        exchanges.map Exchange.reply = respondAll [] requests) := by
  have answered : exchanges.map Exchange.reply = respondAll [] requests ↔ Placed [] requests := by
    refine replies_respondAll asked (List.forall_mem_nil _) fun k inside => ⟨?_, ?_⟩
    · exact conversation.modelled k (Nat.le_of_lt inside)
    · exact conversation.replies k inside
  refine ⟨answered, fun few => answered.mpr (placed_of_few ?_)⟩
  simpa using few

/-- The second client asks for what follows the first byte that the first one sent. -/
theorem requests_answered_seek :
    ∃ s, Conversation seekExchanges s ∧
      (seekExchanges.map Exchange.reply =
          respondAll [] [.line [97, 98, newline], .seek ⟨0, 1⟩] ↔
        Placed [] [.line [97, 98, newline], .seek ⟨0, 1⟩]) ∧
      seekExchanges.map Exchange.reply =
        respondAll [] [.line [97, 98, newline], .seek ⟨0, 1⟩] := by
  obtain ⟨s, conversation⟩ := seek_conversation
  have whole : Delimited.Segment newline [97, 98, newline] := ⟨[97, 98], by decide, rfl⟩
  have line : Exchange.Asks ⟨[([97, 98, newline], none)], [97, 98, newline]⟩
      (.line [97, 98, newline]) := .line whole rfl (by decide)
  have seek : Exchange.Asks ⟨[(seekByte, some ⟨0, 1⟩)], [98, newline]⟩ (.seek ⟨0, 1⟩) :=
    .seek rfl ⟨ioctlStr ++ [48, 44, 49], rfl⟩ (by decide +kernel)
  obtain ⟨answered, few⟩ := requests_answered conversation (.cons line (.cons seek .nil))
  exact ⟨s, conversation, answered, few (by decide)⟩

end Replies

end Aesd
