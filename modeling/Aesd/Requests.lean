import Aesd.Library.Interleaving
import Aesd.Solo
import Mathlib.Data.List.TakeWhile

/-! A request line and its division into results of `recv`. The prefix test looks at the whole
buffer after each one, so the line is served as it should be exactly when a seek request comes
in one piece, and when no piece of another line makes the buffer look like a seek request. -/
namespace Aesd

variable {id : Nat} {actions : List Action} {events : List Event} {s s₀ : Server} {j : Journal}
  {results : List (List Byte × Option Seekto)} {text rest line : List Byte} {value : Int}
  {request : Seekto}

/-- The numbers of a seek request, if the text holds both. -/
def seekRequest (text : List Byte) : Option Seekto :=
  if isSeek text then
    match scanInt (text.drop ioctlStr.length) with
    | some (writeCmd, 44 :: rest) =>
      (scanInt rest).map fun (offset, _) => ⟨storeInt writeCmd, storeInt offset⟩
    | _ => none
  else none

/-- The effect that a line should have: a seek request issues one seek, for its numbers if it
has them, and any other line goes to the device as it is. -/
def Served (line : List Byte) (seeks : List Seekto) (consumed : List Byte) : Prop :=
  if isSeek line then
    consumed = [] ∧ ∃ seekto, seeks = [seekto] ∧
      ∀ request, seekRequest (cString line) = some request → seekto = request
  else seeks = [] ∧ consumed = line

def Ends (text : List Byte) : Prop := ∃ body, text = body ++ [newline]

theorem Ends.of_suffix (ends : Ends text) (suffix : rest <:+ text) (nonempty : rest ≠ []) :
    Ends rest := by
  obtain ⟨body, rfl⟩ := ends
  rcases List.eq_nil_or_concat rest with rfl | ⟨front, last, rfl⟩
  · contradiction
  · obtain ⟨before, whole⟩ := suffix
    rw [List.concat_eq_append, ← List.append_assoc] at whole
    rw [List.concat_eq_append, (List.append_inj' whole rfl).2]
    exact ⟨front, rfl⟩

theorem scan_append {p : Byte → Bool} (left : text.dropWhile p ≠ []) (more : List Byte) :
    (text ++ more).dropWhile p = text.dropWhile p ++ more ∧
      (text ++ more).takeWhile p = text.takeWhile p := by
  constructor
  · rw [List.dropWhile_append, if_neg (by simpa [List.isEmpty_iff] using left)]
  · have lengths := congrArg List.length (List.takeWhile_append_dropWhile (p := p) (l := text))
    rw [List.length_append] at lengths
    have positive := List.length_pos_iff.mpr left
    rw [List.takeWhile_append, if_neg (by omega)]

theorem scanSign_append (nonempty : text ≠ []) (more : List Byte) :
    scanSign (text ++ more) = ((scanSign text).1, (scanSign text).2 ++ more) := by
  cases text with
  | nil => contradiction
  | cons b text =>
    simp only [List.cons_append, scanSign]
    split <;> simp_all

theorem scanSign_suffix (text : List Byte) : (scanSign text).2 <:+ text := by
  unfold scanSign
  split
  · exact List.suffix_cons _ _
  · exact List.suffix_cons _ _
  · exact List.suffix_rfl

theorem scanInt_eq_some_iff : scanInt text = some (value, rest) ↔
    ∃ negative unsigned, scanSign (text.dropWhile isSpace) = (negative, unsigned) ∧
      unsigned.takeWhile isDigit ≠ [] ∧ value = longValue negative (unsigned.takeWhile isDigit) ∧
      rest = unsigned.dropWhile isDigit := by
  rcases signed : scanSign (text.dropWhile isSpace) with ⟨negative, unsigned⟩
  simp only [scanInt, signed, List.isEmpty_iff]
  constructor
  · intro found
    split at found
    · cases found
    · rename_i digits
      simp only [Option.some.injEq, Prod.mk.injEq] at found
      exact ⟨negative, unsigned, rfl, digits, found.1.symm, found.2.symm⟩
  · rintro ⟨_, _, same, digits, rfl, rfl⟩
    cases same
    rw [if_neg digits]

/-- A number in a text that ends with a newline ends inside the text. -/
theorem scanInt_append (ends : Ends text) (found : scanInt text = some (value, rest))
    (more : List Byte) : scanInt (text ++ more) = some (value, rest ++ more) ∧ Ends rest := by
  obtain ⟨negative, unsigned, signed, digits, rfl, rfl⟩ := scanInt_eq_some_iff.mp found
  have some : unsigned ≠ [] := by
    rintro rfl
    exact digits rfl
  have suffix : unsigned <:+ text.dropWhile isSpace := by
    have tail := scanSign_suffix (text.dropWhile isSpace)
    rwa [signed] at tail
  have unspaced : text.dropWhile isSpace ≠ [] := by
    intro none
    rw [none] at suffix
    exact some (List.suffix_nil.mp suffix)
  have last := ends.of_suffix (suffix.trans (List.dropWhile_suffix _)) some
  have left : unsigned.dropWhile isDigit ≠ [] := by
    obtain ⟨body, rfl⟩ := last
    intro none
    have digit := List.dropWhile_eq_nil_iff.mp none newline (by simp)
    exact absurd digit (by decide)
  obtain ⟨after, same⟩ := scan_append left more
  refine ⟨scanInt_eq_some_iff.mpr ⟨negative, unsigned ++ more, ?_, ?_, ?_, ?_⟩, ?_⟩
  · rw [(scan_append unspaced more).1, scanSign_append unspaced, signed]
  · rwa [same]
  · rw [same]
  · rw [after]
  · exact last.of_suffix (List.dropWhile_suffix _) left

theorem isSeek_append (seek : isSeek text = true) (more : List Byte) :
    isSeek (text ++ more) = true ∧
      (text ++ more).drop ioctlStr.length = text.drop ioctlStr.length ++ more := by
  simp only [isSeek, beq_iff_eq] at seek ⊢
  have length := congrArg List.length seek
  rw [List.length_take] at length
  constructor
  · rw [List.take_append_of_le_length (by omega), seek]
  · rw [List.drop_append_of_le_length (by omega)]

theorem seekRequest_append (ends : Ends text) (found : seekRequest text = some request)
    (more : List Byte) : seekRequest (text ++ more) = some request := by
  unfold seekRequest at found ⊢
  split at found
  · rename_i seek
    obtain ⟨seek', arguments⟩ := isSeek_append seek more
    rw [if_pos seek', arguments]
    split at found
    · rename_i writeCmd rest command
      obtain ⟨⟨offset, tail⟩, second, same⟩ := Option.map_eq_some_iff.mp found
      have nonempty : text.drop ioctlStr.length ≠ [] := by
        intro none
        rw [none] at command
        cases command
      obtain ⟨command', ends'⟩ :=
        scanInt_append (ends.of_suffix (List.drop_suffix _ _) nonempty) command more
      have nonempty' : rest ≠ [] := by
        rintro rfl
        cases second
      obtain ⟨second', _⟩ :=
        scanInt_append (ends'.of_suffix (List.suffix_cons _ _) nonempty') second more
      rw [command', List.cons_append]
      simp only [second', Option.map_some]
      exact congrArg some same
    · cases found
  · cases found

/-- When the text holds both numbers, no target keeps what the stack held. -/
theorem sscanfSeekto_request (found : seekRequest text = some request) (stack : Seekto) :
    sscanfSeekto text stack = request := by
  unfold seekRequest at found
  split at found
  · rename_i seek
    split at found
    · rename_i writeCmd rest command
      obtain ⟨⟨offset, tail⟩, second, rfl⟩ := Option.map_eq_some_iff.mp found
      simp only [sscanfSeekto, if_pos seek, command, second]
    · cases found
  · cases found

/-- What follows a line in memory does not disturb the request in it. -/
theorem sscanf_line (ends : Ends line) (found : seekRequest (cString line) = some request)
    (more : List Byte) (stack : Seekto) : sscanfSeekto (cString (line ++ more)) stack = request := by
  apply sscanfSeekto_request
  by_cases whole : ∀ b ∈ line, decide (b ≠ 0) = true
  · rw [cString, List.takeWhile_append_of_pos whole]
    rw [cString, List.takeWhile_eq_self_iff.mpr whole] at found
    exact seekRequest_append ends found _
  · have left : line.dropWhile (· ≠ 0) ≠ [] := fun none => whole (List.dropWhile_eq_nil_iff.mp none)
    rw [cString, (scan_append left more).2]
    exact found

theorem Interprets.plain_iff {buffer : List Byte} {seek : Option Seekto}
    (interprets : Interprets buffer seek) : isSeek buffer = false ↔ seek = none := by
  unfold Interprets at interprets
  split at interprets
  · rename_i seeks
    obtain ⟨stack, beyond, rfl⟩ := interprets
    simp [seeks]
  · rename_i plain
    simp [interprets, plain]

/-- No result was taken for a seek request exactly when the buffer never looked like one. -/
theorem plain_iff (interpreted : List.Forall₂ Interprets bufs seeks) :
    (∀ buffer ∈ bufs, isSeek buffer = false) ↔ ∀ seek ∈ seeks, seek = none := by
  induction interpreted with
  | nil => simp
  | cons interprets _ ih => simp only [List.forall_mem_cons, interprets.plain_iff, ih]

theorem requests_nil_iff : requests results = [] ↔ ∀ seek ∈ results.map Prod.snd, seek = none := by
  rw [requests, List.filterMap_eq_nil_iff, List.forall_mem_map]

theorem routed_all (plain : ∀ seek ∈ results.map Prod.snd, seek = none) :
    routed results = results.map Prod.fst := by
  rw [List.forall_mem_map] at plain
  rw [routed, List.filter_eq_self.mpr]
  intro r member
  rw [plain r member]
  rfl

theorem requests_length (none : routed results = []) :
    (requests results).length = results.length := by
  induction results with
  | nil => rfl
  | cons r results ih =>
    obtain ⟨bytes, _ | seekto⟩ := r
    · simp [routed] at none
    · have rest := ih (by simpa [routed] using none)
      rw [requests] at rest ⊢
      simp [rest]

/-- A line in pieces, as far as the pieces are not empty, is served exactly when a seek request
is one piece, and the buffer never looks like a seek request for another line. -/
theorem served_iff (whole : Delimited.Segment newline line)
    (division : (results.map Prod.fst).flatten = line) (nonempty : ∀ c ∈ results.map Prod.fst, c ≠ [])
    (interpreted : List.Forall₂ Interprets (buffers emptyBuffer (results.map Prod.fst))
      (results.map Prod.snd)) :
    Served line (requests results) ((routed results).map (Delimited.cut newline)).flatten ↔
      if isSeek line then results.map Prod.fst = [line]
      else ∀ buffer ∈ buffers emptyBuffer (results.map Prod.fst), isSeek buffer = false := by
  have plain := plain_iff interpreted
  unfold Served
  split
  · rename_i seek
    constructor
    · rintro ⟨consumed, seekto, one, _⟩
      have none : routed results = [] := by
        apply List.eq_nil_iff_forall_not_mem.mpr
        intro c member
        have empty := List.flatten_eq_nil_iff.mp consumed _ (List.mem_map_of_mem member)
        obtain ⟨r, kept, rfl⟩ := List.mem_map.mp member
        have positive := Delimited.cut_length_pos (d := newline) r.1
          (nonempty r.1 (List.mem_map_of_mem (List.mem_of_mem_filter kept)))
        rw [empty] at positive
        exact Nat.lt_irrefl 0 positive
      have length := requests_length none
      rw [one, List.length_singleton] at length
      obtain ⟨r, rfl⟩ := List.length_eq_one_iff.mp length.symm
      simpa using division
    · intro one
      obtain ⟨⟨c, found⟩, rfl, same⟩ := List.map_eq_singleton_iff.mp one
      cases same
      simp only [List.map_singleton, buffers] at interpreted
      cases interpreted with
      | cons interprets _ =>
        have seeks : isSeek (overlay emptyBuffer c) = true := (isSeek_append seek _).1
        rw [Interprets, if_pos seeks] at interprets
        obtain ⟨stack, beyond, rfl⟩ := interprets
        refine ⟨by simp [routed], _, by simp [requests]; rfl, fun request numbers => ?_⟩
        obtain ⟨body, _, ends⟩ := whole
        rw [overlay, List.append_assoc]
        exact sscanf_line ⟨body, ends⟩ numbers _ stack
  · constructor
    · rintro ⟨none, _⟩
      exact plain.mpr (requests_nil_iff.mp none)
    · intro never
      have all := plain.mp never
      refine ⟨requests_nil_iff.mpr all, ?_⟩
      rw [routed_all all, (Delimited.flatten_map_cut_iff _).mpr, division]
      rw [← division] at whole
      exact Delimited.cut_division whole

/-- A handler that works alone and has received a line, in any division, serves it exactly
under that condition. -/
theorem request_served_iff (models : Models s₀.shared.kernel j) (fresh : s₀.handler id = .fresh fd)
    (alone : Transition.Guarded Server.step (WorksAlone id) actions s₀)
    (run : Transition.execute Server.step actions s₀ = some (s, events))
    (handled : (s.handler id).pc.branch = none) (whole : Delimited.Segment newline line)
    (division : ((resultsOf events).map Prod.fst).flatten = line)
    (nonempty : ∀ c ∈ (resultsOf events).map Prod.fst, c ≠ []) :
    Served line (soughtOf events) (consumedOf events) ↔
      if isSeek line then (resultsOf events).map Prod.fst = [line]
      else ∀ buffer ∈ buffers emptyBuffer ((resultsOf events).map Prod.fst),
        isSeek buffer = false := by
  have course := Course.run models fresh alone run
  obtain ⟨consumed, sought⟩ := course.handled handled
  rw [← consumed, ← sought]
  exact served_iff whole division nonempty course.interpreted

def seekLine : List Byte := ioctlStr ++ [48, 44, 48, newline]

theorem seekLine_whole : Delimited.Segment newline seekLine :=
  ⟨ioctlStr ++ [48, 44, 48], by decide, by simp [seekLine]⟩

def splitSeek : List Action :=
  .run 0 (.recv (some (seekLine.take 1)) ⟨0, 0⟩ []) :: writeChunk 0 6 ++
    .run 0 (.recv (some (seekLine.drop 1)) ⟨0, 0⟩ []) :: writeChunk 0 6

theorem splitSeek_alone :
    Transition.Guarded Server.step (WorksAlone 0) splitSeek soleServer := by decide +kernel

theorem splitSeek_outcome :
    (Transition.execute Server.step splitSeek soleServer).map
      (fun last => ((resultsOf last.2).map Prod.fst, consumedOf last.2, (last.1.handler 0).pc)) =
      some ([seekLine.take 1, seekLine.drop 1], seekLine, .opening .reply) := by decide +kernel

/-- The request is written to the device, and no seek is issued. -/
theorem request_split :
    ∃ s events, Transition.execute Server.step splitSeek soleServer = some (s, events) ∧
      Transition.Guarded Server.step (WorksAlone 0) splitSeek soleServer ∧
      (s.handler 0).pc.branch = none ∧ Delimited.Segment newline seekLine ∧
      ((resultsOf events).map Prod.fst).flatten = seekLine ∧
      (∀ c ∈ (resultsOf events).map Prod.fst, c ≠ []) ∧
      ¬Served seekLine (soughtOf events) (consumedOf events) := by
  obtain ⟨⟨s, events⟩, run, outcome⟩ := Option.map_eq_some_iff.mp splitSeek_outcome
  simp only [Prod.mk.injEq] at outcome
  obtain ⟨results, consumed, pc⟩ := outcome
  refine ⟨s, events, run, splitSeek_alone, by rw [pc]; rfl, seekLine_whole, ?_, ?_, ?_⟩
  · rw [results]
    decide
  · rw [results]
    decide
  · intro served
    rw [Served, if_pos (by decide), consumed] at served
    exact absurd served.1 (by decide)

def wholeSeek : List Action :=
  [.run 0 (.recv (some seekLine) ⟨0, 0⟩ []), .run 0 (.opened (some 6)), .run 0 .quiet,
    .run 0 .quiet, .run 0 .quiet, .run 0 (.ioctl .success)]

theorem wholeSeek_outcome :
    (Transition.execute Server.step wholeSeek soleServer).map
      (fun last => ((resultsOf last.2).map Prod.fst, (last.1.handler 0).pc)) =
      some ([seekLine], .lock .reply) := by decide +kernel

theorem request_served_iff_whole :
    ∃ s events, Transition.execute Server.step wholeSeek soleServer = some (s, events) ∧
      (Served seekLine (soughtOf events) (consumedOf events) ↔
        if isSeek seekLine then (resultsOf events).map Prod.fst = [seekLine]
        else ∀ buffer ∈ buffers emptyBuffer ((resultsOf events).map Prod.fst),
          isSeek buffer = false) := by
  obtain ⟨⟨s, events⟩, run, outcome⟩ := Option.map_eq_some_iff.mp wholeSeek_outcome
  obtain ⟨results, pc⟩ := Prod.mk.inj outcome
  have fresh : soleServer.handler 0 = .fresh 4 := rfl
  have alone : Transition.Guarded Server.step (WorksAlone 0) wholeSeek soleServer := by
    decide +kernel
  refine ⟨s, events, run, ?_⟩
  apply request_served_iff aesdInitModule_models fresh alone run
  · rw [pc]
    rfl
  · exact seekLine_whole
  · rw [results]
    decide
  · rw [results]
    decide

end Aesd
