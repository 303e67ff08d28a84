import Aesd.SeekOrder
import Aesd.Session
import Aesd.Requests

/-! Clients served one after another, whatever they send: lines, parts of lines and seek requests,
in any order and in any pieces. A reference server without descriptors, blocks and loops says what
each of them gets back. -/
namespace Aesd

variable {id fd n rank : Nat} {answer : Answer} {answers : List Answer} {h h' : Handler}
  {shared shared' : Shared} {s s' s₀ : Server} {event : Event} {log events : List Event}
  {lines : Delimited.Assembly Byte} {results : List (List Byte × Option Seekto)} {j : Journal}

section Reference

/-- The lines after the results of `recv` were handled: a result is taken up to its first newline,
and a seek request is not. -/
def takeUp (lines : Delimited.Assembly Byte) (results : List (List Byte × Option Seekto)) :
    Delimited.Assembly Byte :=
  lines.feed newline ((routed results).map (Delimited.cut newline)).flatten

def Journal.target (j : Journal) (seekto : Seekto) : Nat :=
  if seekto.writeCmd.toNat < maxWriteOperations ∧
      seekto.writeCmdOffset.toNat < (j.slot seekto.writeCmd.toNat).length then
    j.slotsLength seekto.writeCmd.toNat + seekto.writeCmdOffset.toNat
  else 0

/-- The last result of `recv` decides where the reply starts. -/
def startOf (j : Journal) (results : List (List Byte × Option Seekto)) : Nat :=
  match results.getLast? with
  | some (_, some seekto) => j.target seekto
  | _ => 0

def replyTo (lines : Delimited.Assembly Byte) (results : List (List Byte × Option Seekto)) :
    List Byte :=
  let j := Journal.ofAssembly (takeUp lines results)
  j.content.drop (startOf j results)

structure Exchange where
  results : List (List Byte × Option Seekto)
  reply : List Byte
  deriving DecidableEq

def linesAfter (exchanges : List Exchange) : Delimited.Assembly Byte :=
  exchanges.foldl (fun lines exchange => takeUp lines exchange.results) ⟨[], []⟩

@[simp] theorem linesAfter_snoc (exchanges : List Exchange) (exchange : Exchange) :
    linesAfter (exchanges ++ [exchange]) = takeUp (linesAfter exchanges) exchange.results := by
  simp [linesAfter]

theorem Journal.adjust_target (j : Journal) (seekto : Seekto) :
    (j.adjust true seekto 0).fpos = j.target seekto := by
  unfold Journal.adjust Journal.target
  by_cases slot : maxWriteOperations ≤ seekto.writeCmd.toNat
  · have outside := Nat.not_lt_of_le slot
    simp [slot, outside]
  · have below := Nat.lt_of_not_le slot
    by_cases beyond : (j.slot seekto.writeCmd.toNat).length ≤ seekto.writeCmdOffset.toNat
    · have outside := Nat.not_lt_of_le beyond
      simp [slot, beyond, outside]
    · have inside := Nat.lt_of_not_le beyond
      simp [slot, beyond, below, inside]

theorem Models.target_le {k : Kernel} (models : Models k j) (seekto : Seekto) :
    j.target seekto ≤ j.content.length := by
  have total := models.slotList_sum
  rw [models.sizes_sum] at total
  obtain ⟨r, result, refines⟩ := aesdAdjustFileOffset_refines models true seekto 0
  have fpos := refines.fpos.trans (j.adjust_target seekto)
  rcases models.seek_cases seekto with ⟨q, place, target⟩ | rejects
  · have same := target 0
    rw [result, Option.some.injEq] at same
    rw [same] at fpos
    have inside : ¬(slotList k.dev.buffer).sum ≤ q := by
      intro beyond
      rw [(Locate.locate_eq_none_iff _ _).mpr beyond] at place
      cases place
    have equal : q = j.target seekto := Int.ofNat_inj.mp fpos
    omega
  · have same := rejects 0
    rw [result, Option.some.injEq] at same
    rw [same] at fpos
    have zero : (0 : Int) = j.target seekto := fpos
    omega

end Reference

section Handler

def Latest (h : Handler) (log : List Event) : Prop :=
  ∀ result, (resultsOf log).getLast? = some result →
    result = (h.chunk, if h.seeks then some h.seekto else none)

/-- What the handler makes of its buffer after each result of `recv`. -/
def Interpreted (results : List (List Byte × Option Seekto)) : Prop :=
  List.Forall₂ Interprets (buffers emptyBuffer (results.map Prod.fst)) (results.map Prod.snd)

def Pc.Unmoved (pc : Pc) (s : Shared) : Prop :=
  pc.branch = some .seek → pc ≠ .opening .seek → pc.At s 0

theorem Advance.latest (step : Advance id h shared answer h' shared' event)
    (latest : Latest h log) : Latest h' (log ++ [event]) := by
  cases step with
  | recv bytes stack beyond here fits =>
    intro result last
    rw [resultsOf_snoc, Event.result, List.getLast?_concat, Option.some.injEq] at last
    rw [← last, receive_chunk]
  | _ =>
    intro result last
    exact latest result (by simpa [Event.result] using last)

theorem Advance.interpreted (step : Advance id h shared answer h' shared' event)
    (buffer : h.receiveBuffer = (chunksOf log).foldl overlay emptyBuffer)
    (interpreted : Interpreted (resultsOf log)) : Interpreted (resultsOf (log ++ [event])) := by
  cases step with
  | recv bytes stack beyond here fits =>
    have interprets : Interprets (overlay h.receiveBuffer bytes)
        (if (h.receive bytes stack beyond).seeks then
          some (h.receive bytes stack beyond).seekto else none) := by
      rw [Interprets]
      simp only [Handler.receive]
      split
      · exact ⟨stack, beyond, rfl⟩
      · rfl
    rw [buffer, chunksOf] at interprets
    rw [resultsOf_snoc, Event.result, Interpreted, List.map_append, List.map_append,
      List.map_singleton, List.map_singleton, buffers_snoc]
    exact List.rel_append interpreted (.cons interprets .nil)
  | _ => simpa [Event.result] using interpreted

theorem Pc.Unmoved.outside {pc : Pc} (outside : pc.branch ≠ some .seek) : pc.Unmoved shared :=
  fun inside => absurd inside outside

theorem nextIteration_branch (h : Handler) : h.nextIteration.pc.branch = none := by
  rcases nextIteration_pc h with next | ⟨_, next⟩ | ⟨_, next⟩ <;> rw [next] <;> rfl

theorem Pc.Unmoved.keep {pc : Pc} (unmoved : h.pc.Unmoved shared) (here : h.pc = pc)
    (opened : pc ≠ .opening .seek)
    (current : h'.pc.current shared'.dataFileDescriptor = pc.current shared.dataFileDescriptor)
    (branch : h'.pc.branch = pc.branch) (files : shared'.files = shared.files) :
    h'.pc.Unmoved shared' := by
  subst here
  intro inside _
  exact (unmoved (branch ▸ inside) opened).keep current files

theorem Advance.unmoved (step : Advance id h shared answer h' shared' event)
    (fine : event.failed = false) (unmoved : h.pc.Unmoved shared) : h'.pc.Unmoved shared' := by
  cases step with
  | recv bytes stack beyond here fits =>
    intro inside elsewhere
    have seeking : (h.receive bytes stack beyond).pc.stage = .seeking := stage_seeking.mpr inside
    rw [receive_stage] at seeking
    split at seeking
    · rename_i seeks
      exact absurd (by simp_all [Handler.receive]) elsewhere
    · cases seeking
  | opened phase n here free =>
    intro inside _
    cases phase with
    | seek => exact ⟨n, true, rfl, setFile_same _ _ _⟩
    | data | reply => cases inside
  | assign phase cur here =>
    exact unmoved.keep here Pc.noConfusion rfl (by cases phase <;> rfl) rfl
  | check phase here =>
    cases phase with
    | seek =>
      rw [here] at unmoved
      obtain ⟨n, writable, current, file⟩ := unmoved rfl Pc.noConfusion
      have known : shared.dataFileDescriptor = some n := current
      intro _ _
      exact ⟨n, writable, by rw [known]; rfl, file⟩
    | data => exact .outside (fun inside => by cases inside)
    | reply =>
      refine .outside ?_
      cases shared.dataFileDescriptor <;> exact fun inside => by cases inside
  | load use here =>
    exact unmoved.keep here Pc.noConfusion rfl (by cases use <;> rfl) rfl
  | lock phase here free | unlock phase here =>
    exact .outside (by cases phase <;> exact fun inside => by cases inside)
  | ioctl env cur here call | closeData cur here =>
    exact .outside (by rw [nextIteration_branch]; exact fun none => by cases none)
  | write env socket cur ok here call =>
    exact .outside (by cases ok <;> exact fun inside => by cases inside)
  | send count here =>
    refine .outside ?_
    dsimp only
    split <;> exact fun inside => by cases inside
  | openFailed phase here => cases fine
  | _ => exact .outside (fun inside => by cases inside)

theorem Advance.ends_seek (step : Advance id h shared answer h' shared' event)
    (seeking : h.pc.branch = some .seek) (next : h' = h.nextIteration) :
    ∃ cur, h.pc = .use .ioctl cur := by
  have stage : h.pc.stage = .seeking := stage_seeking.mpr seeking
  have ended : h'.pc.stage ≠ .seeking := by
    intro same
    have inside := stage_seeking.mp same
    rw [next, nextIteration_branch] at inside
    cases inside
  cases step.inputEffect with
  | receive bytes stack beyond given here fits next' same record =>
    rw [here] at stage
    cases stage
  | write env socket cur ok given here call next' record =>
    rw [here] at stage
    cases stage
  | seek cur here models next' record => exact ⟨cur, here⟩
  | refused here failed =>
    cases step with
    | check phase here' =>
      cases here.symm.trans here'
      have pc := congrArg Handler.pc next
      rw [failed] at pc
      rcases nextIteration_pc h with again | ⟨_, again⟩ | ⟨_, again⟩ <;> cases pc.trans again
    | _ => simp_all
  | quiet quiet models input same =>
    rcases same with same | ⟨settled, _⟩
    · exact absurd (same.trans stage) ended
    · cases stage.symm.trans settled

theorem Shared.ioctl_target {env : ReadEnv} {seekto : Seekto} {writable : Bool}
    (models : Models shared.kernel j) (undisturbed : env = .success)
    (file : shared.files n = some (.data 0 writable))
    (call : shared.ioctl env (some n) seekto = some shared') :
    shared'.files n = some (.data (j.target seekto) writable) ∧
      shared'.dataFileDescriptor = shared.dataFileDescriptor := by
  subst undisturbed
  obtain ⟨r, result, refines⟩ := aesdIoctl_refines models .success aesdcharIocseekto seekto 0
  have fpos : r.fpos = (j.adjust true seekto 0).fpos := refines.fpos
  simp only [Shared.ioctl, lookup_of_file file, result, Option.map_some, Option.some.injEq,
    Shared.returned] at call
  rw [← call, ← j.adjust_target seekto, ← fpos]
  exact ⟨setFile_same _ _ _, rfl⟩

end Handler

section Client

def Answer.undisturbed : Answer → Prop
  | .ioctl env => env = .success
  | _ => True

/-- The device has taken of the data what was received and is not still to be written. -/
def TakenUp (lines : Delimited.Assembly Byte) (results : List (List Byte × Option Seekto))
    (h : Handler) (s : Shared) : Prop :=
  ∃ taken, taken ++ Delimited.cut newline h.toWrite =
      ((routed results).map (Delimited.cut newline)).flatten ∧
    Models s.kernel (.ofAssembly (lines.feed newline taken))

def Journal.after (lines : Delimited.Assembly Byte) (log : List Event) : Journal :=
  .ofAssembly (takeUp lines (resultsOf log))

def sentFrom (lines : Delimited.Assembly Byte) (log : List Event) : List Byte :=
  (Journal.after lines log).content.take (startOf (.after lines log) (resultsOf log)) ++ sentOf log

/-- The stages of a client's service. -/
inductive Conversing (lines : Delimited.Assembly Byte) (h : Handler) (s : Shared)
    (log : List Event) : Prop
  | receiving (looping : h.pc.looping = true) (heard : h.pc.branch ≠ none → h.chunk ∈ chunksOf log)
      (silent : sentOf log = []) (taken : TakenUp lines (resultsOf log) h s)
  | replying (rank : Nat) (models : Models s.kernel (.after lines log))
      (replying : Replying (Journal.after lines log).content h s (sentFrom lines log) rank)
  | leaving (models : Models s.kernel (.after lines log)) (leaving : h.pc.leaving = true)
      (all : sentFrom lines log = (Journal.after lines log).content)

/-- What is known of the thread of a client at work. -/
structure Engaged (id : Nat) (lines : Delimited.Assembly Byte) (h : Handler) (s : Shared)
    (log : List Event) : Prop where
  poised : Poised id h s
  routed : h.Routed
  buffer : h.receiveBuffer = (chunksOf log).foldl overlay emptyBuffer
  interpreted : Interpreted (resultsOf log)
  latest : Latest h log
  unmoved : h.pc.Unmoved s
  conversing : Conversing lines h s log

/-- A step without a `recv` changes neither the lines nor the start of the reply. -/
theorem sentFrom_quiet (result : event.result = []) :
    sentFrom lines (log ++ [event]) = sentFrom lines log ++ event.sentBytes := by
  rw [sentFrom, sentFrom, Journal.after, resultsOf_snoc, result, List.append_nil, sentOf_snoc,
    List.append_assoc]
  rfl

theorem after_quiet (result : event.result = []) :
    Journal.after lines (log ++ [event]) = .after lines log := by
  rw [Journal.after, resultsOf_snoc, result, List.append_nil]
  rfl

/-- Between two iterations all that was received is taken up. -/
theorem TakenUp.settled (taken : TakenUp lines results h shared) (settled : h.toWrite = []) :
    Models shared.kernel (.ofAssembly (takeUp lines results)) := by
  obtain ⟨all, split, models⟩ := taken
  rw [settled, Delimited.cut, List.append_nil] at split
  rwa [split] at models

theorem Conversing.again (here : h.pc = .recv) (silent : sentOf log = [])
    (models : Models shared.kernel (.after lines log)) : Conversing lines h shared log := by
  refine .receiving (looping_recv here) ?_ silent ⟨_, ?_, models⟩
  · rw [here]
    exact fun inside => absurd rfl inside
  · rw [Handler.toWrite, here]
    exact List.append_nil _

theorem Latest.last (latest : Latest h log) (heard : h.chunk ∈ chunksOf log) :
    (resultsOf log).getLast? = some (h.chunk, if h.seeks then some h.seekto else none) := by
  cases last : (resultsOf log).getLast? with
  | none =>
    rw [chunksOf, List.getLast?_eq_none_iff.mp last] at heard
    cases heard
  | some result => rw [latest result last]

theorem Engaged.seek (engaged : Engaged id lines h shared log) {cur : Option Nat}
    (here : h.pc = .use .ioctl cur) (heard : h.chunk ∈ chunksOf log) (silent : sentOf log = [])
    (models : Models shared.kernel (.after lines log))
    (step : Advance id h shared answer h' shared' event) (undisturbed : answer.undisturbed)
    (next : h' = h.nextIteration) (result : event.result = []) (nothing : event.sentBytes = []) :
    Conversing lines h' shared' (log ++ [event]) := by
  have seeks : h.seeks = true := engaged.routed.1 (by rw [here]; rfl)
  have unmoved := engaged.unmoved
  rw [here] at unmoved
  obtain ⟨n, writable, current, file⟩ := unmoved rfl Pc.noConfusion
  have known : cur = some n := current
  have loaded := engaged.poised.loaded .ioctl cur here
  have last := engaged.latest.last heard
  rw [if_pos seeks] at last
  have call : ∃ env, answer = .ioctl env ∧ shared.ioctl env cur h.seekto = some shared' := by
    cases step with
    | ioctl env cur' here' call =>
      cases here.symm.trans here'
      exact ⟨env, rfl, call⟩
    | _ => simp_all
  obtain ⟨env, rfl, call⟩ := call
  rw [known] at call
  obtain ⟨file', same⟩ := Shared.ioctl_target models undisturbed file call
  have models' := (Shared.ioctl_frame call).2 _ models
  rw [next]
  by_cases ends : newline ∈ h.chunk
  · have pc : h.nextIteration.pc = .lock .reply := by
      simp [Handler.nextIteration, ends, seeks]
    have start : startOf (.after lines log) (resultsOf log) =
        (Journal.after lines log).target h.seekto := by simp [startOf, last]
    have inside := models.target_le h.seekto
    refine .replying (5 * ((Journal.after lines log).content.length -
      (Journal.after lines log).target h.seekto) + 5) (by rwa [after_quiet result]) ?_
    rw [after_quiet result, sentFrom_quiet result, nothing, List.append_nil]
    simp only [Replying, pc]
    refine ⟨_, ⟨n, writable, ?_, file'⟩, inside, ?_, rfl⟩
    · exact same.trans (loaded.trans known)
    · rw [sentFrom, silent, start, List.append_nil]
  · apply Conversing.again ((nextIteration_recv h).mpr ends)
    · rw [sentOf_snoc, silent, nothing]
      rfl
    · rwa [after_quiet result]

theorem Engaged.turn (engaged : Engaged id lines h shared log) (plain : h.pc.branch = some .data)
    (heard : h.chunk ∈ chunksOf log) (silent : sentOf log = [])
    (models : Models shared'.kernel (.after lines log)) (next : h' = h.nextIteration)
    (result : event.result = []) (nothing : event.sentBytes = []) :
    Conversing lines h' shared' (log ++ [event]) := by
  have seeks : h.seeks = false := engaged.routed.2 plain
  have last := engaged.latest.last heard
  rw [if_neg (by rw [seeks]; exact Bool.false_ne_true)] at last
  have start : startOf (.after lines log) (resultsOf log) = 0 := by simp [startOf, last]
  rw [next]
  by_cases ends : newline ∈ h.chunk
  · have pc : h.nextIteration.pc = .opening .reply := by
      simp [Handler.nextIteration, ends, seeks]
    refine .replying (5 * (Journal.after lines log).content.length + 8)
      (by rwa [after_quiet result]) ?_
    rw [after_quiet result, sentFrom_quiet result, nothing, List.append_nil]
    simp only [Replying, pc, and_true]
    rw [sentFrom, silent, start]
    rfl
  · apply Conversing.again ((nextIteration_recv h).mpr ends)
    · rw [sentOf_snoc, silent, nothing]
      rfl
    · rwa [after_quiet result]

theorem TakenUp.write {env : WriteEnv} {socket : Bool} {cur : Option Nat}
    (taken : TakenUp lines results h shared) (works : h.pc.Works shared)
    (here : h.pc = .use .write cur)
    (call : shared.write env socket cur h.chunk = some (true, shared')) :
    TakenUp lines results { h with pc := .unlock .data } shared' := by
  obtain ⟨front, split, models⟩ := taken
  have written : h.toWrite = h.chunk := if_pos (by rw [here]; rfl)
  rw [written] at split
  refine ⟨front ++ Delimited.cut newline h.chunk, ?_, ?_⟩
  · rw [← split]
    exact List.append_nil _
  · rcases Shared.write_journal models call with ⟨_, fill, after⟩ | ⟨failed, _⟩ | ⟨_, _, n, socket⟩
    · rwa [Journal.accept_feed, ← Delimited.feed_append] at after
    · cases failed
    · rw [here] at works
      obtain ⟨m, fpos, writable, mine, file, _⟩ := works rfl
      have given : cur = some m := mine
      rw [given, lookup_of_file file] at socket
      cases socket

/-- What the device has to take when a result of `recv` comes in. -/
theorem routed_snoc (results : List (List Byte × Option Seekto))
    (result : List Byte × Option Seekto) :
    ((routed (results ++ [result])).map (Delimited.cut newline)).flatten =
      ((routed results).map (Delimited.cut newline)).flatten ++
        if result.2 = none then Delimited.cut newline result.1 else [] := by
  obtain ⟨bytes, seek⟩ := result
  cases seek with
  | none => simp
  | some seekto => simp

theorem TakenUp.receive (taken : TakenUp lines results h shared) (here : h.pc = .recv)
    (bytes : List Byte) (stack : Seekto) (beyond : List Byte) :
    TakenUp lines
      (results ++ [(bytes, if (h.receive bytes stack beyond).seeks then
        some (h.receive bytes stack beyond).seekto else none)])
      (h.receive bytes stack beyond) shared := by
  obtain ⟨front, split, models⟩ := taken
  have settled : h.toWrite = [] := by
    rw [Handler.toWrite, here]
    rfl
  rw [settled, Delimited.cut, List.append_nil] at split
  refine ⟨front, ?_, models⟩
  rw [routed_snoc, split, Handler.toWrite, receive_stage, receive_chunk]
  cases (h.receive bytes stack beyond).seeks <;> rfl

theorem Engaged.receive (engaged : Engaged id lines h shared log) (looping : h.pc.looping = true)
    (heard : h.pc.branch ≠ none → h.chunk ∈ chunksOf log) (silent : sentOf log = [])
    (taken : TakenUp lines (resultsOf log) h shared)
    (step : Advance id h shared answer h' shared' event) (fine : event.failed = false)
    (undisturbed : answer.undisturbed) : Conversing lines h' shared' (log ++ [event]) := by
  have nothing := looping_silent looping step
  have still : sentOf (log ++ [event]) = [] := by
    rw [sentOf_snoc, silent, nothing, List.append_nil]
  cases step.turn with
  | receive bytes here inside depth chunk same result routing =>
    cases step with
    | recv bytes' stack beyond here' fits =>
      refine .receiving (looping_inside inside) ?_ still ?_
      · intro _
        rw [chunksOf_snoc, receive_chunk]
        exact List.mem_append_right _ (List.mem_singleton_self _)
      · rw [resultsOf_snoc]
        exact taken.receive here bytes' stack beyond
    | _ => simp_all [Event.result]
  | act before branch depth chunk result toWrite device =>
    obtain ⟨front, split, models⟩ := taken
    refine .receiving (looping_inside (branch ▸ before)) ?_ still ?_
    · intro _
      rw [chunksOf_quiet result, chunk]
      exact heard before
    · rw [resultsOf_snoc, result, List.append_nil]
      exact ⟨front, by rw [toWrite, split], device _ models⟩
  | write env socket cur here call next result =>
    subst next
    refine .receiving (looping_inside (Option.some_ne_none _)) ?_ still ?_
    · intro _
      rw [chunksOf_quiet result]
      exact heard (by rw [here]; exact Option.some_ne_none _)
    · rw [resultsOf_snoc, result, List.append_nil]
      exact taken.write engaged.poised.works here call
  | turn before next result settled device =>
    obtain ⟨phase, branch⟩ := Option.ne_none_iff_exists'.mp before
    have models := taken.settled settled
    rcases Pc.branch_cases branch with rfl | rfl
    · obtain ⟨cur, here⟩ := step.ends_seek branch next
      exact engaged.seek here (heard before) silent models step undisturbed next result nothing
    · exact engaged.turn branch (heard before) silent (device _ models) next result nothing
  | leave outside result cause =>
    rcases cause looping with failed | ⟨working, none⟩
    · cases fine.symm.trans failed
    · obtain ⟨n, _, _, known, _⟩ := engaged.poised.works working
      cases none.symm.trans known

theorem replying_result (outside : h.pc.looping = false)
    (step : Advance id h shared answer h' shared' event) : event.result = [] := by
  cases step with
  | recv bytes stack beyond here fits =>
    rw [here] at outside
    cases outside
  | _ => rfl

theorem leaving_looping {pc : Pc} (leaving : pc.leaving = true) : pc.looping = false := by
  unfold Pc.leaving at leaving
  split at leaving <;> first | rfl | cases leaving

theorem Conversing.step (engaged : Engaged id lines h shared log)
    (step : Advance id h shared answer h' shared' event) (healthy : event.healthy = true)
    (undisturbed : answer.undisturbed) : Conversing lines h' shared' (log ++ [event]) := by
  cases engaged.conversing with
  | receiving looping heard silent taken =>
    exact engaged.receive looping heard silent taken step (Event.healthy_fine healthy) undisturbed
  | replying rank models replying =>
    have after := step.kept (replying_outside replying.stage) models
    have result := replying_result (replying_looping replying.stage) step
    have loaded := fun cur here => engaged.poised.loaded .read cur here
    rcases replying.step models rfl loaded step healthy with ⟨rank', _, next⟩ | ⟨leaving, all⟩
    · refine .replying rank' (by rwa [after_quiet result]) ?_
      rwa [after_quiet result, sentFrom_quiet result]
    · refine .leaving (by rwa [after_quiet result]) leaving ?_
      rwa [after_quiet result, sentFrom_quiet result]
  | leaving models leaving all =>
    obtain ⟨still, nothing⟩ := leaving_step leaving step
    have result := replying_result (leaving_looping leaving) step
    refine .leaving ?_ still ?_
    · rw [after_quiet result]
      exact step.kept (leaving_outside leaving) models
    · rw [after_quiet result, sentFrom_quiet result, nothing, List.append_nil, all]

theorem Advance.buffer (step : Advance id h shared answer h' shared' event)
    (buffer : h.receiveBuffer = (chunksOf log).foldl overlay emptyBuffer) :
    h'.receiveBuffer = (chunksOf (log ++ [event])).foldl overlay emptyBuffer := by
  cases step with
  | recv bytes stack beyond here fits =>
    rw [chunksOf_snoc, Event.result, List.map_singleton, List.foldl_append, ← buffer]
    rfl
  | _ =>
    rw [chunksOf_quiet rfl]
    exact buffer

theorem Engaged.step (engaged : Engaged id lines h shared log)
    (step : Advance id h shared answer h' shared' event) (healthy : event.healthy = true)
    (undisturbed : answer.undisturbed) : Engaged id lines h' shared' (log ++ [event]) where
  poised := engaged.poised.step engaged.routed step (Event.healthy_fine healthy)
  routed := step.routed engaged.routed
  buffer := step.buffer engaged.buffer
  interpreted := step.interpreted engaged.buffer engaged.interpreted
  latest := step.latest engaged.latest
  unmoved := step.unmoved (Event.healthy_fine healthy) engaged.unmoved
  conversing := .step engaged step healthy undisturbed

end Client

section Session

/-- The process between two clients. -/
structure Waiting (s : Server) (lines : Delimited.Assembly Byte) : Prop where
  models : Models s.shared.kernel (.ofAssembly lines)
  roomy : s.shared.Roomy
  unlocked : s.shared.lock = none

/-- The run in which a client is accepted and its thread `id` works, while nobody else does. No
call fails, but a seek request may be refused for its numbers. -/
structure Converses (s₀ : Server) (id fd : Nat) (s : Server) (events : List Event) : Prop where
  run : ∃ answers : List Answer, (∀ answer ∈ answers, answer.undisturbed) ∧
    Transition.execute Server.step (.accept id fd :: answers.map (.run id)) s₀ =
      some (s, .accepted id fd :: events)
  healthy : ∀ event ∈ events, event.healthy = true

/-- Clients served one after another by a process on a fresh device. -/
inductive Conversation : List Exchange → Server → Prop
  | start : Conversation [] .initial
  | serve {exchanges : List Exchange} {s₀ s : Server} {id fd : Nat} {events : List Event}
      (conversation : Conversation exchanges s₀) (converses : Converses s₀ id fd s events)
      (ended : (s.handler id).pc.finished = true) :
      Conversation (exchanges ++ [⟨resultsOf events, sentOf events⟩]) s

/-- The reply loop, once reached, ends after finitely many steps, and no state of it is stuck. -/
structure RepliesEnd (s₀ : Server) (id fd : Nat) : Prop where
  exits : ∀ s events, Converses s₀ id fd s events → (s.handler id).pc.replying = true →
    ∃ bound, ∀ (answers : List Answer) s' later,
      Transition.execute Server.step (answers.map (.run id)) s = some (s', later) →
      (∀ event ∈ later, event.healthy = true) → (s'.handler id).pc.replying = true →
      later.length ≤ bound
  goesOn : ∀ s events, Converses s₀ id fd s events → (s.handler id).pc.replying = true →
    ∃ s' event, Converses s₀ id fd s' (events ++ [event])

theorem Engaged.start (waiting : Waiting s₀ lines) (id fd : Nat) :
    Engaged id lines (.fresh fd)
      { s₀.shared with files := setFile s₀.shared.files fd (some .socket) } [] where
  poised :=
    { device := ⟨_, waiting.models⟩
      roomy := waiting.roomy.opened fd _
      lock := waiting.unlocked
      works := .idle rfl
      loaded := fun use cur here => by cases here
      client := fun _ => setFile_same _ _ _ }
  routed := .outside rfl
  buffer := rfl
  interpreted := .nil
  latest result last := by cases last
  unmoved := .outside (fun inside => by cases inside)
  conversing := .again rfl rfl waiting.models

theorem Converses.engaged (waiting : Waiting s₀ lines) (converses : Converses s₀ id fd s events) :
    Engaged id lines (s.handler id) s.shared events := by
  obtain ⟨answers, undisturbed, run⟩ := converses.run
  obtain ⟨s₁, first, later, one, tail, same⟩ := Transition.execute_cons_iff.mp run
  rcases step_cases one with ⟨_, _, same', _, _, rfl, rfl⟩ | ⟨_, _, _, _, other, _⟩
  · cases same'
    cases same
    rw [execute_thread, update_handler, update_shared] at tail
    obtain ⟨⟨⟨h, shared⟩, events⟩, thread, outcome⟩ := Option.map_eq_some_iff.mp tail
    cases outcome
    rw [update_handler, update_shared]
    have guarded : Transition.Guarded (threadStep id) (fun answer _ => answer.undisturbed) answers
        (.fresh fd, { s₀.shared with files := setFile s₀.shared.files fd (some .socket) }) :=
      Transition.guarded_labels undisturbed _
    have engaged := guarded.history (fun (t : Handler × Shared) log =>
      (∀ event ∈ log, event.healthy = true) → Engaged id lines t.1 t.2 log) ?_ thread
      (fun _ => .start waiting id fd)
    · exact engaged converses.healthy
    · intro answer t log next event engaged undisturbed step healthy
      have before := engaged (fun e member => healthy e (List.mem_append_left _ member))
      exact before.step (threadStep_cases step) (healthy event (by simp)) undisturbed
  · cases other

theorem Conversing.replies (conversing : Conversing lines h shared log)
    (replying : h.pc.replying = true) : Models shared.kernel (.after lines log) ∧
      ∃ rank, Replying (Journal.after lines log).content h shared (sentFrom lines log) rank := by
  cases conversing with
  | receiving looping heard silent taken =>
    cases looping.symm.trans (replying_looping replying)
  | replying rank models replying => exact ⟨models, rank, replying⟩
  | leaving models leaving all => cases replying.symm.trans (leaving_replying leaving)

theorem Conversing.ended (conversing : Conversing lines h shared log)
    (ended : h.pc.finished = true) : Models shared.kernel (.after lines log) ∧
      h.pc.leaving = true ∧ sentOf log = replyTo lines (resultsOf log) := by
  have final : h.pc.looping = false ∧ h.pc.replying = false := by
    unfold Pc.finished at ended
    split at ended
    · rename_i here
      rw [here]
      exact ⟨rfl, rfl⟩
    · cases ended
  cases conversing with
  | receiving looping heard silent taken => cases looping.symm.trans final.1
  | replying rank models replying => cases replying.stage.symm.trans final.2
  | leaving models leaving all =>
    refine ⟨models, leaving, ?_⟩
    have split := List.take_append_drop (startOf (.after lines log) (resultsOf log))
      (Journal.after lines log).content
    exact List.append_cancel_left (all.trans split.symm)

theorem Converses.waiting (waiting : Waiting s₀ lines) (converses : Converses s₀ id fd s events)
    (ended : (s.handler id).pc.finished = true) :
    Waiting s (takeUp lines (resultsOf events)) ∧
      sentOf events = replyTo lines (resultsOf events) := by
  have engaged := converses.engaged waiting
  obtain ⟨models, leaving, all⟩ := engaged.conversing.ended ended
  have lock := engaged.poised.lock
  rw [leaving_critical leaving] at lock
  exact ⟨⟨models, engaged.poised.roomy, lock⟩, all⟩

theorem initial_waiting : Waiting .initial ⟨[], []⟩ where
  models := aesdInitModule_models
  roomy := ⟨0, fun _ _ => rfl⟩
  unlocked := rfl

variable {exchanges : List Exchange}

theorem Conversation.waiting (conversation : Conversation exchanges s) :
    Waiting s (linesAfter exchanges) := by
  induction conversation with
  | start => exact initial_waiting
  | serve conversation converses ended ih =>
    rw [linesAfter_snoc]
    exact (converses.waiting ih ended).1

/-- The device holds what the first `k` clients sent. -/
theorem Conversation.modelled (conversation : Conversation exchanges s) (k : Nat)
    (bound : k ≤ exchanges.length) :
    ∃ kernel, Models kernel (.ofAssembly (linesAfter (exchanges.take k))) := by
  induction conversation with
  | start =>
    rw [List.take_nil]
    exact ⟨_, initial_waiting.models⟩
  | @serve exchanges _ _ _ _ _ conversation converses ended ih =>
    by_cases earlier : k ≤ exchanges.length
    · rw [List.take_append_of_le_length earlier]
      exact ih earlier
    · rw [List.length_append, List.length_singleton] at bound
      rw [List.take_of_length_le (by simp; omega)]
      exact ⟨_, (Conversation.serve conversation converses ended).waiting.models⟩

/-- The service of one client, as the reference server has it. -/
theorem Conversation.replies (conversation : Conversation exchanges s) (k : Nat)
    (inside : k < exchanges.length) :
    Interpreted exchanges[k].results ∧
      exchanges[k].reply = replyTo (linesAfter (exchanges.take k)) exchanges[k].results := by
  induction conversation with
  | start => cases inside
  | @serve exchanges _ _ _ _ _ conversation converses ended ih =>
    by_cases earlier : k < exchanges.length
    · rw [List.getElem_append_left earlier, List.take_append_of_le_length (Nat.le_of_lt earlier)]
      exact ih earlier
    · have last : k = exchanges.length := by
        rw [List.length_append, List.length_singleton] at inside
        omega
      subst last
      rw [List.getElem_concat_length rfl, List.take_left]
      exact ⟨(converses.engaged conversation.waiting).interpreted,
        (converses.waiting conversation.waiting ended).2⟩

theorem Converses.snoc (converses : Converses s₀ id fd s events)
    (step : Advance id (s.handler id) s.shared answer h' shared' event)
    (healthy : event.healthy = true) (undisturbed : answer.undisturbed) :
    Converses s₀ id fd (s.update id h' shared') (events ++ [event]) where
  run := by
    obtain ⟨answers, earlier, run⟩ := converses.run
    refine ⟨answers ++ [answer], ?_, ?_⟩
    · intro other member
      rcases List.mem_append.mp member with before | last
      · exact earlier other before
      · rwa [List.mem_singleton.mp last]
    · rw [List.map_append]
      exact Transition.execute_snoc_iff.mpr ⟨s, run, step.served⟩
  healthy := by
    intro e member
    rcases List.mem_append.mp member with before | last
    · exact converses.healthy e before
    · rwa [List.mem_singleton.mp last]

theorem Converses.goesOn (engaged : Engaged id lines (s.handler id) s.shared events)
    (converses : Converses s₀ id fd s events) (replying : (s.handler id).pc.replying = true) :
    ∃ s' event, Converses s₀ id fd s' (events ++ [event]) := by
  have elsewhere : (s.handler id).pc ≠ .idle ∧ (s.handler id).pc.finished = false ∧
      ∀ use cur, (s.handler id).pc = .use use cur → use = .read := by
    unfold Pc.replying at replying
    split at replying
    case h_9 => cases replying
    all_goals
      rename_i here
      rw [here]
      refine ⟨Pc.noConfusion, rfl, fun use cur same => ?_⟩
      cases same <;> rfl
  obtain ⟨started, running, reading⟩ := elsewhere
  obtain ⟨answer, h', shared', event, one, healthy, _⟩ :=
    engaged.poised.progress started running [] (Nat.zero_le _)
      (fun cur here => by cases reading _ cur here)
  have step := threadStep_cases one
  refine ⟨_, event, converses.snoc step healthy ?_⟩
  cases step with
  | ioctl env cur here call => cases reading _ cur here
  | _ => trivial

theorem Waiting.repliesEnd (waiting : Waiting s₀ lines) : RepliesEnd s₀ id fd where
  exits := by
    intro s events converses replying
    have engaged := converses.engaged waiting
    obtain ⟨models, rank, replying⟩ := engaged.conversing.replies replying
    refine ⟨rank, fun answers s' later run healthy still => ?_⟩
    rw [execute_thread] at run
    obtain ⟨⟨⟨h, shared⟩, later⟩, thread, outcome⟩ := Option.map_eq_some_iff.mp run
    cases outcome
    rw [update_handler] at still
    exact replying.run models engaged.poised engaged.routed thread healthy still
  goesOn s events converses replying := converses.goesOn (converses.engaged waiting) replying

/-- Clients that send anything, one after another, get the replies of the reference server, and
the reply loop of the next one ends. -/
theorem conversation_replies (conversation : Conversation exchanges s) :
    (∀ k (inside : k < exchanges.length), Interpreted exchanges[k].results ∧
      exchanges[k].reply = replyTo (linesAfter (exchanges.take k)) exchanges[k].results) ∧
    ∀ id fd, RepliesEnd s id fd :=
  ⟨conversation.replies, fun _ _ => conversation.waiting.repliesEnd⟩

theorem Conversation.next {last : Server × List Event} (conversation : Conversation exchanges s₀)
    (undisturbed : ∀ answer ∈ answers, answer.undisturbed)
    (run : Transition.execute Server.step (.accept id fd :: answers.map (.run id)) s₀ = some last)
    (first : last.2.take 1 = [.accepted id fd]) (healthy : last.2.tail.all Event.healthy = true)
    (ended : (last.1.handler id).pc.finished = true) :
    Conversation (exchanges ++ [⟨resultsOf last.2.tail, sentOf last.2.tail⟩]) last.1 := by
  obtain ⟨s, events⟩ := last
  obtain ⟨later, rfl⟩ : ∃ later, events = .accepted id fd :: later :=
    ⟨events.tail, by rw [← List.take_append_drop 1 events, first]; rfl⟩
  exact .serve conversation ⟨⟨answers, undisturbed, run⟩, List.all_eq_true.mp healthy⟩ ended

def seekByte : List Byte := ioctlStr ++ [48, 44, 49, newline]

/-- The first client sends "ab\n", the second one the seek request. -/
def answersLine : List Answer := lineTaken [97, 98, newline] 5 3 ++ replyEnded

def answersSeek : List Answer :=
  [.recv (some seekByte) ⟨0, 0⟩ [], .opened (some 5), .quiet, .quiet, .quiet, .ioctl .success,
    .quiet, .quiet, .read .success none, .quiet, .send (some 2)] ++ replyEnded

def seekExchanges : List Exchange :=
  [⟨[([97, 98, newline], none)], [97, 98, newline]⟩, ⟨[(seekByte, some ⟨0, 1⟩)], [98, newline]⟩]

theorem seek_outcome :
    ((Transition.execute Server.step (.accept 0 4 :: answersLine.map (.run 0)) .initial).bind
      fun one =>
        (Transition.execute Server.step (.accept 1 4 :: answersSeek.map (.run 1)) one.1).map
          fun two => [(0, one), (1, two)].map fun (id, last) =>
            (last.2.take 1, last.2.tail.all Event.healthy, (last.1.handler id).pc.finished,
              (⟨resultsOf last.2.tail, sentOf last.2.tail⟩ : Exchange))) =
    some [([.accepted 0 4], true, true, ⟨[([97, 98, newline], none)], [97, 98, newline]⟩),
      ([.accepted 1 4], true, true, ⟨[(seekByte, some ⟨0, 1⟩)], [98, newline]⟩)] := by
  decide +kernel

theorem seek_conversation : ∃ s, Conversation seekExchanges s := by
  obtain ⟨one, first, rest⟩ := Option.bind_eq_some_iff.mp seek_outcome
  obtain ⟨two, second, services⟩ := Option.map_eq_some_iff.mp rest
  simp only [List.map_cons, List.map_nil, List.cons.injEq, Prod.mk.injEq, and_true] at services
  obtain ⟨⟨accepted, healthy, ended, exchange⟩, accepted', healthy', ended', exchange'⟩ := services
  have undisturbed : ∀ answer ∈ answersLine, answer.undisturbed := by
    simp [answersLine, lineTaken, replyEnded, Answer.undisturbed]
  have undisturbed' : ∀ answer ∈ answersSeek, answer.undisturbed := by
    simp [answersSeek, replyEnded, Answer.undisturbed]
  have conversation := (Conversation.start.next undisturbed first accepted healthy ended).next
    undisturbed' second accepted' healthy' ended'
  rw [exchange, exchange'] at conversation
  exact ⟨two.1, conversation⟩

theorem conversation_replies_seek :
    ∃ s, Conversation seekExchanges s ∧
      [98, newline] = replyTo ⟨[[97, 98, newline]], []⟩ [(seekByte, some ⟨0, 1⟩)] ∧
      RepliesEnd s 2 4 := by
  obtain ⟨s, conversation⟩ := seek_conversation
  obtain ⟨replies, ends⟩ := conversation_replies conversation
  exact ⟨s, conversation, (replies 1 (by decide)).2, ends 2 4⟩

end Session

end Aesd
