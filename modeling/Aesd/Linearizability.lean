import Aesd.Concurrency

/-! With one call at a time on each file, file operations at the same time are those of some order
of whole operations. -/
namespace Aesd

open Linearization (Event Exclusive Linearizes Recorded Stage State)

variable {s : System} {o o' : AtomicSystem} {l : State Driver Nat Call Reply} {c : Call}
  {thread : Nat} {k : Kernel} {r : Return} {fpos : Int} {seek : Int → Int → Int → Int → Int}
  {moves : List Move} {events : List (Option (Event Nat Call Reply))}

def Call.SameFile (c c' : Call) : Prop := c.file = c'.file

instance : DecidableRel Call.SameFile := fun c c' => inferInstanceAs (Decidable (c.file = c'.file))

def Progress.call : Progress → Call
  | .begun c _ | .done c _ => c

/-- Where the call leaves its file if it takes no other effect. -/
def Progress.position (fpos : Nat → Int) : Progress → Int
  | .begun c _ => fpos c.file
  | .done c result => c.storeBack result fpos c.file

def Progress.stage : Option Progress → Stage Call Reply
  | none => .idle
  | some (.begun c _) => .called c
  | some (.done c result) => .effected c ⟨result.ret, result.delivered⟩

/-- With one call at a time on each file, nobody sees whether a position is stored at once or when
the call returns. -/
structure Follows (o : AtomicSystem) (l : State Driver Nat Call Reply) : Prop where
  kernel : l.object.kernel = o.kernel
  stage : ∀ thread, l.stage thread = Progress.stage (o.progress thread)
  apart : ∀ thread thread' p p', o.progress thread = some p → o.progress thread' = some p' →
    p.call.SameFile p'.call → thread = thread'
  copy : ∀ thread c copy, o.progress thread = some (.begun c copy) → c.seeks = false →
    copy = o.fpos c.file
  busy : ∀ thread p, o.progress thread = some p → l.object.fpos p.call.file = p.position o.fpos
  idle : ∀ file, (∀ thread p, o.progress thread = some p → p.call.file ≠ file) →
    l.object.fpos file = o.fpos file

theorem initial_follows : Follows .initial (State.initial Driver.initial) where
  kernel := rfl
  stage _ := rfl
  apart _ _ _ _ here := by cases here
  copy _ _ _ here := by cases here
  busy _ _ here := by cases here
  idle _ _ := rfl

theorem storeBack_other {fpos : Nat → Int} {result : Result} {other : Nat}
    (different : other ≠ c.file) : c.storeBack result fpos other = fpos other := by
  unfold Call.storeBack
  split
  · exact setFpos_other different
  · rfl

theorem Progress.position_congr {p : Progress} {fpos fpos' : Nat → Int}
    (same : fpos' p.call.file = fpos p.call.file) : p.position fpos' = p.position fpos := by
  cases p with
  | begun c copy => exact same
  | done c result =>
    simp only [position, Call.storeBack]
    split
    · simp
    · exact same

theorem Follows.call (follows : Follows o l) {before : List (Event Nat Call Reply)}
    (recorded : Recorded (perform seek) Driver.initial l before)
    (admitted : (Event.call thread c : Event Nat Call Reply).Admitted Call.SameFile before)
    (idle : o.progress thread = none) :
    Follows { o with
        progress := Function.update o.progress thread (some (.begun c (o.fpos c.file))) }
      { l with stage := Function.update l.stage thread (.called c) } := by
  have free : ∀ other p, o.progress other = some p → p.call.file ≠ c.file := by
    intro other p there same
    have runs : Linearization.running other before = some p.call := by
      rw [(recorded.now other).running, follows.stage, there]
      cases p <;> rfl
    exact admitted.call runs same.symm
  refine ⟨follows.kernel, ?_, ?_, ?_, ?_, ?_⟩
  · intro other
    by_cases same : other = thread
    · subst same
      simp only [Function.update_self, Progress.stage]
    · simp only [Function.update_of_ne same]
      exact follows.stage other
  · intro first second p p' given given' same
    rcases update_cases given with ⟨rfl, begun⟩ | ⟨_, there⟩
    · cases begun
      rcases update_cases given' with ⟨rfl, _⟩ | ⟨_, there'⟩
      · rfl
      · exact absurd same.symm (free second p' there')
    · rcases update_cases given' with ⟨rfl, begun⟩ | ⟨_, there'⟩
      · cases begun
        exact absurd same (free first p there)
      · exact follows.apart first second p p' there there' same
  · intro other c' copy given copies
    rcases update_cases given with ⟨rfl, begun⟩ | ⟨_, there⟩
    · cases begun
      rfl
    · exact follows.copy other c' copy there copies
  · intro other p given
    rcases update_cases given with ⟨rfl, begun⟩ | ⟨_, there⟩
    · cases begun
      exact follows.idle c.file free
    · exact follows.busy other p there
  · intro file unused
    apply follows.idle
    intro other p there
    apply unused other p
    have different : other ≠ thread := by
      rintro rfl
      rw [idle] at there
      cases there
    exact (Function.update_of_ne different ..).trans there

theorem Follows.operate (follows : Follows o l) {copy : Int}
    (here : o.progress thread = some (.begun c copy))
    (operated : c.operate seek (c.position o.fpos copy) o.kernel = some r) :
    perform seek c l.object =
        some (⟨r.kernel, setFpos l.object.fpos c.file r.fpos⟩, ⟨r.ret, r.delivered⟩) ∧
      Follows
        { kernel := r.kernel
          fpos := if c.seeks then setFpos o.fpos c.file r.fpos else o.fpos
          progress := Function.update o.progress thread
            (some (.done c ⟨r.ret, r.fpos, r.delivered⟩)) }
        ⟨⟨r.kernel, setFpos l.object.fpos c.file r.fpos⟩,
          Function.update l.stage thread (.effected c ⟨r.ret, r.delivered⟩),
          l.log ++ [⟨thread, c, ⟨r.ret, r.delivered⟩⟩]⟩ := by
  have position : c.position o.fpos copy = o.fpos c.file := by
    unfold Call.position
    split
    · rfl
    · exact follows.copy thread c copy here (by simpa using ‹¬c.seeks = true›)
  have held : l.object.fpos c.file = o.fpos c.file := follows.busy thread _ here
  rw [position] at operated
  have others : ∀ other p, other ≠ thread → o.progress other = some p → p.call.file ≠ c.file :=
    fun other p different there same => different (follows.apart other thread _ _ there here same)
  have kept : ∀ file, file ≠ c.file →
      (if c.seeks then setFpos o.fpos c.file r.fpos else o.fpos) file = o.fpos file := by
    intro file different
    split
    · exact setFpos_other different
    · rfl
  constructor
  · rw [perform, held, follows.kernel, operated, Option.map_some]
  refine ⟨rfl, ?_, ?_, ?_, ?_, ?_⟩
  · intro other
    by_cases same : other = thread
    · subst same
      simp only [Function.update_self, Progress.stage]
    · simp only [Function.update_of_ne same]
      exact follows.stage other
  · intro first second p p' given given' same
    rcases update_cases given with ⟨rfl, done⟩ | ⟨different, there⟩
    · cases done
      rcases update_cases given' with ⟨rfl, _⟩ | ⟨different', there'⟩
      · rfl
      · exact absurd same.symm (others second p' different' there')
    · rcases update_cases given' with ⟨rfl, done⟩ | ⟨_, there'⟩
      · cases done
        exact absurd same (others first p different there)
      · exact follows.apart first second p p' there there' same
  · intro other c' copy' given copies
    rcases update_cases given with ⟨rfl, done⟩ | ⟨different, there⟩
    · cases done
    · have same := follows.copy other c' copy' there copies
      exact same.trans (kept _ (others other _ different there)).symm
  · intro other p given
    rcases update_cases given with ⟨rfl, done⟩ | ⟨different, there⟩
    · cases done
      simp only [Progress.call, Progress.position, setFpos_same, Call.storeBack]
      cases seeks : c.seeks with
      | true => simp
      | false =>
        by_cases success : 0 ≤ r.ret
        · simp [success]
        · simp only [success, and_false, if_false, Bool.false_eq_true]
          exact operate_failed operated seeks (Int.not_le.mp success)
    · have elsewhere := others other p different there
      simp only [setFpos_other elsewhere]
      rw [follows.busy other p there]
      exact (Progress.position_congr (kept _ elsewhere)).symm
  · intro file unused
    have elsewhere : file ≠ c.file := by
      rintro rfl
      exact unused thread _ (Function.update_self ..) rfl
    simp only [setFpos_other elsewhere, kept file elsewhere]
    apply follows.idle
    intro other p there
    by_cases same : other = thread
    · subst same
      rw [here, Option.some.injEq] at there
      rw [← there]
      exact elsewhere.symm
    · apply unused other p
      exact (Function.update_of_ne same ..).trans there

theorem Follows.ret (follows : Follows o l) {result : Result}
    (here : o.progress thread = some (.done c result)) :
    Follows { o with
        fpos := c.storeBack result o.fpos
        progress := Function.update o.progress thread none }
      { l with stage := Function.update l.stage thread .idle } := by
  have others : ∀ other p, other ≠ thread → o.progress other = some p → p.call.file ≠ c.file :=
    fun other p different there same => different (follows.apart other thread _ _ there here same)
  refine ⟨follows.kernel, ?_, ?_, ?_, ?_, ?_⟩
  · intro other
    by_cases same : other = thread
    · subst same
      simp only [Function.update_self, Progress.stage]
    · simp only [Function.update_of_ne same]
      exact follows.stage other
  · intro first second p p' given given' same
    rcases update_cases given with ⟨_, gone⟩ | ⟨_, there⟩
    · cases gone
    · rcases update_cases given' with ⟨_, gone⟩ | ⟨_, there'⟩
      · cases gone
      · exact follows.apart first second p p' there there' same
  · intro other c' copy given copies
    rcases update_cases given with ⟨_, gone⟩ | ⟨different, there⟩
    · cases gone
    · have same := follows.copy other c' copy there copies
      exact same.trans (storeBack_other (others other _ different there)).symm
  · intro other p given
    rcases update_cases given with ⟨_, gone⟩ | ⟨different, there⟩
    · cases gone
    · rw [follows.busy other p there]
      exact (Progress.position_congr (storeBack_other (others other p different there))).symm
  · intro file unused
    by_cases same : file = c.file
    · rw [same]
      exact follows.busy thread _ here
    · refine (follows.idle file ?_).trans (storeBack_other same).symm
      intro other p there
      by_cases same' : other = thread
      · subst same'
        rw [here, Option.some.injEq] at there
        rw [← there]
        exact Ne.symm same
      · apply unused other p
        exact (Function.update_of_ne same' ..).trans there

theorem Follows.step (follows : Follows o l) {before : List (Event Nat Call Reply)}
    {move : AtomicMove} {event : Option (Event Nat Call Reply)}
    (recorded : Recorded (perform seek) Driver.initial l before)
    (admitted : ∀ e ∈ event, e.Admitted Call.SameFile before)
    (one : AtomicSystem.step seek move o = some (o', event)) :
    ∃ action l', Linearization.step (perform seek) action l = some (l', event) ∧
      Follows o' l' := by
  cases move with
  | call thread c =>
    simp only [AtomicSystem.step] at one
    split at one
    · rename_i idle
      cases one
      refine ⟨.call thread c, _, ?_, follows.call recorded (admitted _ rfl) idle⟩
      simp only [Linearization.step, follows.stage, idle, Progress.stage]
    · contradiction
  | operate thread =>
    simp only [AtomicSystem.step] at one
    split at one
    · rename_i c copy here
      obtain ⟨r, operated, same⟩ := Option.map_eq_some_iff.mp one
      cases same
      obtain ⟨performed, after⟩ := follows.operate here operated
      refine ⟨.effect thread, _, ?_, after⟩
      simp only [Linearization.step, follows.stage, here, Progress.stage, performed,
        Option.map_some]
    · contradiction
  | ret thread =>
    simp only [AtomicSystem.step] at one
    split at one
    · rename_i c result here
      cases one
      refine ⟨.ret thread, _, ?_, follows.ret here⟩
      simp only [Linearization.step, follows.stage, here, Progress.stage]
    · contradiction

/-- As long as each file has one call at a time, the calls and returns that can be seen are those
of some order of whole calls of the driver's functions, each between its call and its return; and
when all have returned, the device and the file positions are as that order leaves them. -/
theorem calls_linearizable
    (run : Transition.execute (System.step seek) moves .initial = some (s, events))
    (exclusive : Exclusive Call.SameFile [] events.reduceOption) :
    ∃ ops d, Linearizes (perform seek) Driver.initial events.reduceOption ops ∧
      Transition.execute (perform seek) (ops.map (·.command)) Driver.initial =
        some (d, ops.map (·.reply)) ∧
      (s.Quiet → ∃ j, Models s.kernel j ∧ Models d.kernel j ∧ s.fpos = d.fpos) := by
  obtain ⟨steps, o, shows, atomic, same, j, assembling, simulates⟩ := System.simulated run
  rw [← same] at exclusive ⊢
  obtain ⟨l, follows, recorded⟩ := Linearization.recorded_of_simulation Follows
    (fun _ _ _ _ _ _ follows recorded admitted one => follows.step recorded admitted one)
    atomic initial_follows exclusive
  refine ⟨l.log, l.object, recorded.linearizes, recorded.legal, ?_⟩
  intro quiet
  refine ⟨j, ?_, ?_, ?_⟩
  · cases simulates.coherent.device with
    | free models => exact models
    | held thread task _ here =>
      rw [quiet thread] at here
      cases here
  · rw [follows.kernel]
    exact simulates.models
  · rw [← simulates.fpos]
    funext file
    refine (follows.idle file ?_).symm
    intro thread p here
    rw [simulates.progress, quiet thread] at here
    cases here

/-- Two writes that overlap: both have their private copy before one takes the lock. -/
def overlap : List Move :=
  [.call 0 (.write 0 .success true (some [97])), .call 1 (.write 1 .success true (some [98, 10])),
    .step 0, .step 1, .step 0, .step 1] ++ List.replicate 7 (.step 1) ++ List.replicate 7 (.step 0)

theorem calls_linearizable_overlap :
    ∃ s events, Transition.execute (System.step fun _ _ _ _ => 0) overlap .initial =
        some (s, events) ∧ Exclusive Call.SameFile [] events.reduceOption ∧
      ∃ ops d, Linearizes (perform fun _ _ _ _ => 0) Driver.initial events.reduceOption ops ∧
        Transition.execute (perform fun _ _ _ _ => 0) (ops.map (·.command)) Driver.initial =
          some (d, ops.map (·.reply)) ∧
        (s.Quiet → ∃ j, Models s.kernel j ∧ Models d.kernel j ∧ s.fpos = d.fpos) := by
  have runs : (Transition.execute (System.step fun _ _ _ _ => 0) overlap .initial).any
      (fun r => decide (Exclusive Call.SameFile [] r.2.reduceOption)) = true := by
    decide +kernel
  obtain ⟨⟨s, events⟩, run, exclusive⟩ := (Option.any_eq_true _ _).mp runs
  have exclusive := of_decide_eq_true exclusive
  exact ⟨s, events, run, exclusive, calls_linearizable run exclusive⟩

end Aesd
