import Aesd.Concurrency

/-! A call during which no other call makes a step: its steps, one after the other, are the
driver's function. -/
namespace Aesd

open Linearization (Event)

variable {s : System} {c : Call} {place next : Place} {k kernel : Kernel} {thread file n : Nat}
  {r : Return} {copy : Int}
  {seek : Int → Int → Int → Int → Int} {fpos : Int} {result : Result} {p : Pointer}

/-- At most `n` steps of a call from a place on, and what it returns. -/
def Call.finish (fixedSizeLlseek : Int → Int → Int → Int → Int) (c : Call) (fpos : Int) :
    Nat → Place → Kernel → Option Return
  | 0, _, _ => none
  | n + 1, place, k =>
    match place with
    | .waiting writeData =>
      if c.locked then do
        let dev ← mutexLock k.dev
        c.finish fixedSizeLlseek fpos n (.locked writeData) { k with dev }
      else c.finish fixedSizeLlseek fpos n (.returning ⟨-erestartsys, fpos, []⟩) k
    | .unlocking result =>
      c.finish fixedSizeLlseek fpos n (.returning result) { k with dev := mutexUnlock k.dev }
    | .returning result => some ⟨result.ret, result.fpos, result.delivered, k⟩
    | .faulted => none
    | place => do
      let (k, place) ← c.advance fixedSizeLlseek fpos place k
      c.finish fixedSizeLlseek fpos n place k

section Places

/-- The places whose step neither takes nor gives back the lock, nor ends the call. -/
def Place.plain : Place → Bool
  | .waiting _ | .unlocking _ | .returning _ | .faulted => false
  | _ => true

theorem Call.finish_plain (plain : place.plain = true) :
    c.finish seek fpos (n + 1) place k =
      (c.advance seek fpos place k).bind fun next => c.finish seek fpos n next.2 next.1 := by
  cases place with
  | waiting _ => cases plain
  | unlocking _ => cases plain
  | returning _ => cases plain
  | faulted => cases plain
  | _ => rfl

theorem Call.finish_granted (granted : c.locked = true) :
    c.finish seek fpos (n + 1) (.waiting p) k =
      (mutexLock k.dev).bind fun dev => c.finish seek fpos n (.locked p) { k with dev } :=
  if_pos granted

theorem Call.finish_interrupted (interrupted : ¬c.locked = true) :
    c.finish seek fpos (n + 2) (.waiting p) k = some ⟨-erestartsys, fpos, [], k⟩ :=
  if_neg interrupted

end Places

section Functions

theorem read_finish (env : ReadEnv) (filp buf : Bool) (count : Nat) :
    aesdRead env filp buf count fpos k =
      (Call.read file env filp buf count).finish seek fpos 9 .enter k := by
  rw [Call.finish_plain rfl]
  simp only [Call.advance, aesdReadStep, Option.bind_some, aesdRead]
  by_cases given : (filp && buf) = true
  · simp only [if_pos given]
    by_cases locked : env.locked = true
    · rw [if_pos locked, Call.finish_granted (c := .read file env filp buf count) locked]
      cases mutexLock k.dev with
      | none => rfl
      | some dev =>
        rw [Option.bind_some, Call.finish_plain rfl]
        simp only [Call.advance, aesdReadStep, Option.bind_eq_bind, Option.bind_some]
        cases aesdCircularBufferFindEntryOffsetForFpos dev.buffer (sizeOfLoff fpos) 0 with
        | mk slot byteOffset =>
          cases slot with
          | none => rfl
          | some i =>
            simp only [Option.bind_some]
            rw [Call.finish_plain rfl]
            simp only [Call.advance, aesdReadStep, Option.bind_eq_bind]
            cases k.heap.load (dev.buffer.get i).buffptr byteOffset
                (min (sizeSub (dev.buffer.get i).size byteOffset) count) with
            | none => rfl
            | some bytes =>
              simp only [Option.bind_some]
              by_cases copied : env.copied = true
              · simp only [if_pos copied]
                rfl
              · simp only [if_neg copied]
                rfl
    · rw [if_neg locked, Call.finish_interrupted (c := .read file env filp buf count) locked]
  · simp only [if_neg given]
    rfl

theorem llseek_finish (locked : Bool) (offset whence : Int) :
    aesdLlseek seek locked offset whence fpos k =
      (Call.llseek file locked offset whence).finish seek fpos 9 .enter k := by
  rw [Call.finish_plain rfl]
  simp only [Call.advance, aesdLlseekStep, Option.bind_some, aesdLlseek]
  by_cases granted : locked = true
  · rw [if_pos granted, Call.finish_granted (c := .llseek file locked offset whence) granted]
    cases mutexLock k.dev with
    | none => rfl
    | some dev => rfl
  · rw [if_neg granted, Call.finish_interrupted (c := .llseek file locked offset whence) granted]

theorem adjust_finish (env : ReadEnv) (cmd : Nat) (arg : Seekto) :
    aesdAdjustFileOffset env.locked arg fpos k =
      (Call.ioctl file env cmd arg).finish seek fpos 8 (.waiting none) k := by
  unfold aesdAdjustFileOffset
  by_cases locked : env.locked = true
  · rw [if_pos locked, Call.finish_granted (c := .ioctl file env cmd arg) locked]
    cases mutexLock k.dev with
    | none => rfl
    | some dev =>
      rw [Option.bind_some, Call.finish_plain rfl]
      simp only [Call.advance, aesdIoctlStep, aesdAdjustFileOffsetStep, Option.bind_eq_bind,
        Option.bind_some]
      by_cases slot : maxWriteOperations ≤ arg.writeCmd.toNat
      · simp only [if_pos slot]
        rfl
      · simp only [if_neg slot]
        by_cases offset : (dev.buffer.get arg.writeCmd.toNat).size ≤ arg.writeCmdOffset.toNat
        · simp only [if_pos offset]
          rfl
        · simp only [if_neg offset]
          rfl
  · rw [if_neg locked, Call.finish_interrupted (c := .ioctl file env cmd arg) locked]

theorem ioctl_finish (env : ReadEnv) (cmd : Nat) (arg : Seekto) :
    aesdIoctl env cmd arg fpos k =
      (Call.ioctl file env cmd arg).finish seek fpos 9 .enter k := by
  rw [Call.finish_plain rfl]
  simp only [Call.advance, aesdIoctl, aesdIoctlStep]
  by_cases foreign : iocType cmd ≠ aesdIocMagic ∨ aesdcharIocMaxnr < iocNr cmd
  · simp only [if_pos foreign]
    rfl
  · simp only [if_neg foreign]
    by_cases known : cmd = aesdcharIocseekto
    · simp only [if_pos known]
      by_cases copied : env.copied = true
      · simp only [if_pos copied]
        exact adjust_finish env cmd arg
      · simp only [if_neg copied]
        rfl
    · simp only [if_neg known]
      rfl

theorem writeLocked_finish (env : WriteEnv) (bytes : List Byte) (a : Nat)
    (locked : env.locked = true) :
    aesdWriteLocked env (some a) bytes.length fpos k =
      (Call.write file env true (some bytes)).finish seek fpos 7 (.waiting (some a)) k := by
  rw [Call.finish_granted (c := .write file env true (some bytes)) locked]
  simp only [aesdWriteLocked]
  cases mutexLock k.dev with
  | none => rfl
  | some dev =>
    rw [Option.bind_some, Call.finish_plain rfl]
    simp only [Call.advance, aesdWriteStep, Option.bind_eq_bind, Option.bind_some]
    cases k.heap.load (some a) 0 bytes.length with
    | none => rfl
    | some data =>
      simp only [Option.bind_some]
      cases reserve env dev bytes.length (appendIndex data) k.heap with
      | none => rfl
      | some reserved =>
        obtain ⟨writeBuffer, heap⟩ := reserved
        cases writeBuffer with
        | none =>
          simp only [Option.bind_some]
          rw [Call.finish_plain rfl]
          simp only [Call.advance, aesdWriteStep]
          cases kfree (some a) heap with
          | none => rfl
          | some heap => rfl
        | some w =>
          simp only [Option.bind_some]
          rw [Call.finish_plain rfl]
          simp only [Call.advance, aesdWriteStep, Option.bind_eq_bind]
          cases heap.load (some a) 0 (appendIndex data) with
          | none => rfl
          | some source =>
            simp only [Option.bind_some]
            cases memcpy (some w) dev.writeBufferSize source heap with
            | none => rfl
            | some heap =>
              simp only [Option.bind_some]
              rw [Call.finish_plain rfl]
              simp only [Call.advance, aesdWriteStep]
              cases commitIf (scanNewline data 0).2 ⟨heap, { dev with
                  writeBuffer := some w
                  writeBufferSize := dev.writeBufferSize + appendIndex data }⟩ with
              | none => rfl
              | some k =>
                simp only [Option.bind_some, Option.map_some]
                rw [Call.finish_plain rfl]
                simp only [Call.advance, aesdWriteStep]
                cases kfree (some a) k.heap with
                | none => rfl
                | some heap => rfl

theorem write_finish (env : WriteEnv) (filp : Bool) (buf : Option (List Byte)) :
    aesdWrite env filp buf fpos k =
      (Call.write file env filp buf).finish seek fpos 9 .enter k := by
  rcases filp with _ | _
  · rfl
  rcases buf with _ | bytes
  · rfl
  rw [Call.finish_plain rfl]
  simp only [Call.advance, aesdWrite, aesdWriteStep]
  cases kmalloc env.data bytes.length k.heap with
  | mk writeData heap =>
    cases writeData with
    | none => rfl
    | some a =>
      simp only [Option.bind_some]
      rw [Call.finish_plain rfl]
      simp only [Call.advance, aesdWriteStep]
      by_cases copied : env.copied = true
      · simp only [if_pos copied]
        cases memcpy (some a) 0 bytes heap with
        | none => rfl
        | some heap =>
          simp only [Option.bind_eq_bind, Option.bind_some, Option.map_some]
          by_cases locked : env.locked = true
          · rw [if_pos locked]
            exact writeLocked_finish env bytes a locked
          · rw [if_neg locked,
              Call.finish_interrupted (c := .write file env true (some bytes)) locked]
      · simp only [if_neg copied]
        cases kfree (some a) heap with
        | none => rfl
        | some heap => rfl

/-- The function of a call is the sequence of its steps, faults included. -/
theorem operate_finish (c : Call) (fpos : Int) (k : Kernel) :
    c.operate seek fpos k = c.finish seek fpos 9 .enter k := by
  cases c with
  | write file env filp buf => exact write_finish env filp buf
  | read file env filp buf count => exact read_finish env filp buf count
  | llseek file locked offset whence => exact llseek_finish locked offset whence
  | ioctl file env cmd arg => exact ioctl_finish env cmd arg

end Functions

section Steps

theorem System.step_plain (here : s.task thread = some ⟨c, copy, place⟩)
    (plain : place.plain = true)
    (advanced : c.advance seek (c.position s.fpos copy) place s.kernel = some (kernel, next)) :
    s.step seek (.step thread) = some (s.move thread ⟨c, copy, place⟩ next kernel, none) := by
  cases place with
  | waiting _ => cases plain
  | unlocking _ => cases plain
  | returning _ => cases plain
  | faulted => cases plain
  | _ => simp only [System.step, here, Option.bind_eq_bind, Option.bind_some, advanced]

structure Lonely (seek : Int → Int → Int → Int → Int) (s : System) (c : Call) (thread n : Nat)
    (r : Return) : Prop where
  run : ∃ m events, m ≤ n ∧
    Transition.execute (System.step seek) (List.replicate m (.step thread)) s =
      some (⟨r.kernel, setFpos s.fpos c.file r.fpos, Function.update s.task thread none⟩, events) ∧
    events.reduceOption = [.ret thread ⟨r.ret, r.delivered⟩]

theorem setFpos_again (fpos : Nat → Int) (file : Nat) (p q : Int) :
    setFpos (setFpos fpos file p) file q = setFpos fpos file q := by
  funext other
  simp only [setFpos]
  split <;> rfl

theorem Lonely.cons (lonely : Lonely seek (s.move thread ⟨c, copy, place⟩ next k) c thread n r)
    (one : s.step seek (.step thread) = some (s.move thread ⟨c, copy, place⟩ next k, none)) :
    Lonely seek s c thread (n + 1) r := by
  obtain ⟨m, events, bound, run, seen⟩ := lonely.run
  refine ⟨m + 1, none :: events, Nat.succ_le_succ bound, ?_, by simpa using seen⟩
  rw [List.replicate_succ, Transition.execute_cons_iff]
  refine ⟨_, none, events, one, ?_, rfl⟩
  rw [run]
  have positions : setFpos (s.move thread ⟨c, copy, place⟩ next k).fpos c.file r.fpos =
      setFpos s.fpos c.file r.fpos := by
    cases next with
    | unlocking result =>
      simp only [System.move]
      split
      · exact setFpos_again ..
      · rfl
    | _ => rfl
  rw [positions]
  simp [System.move]

/-- Once a seek has stored its position, it no longer looks at it. -/
theorem Call.finish_moved :
    c.finish seek (c.position (s.move thread ⟨c, copy, place⟩ next kernel).fpos copy) n next k =
      c.finish seek (c.position s.fpos copy) n next k := by
  cases next with
  | unlocking result => rcases n with _ | _ | n <;> rfl
  | _ => rfl

/-- A seek that is done has stored its position. -/
def Place.Stored (c : Call) (fpos : Nat → Int) (place : Place) : Prop :=
  c.seeks = true → ∀ result, place.outcome c = some result → result.fpos = fpos c.file

theorem Call.finish_lonely (here : s.task thread = some ⟨c, copy, place⟩)
    (finished : c.finish seek (c.position s.fpos copy) n place s.kernel = some r)
    (settled : c.seeks = false → r.ret < 0 → r.fpos = s.fpos c.file)
    (stored : place.Stored c s.fpos) : Lonely seek s c thread n r := by
  induction n generalizing s place with
  | zero => cases finished
  | succ n ih =>
    have later : ∀ next kernel, c.finish seek (c.position s.fpos copy) n next kernel = some r →
        (∀ result, next = .returning result → c.seeks = true → result.fpos = s.fpos c.file) →
        Lonely seek (s.move thread ⟨c, copy, place⟩ next kernel) c thread n r := by
      intro next kernel rest kept
      apply ih System.move_here (finish_moved.trans rest)
      · intro copies failed
        rw [settled copies failed]
        cases next with
        | unlocking result => simp only [System.move, copies, Bool.false_eq_true, if_false]
        | _ => rfl
      · intro seeks result outcome
        cases next with
        | unlocking final =>
          simp only [Place.outcome, seeks, if_true, Option.some.injEq] at outcome
          simp only [System.move, seeks, if_true, setFpos_same, outcome]
        | returning final =>
          cases outcome
          exact kept _ rfl seeks
        | _ => cases outcome
    by_cases plain : place.plain = true
    · rw [finish_plain plain, Option.bind_eq_some_iff] at finished
      obtain ⟨⟨kernel, next⟩, advanced, rest⟩ := finished
      apply (later next kernel rest ?_).cons (System.step_plain here plain advanced)
      rintro result rfl seeks
      rw [seek_returning seeks advanced, position, if_pos seeks]
    · cases place with
      | waiting p =>
        by_cases granted : c.locked = true
        · rw [finish_granted granted, Option.bind_eq_some_iff] at finished
          obtain ⟨dev, taken, rest⟩ := finished
          apply (later _ _ rest ?_).cons
          · simp only [System.step, here, Option.bind_eq_bind, Option.bind_some, if_pos granted,
              taken]
          · intro result same
            cases same
        · simp only [finish, if_neg granted] at finished
          apply (later _ _ finished ?_).cons
          · simp only [System.step, here, Option.bind_eq_bind, Option.bind_some, if_neg granted]
          · rintro result ⟨⟩ seeks
            exact if_pos seeks
      | unlocking result =>
        apply (later _ _ finished ?_).cons
        · simp only [System.step, here, Option.bind_eq_bind, Option.bind_some]
        · rintro final ⟨⟩ seeks
          apply stored seeks
          simp only [Place.outcome, seeks, if_true]
      | returning result =>
        cases finished
        refine ⟨1, [some (.ret thread ⟨result.ret, result.delivered⟩)], by omega, ?_, rfl⟩
        rw [List.replicate_one, Transition.execute_singleton]
        refine ⟨_, ?_, rfl⟩
        have positions : c.storeBack result s.fpos = setFpos s.fpos c.file result.fpos := by
          unfold storeBack
          split
          · rfl
          · rename_i otherwise
            refine (setFpos_eq_self ?_).symm
            cases seeks : c.seeks with
            | true => exact stored seeks result rfl
            | false => exact settled seeks (by simpa [seeks] using otherwise)
        simp only [System.step, here, Option.bind_eq_bind, Option.bind_some, positions]
      | faulted => cases finished
      | _ => exact absurd rfl plain

/-- In any state, a call that runs alone to its end does exactly what the driver's function
does from there: the same reply, file position and kernel state, in at most nine steps. -/
theorem call_alone (idle : s.task thread = none)
    (operated : c.operate seek (s.fpos c.file) s.kernel = some r) :
    ∃ m events, m ≤ 9 ∧
      Transition.execute (System.step seek) (.call thread c :: List.replicate m (.step thread)) s =
        some (⟨r.kernel, setFpos s.fpos c.file r.fpos, s.task⟩, events) ∧
      events.reduceOption = [.call thread c, .ret thread ⟨r.ret, r.delivered⟩] := by
  have position : c.position s.fpos (s.fpos c.file) = s.fpos c.file := ite_self _
  have settled : c.seeks = false → r.ret < 0 → r.fpos = s.fpos c.file := operate_failed operated
  rw [operate_finish, ← position] at operated
  let begun : System := { s with
    task := Function.update s.task thread (some ⟨c, s.fpos c.file, .enter⟩) }
  have here : begun.task thread = some ⟨c, s.fpos c.file, .enter⟩ := Function.update_self ..
  have stored : Place.enter.Stored c begun.fpos := fun _ _ outcome => by cases outcome
  obtain ⟨m, events, bound, run, seen⟩ := (Call.finish_lonely here operated settled stored).run
  refine ⟨m, some (.call thread c) :: events, bound, ?_, by simpa using seen⟩
  rw [Transition.execute_cons_iff]
  refine ⟨begun, _, events, ?_, ?_, rfl⟩
  · simp only [System.step, idle, begun]
  · rw [run]
    simp only [begun, Function.update_idem]
    rw [← idle, Function.update_eq_self]

theorem call_alone_first :
    ∃ m events, m ≤ 9 ∧
      Transition.execute (System.step fun _ _ _ _ => 0)
        (.call 3 (.read 0 .success true true 5) :: List.replicate m (.step 3)) .initial =
        some (⟨aesdInitModule, setFpos (fun _ => 0) 0 0, fun _ => none⟩, events) ∧
      events.reduceOption =
        [.call 3 (.read 0 .success true true 5), .ret 3 ⟨0, []⟩] :=
  call_alone (s := .initial) (c := .read 0 .success true true 5) (r := ⟨0, 0, [], aesdInitModule⟩)
    rfl rfl

end Steps

end Aesd
