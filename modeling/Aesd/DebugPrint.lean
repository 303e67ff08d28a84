import Aesd.Concurrency

/-! The debug print of a new command in `aesd_write`, which takes `write_buffer` for a string: how
far it reads, at any point of any run. -/
namespace Aesd

open Linearization (Event)

variable {s s' : System} {j : Journal} {assembling : Bool} {k k' : Kernel} {c : Call}
  {place place' : Place} {task : Task} {thread : Nat} {h h' : Heap} {p : Pointer} {b : Block}
  {env : WriteEnv} {dev : AesdDev} {chunk : List Byte} {fpos : Int}
  {seek : Int → Int → Int → Int → Int} {moves : List Move} {event : Option (Event Nat Call Reply)}
  {events : List (Option (Event Nat Call Reply))}

/-- What `%s` prints: the bytes in front of the first zero byte. Without one in the block it reads
on behind the block. -/
def Heap.string (h : Heap) (p : Pointer) : Option (List Byte) := do
  let a ← p
  let b ← h.block a
  if 0 ∈ b.data then some (b.data.takeWhile (· ≠ 0)) else none

def debugNewBuffer (k : Kernel) : Option (List Byte) := k.heap.string k.dev.writeBuffer

section Rooms

/-- What lies in the block of `write_buffer` when `size` bytes of it are in use. A write that
begins a line gets a block for all the bytes of its call, one that goes on with a line a block for
the line so far. -/
def Call.room (c : Call) (place : Place) (size : Nat) (data : List Byte) : Prop :=
  match c, place with
  | .write _ env _ (some chunk), .reserved _ _ n =>
    if size = 0 then data = garbage env.buffer.fill chunk.length else data.length = size + n
  | .write _ env _ (some chunk), .appended _ _ n =>
    if size = n then data.drop n = (garbage env.buffer.fill chunk.length).drop n
    else data.length = size
  | _, _ => size ≠ 0 → data.length = size

def Call.Fits (k : Kernel) (c : Call) (place : Place) : Prop :=
  ∀ w b, k.dev.writeBuffer = some w → k.heap.block w = some b →
    c.room place k.dev.writeBufferSize b.data

/-- The block of `write_buffer` is as long as the line in it. -/
def Kernel.Fitted (k : Kernel) : Prop :=
  k.dev.writeBufferSize ≠ 0 → ∀ w b, k.dev.writeBuffer = some w → k.heap.block w = some b →
    b.data.length = k.dev.writeBufferSize

theorem Call.room_plain (plain : place.assembling = false) (size : Nat) (data : List Byte) :
    c.room place size data ↔ (size ≠ 0 → data.length = size) := by
  cases place with
  | reserved => cases plain
  | appended => cases plain
  | _ => unfold room; split <;> simp_all

theorem Call.fits_plain (plain : place.assembling = false) : c.Fits k place ↔ k.Fitted := by
  simp only [Fits, room_plain plain, Kernel.Fitted]
  exact ⟨fun fits some w b points here => fits w b points here some,
    fun fitted w b points here some => fitted some w b points here⟩

theorem Call.Fits.frame (fits : c.Fits k place)
    (used : ∀ a, k.Uses place.assembling a → h'.block a = k.heap.block a) :
    c.Fits { k with heap := h' } place := by
  intro w b points here
  by_cases idle : place.assembling = false ∧ k.dev.writeBufferSize = 0
  · exact (room_plain idle.1 _ _).mpr fun some => absurd idle.2 some
  · apply fits w b points
    rw [← used w (.inr ⟨?_, points⟩)]
    · exact here
    · rw [not_and_or] at idle
      exact idle.imp (Bool.not_eq_false _).mp id

theorem Kernel.Fitted.frame (fitted : k.Fitted)
    (used : ∀ a, k.Uses false a → h'.block a = k.heap.block a) :
    Kernel.Fitted { k with heap := h' } := by
  intro some w b points here
  apply fitted some w b points
  rw [← used w (.inr ⟨.inr some, points⟩)]
  exact here

end Rooms

section Blocks

theorem kmalloc_block {g : Grant} {size a : Nat} (taken : kmalloc g size h = (some a, h'))
    (here : h'.block a = some b) : b.data = garbage g.fill size := by
  unfold kmalloc at taken
  split at taken
  · cases taken
    rw [Heap.block_put, if_pos rfl, Option.some.injEq] at here
    rw [← here]
  · cases taken

theorem krealloc_block {g : Grant} {size a : Nat}
    (moved : krealloc g p size h = some (some a, h')) (here : h'.block a = some b) :
    b.data.length = size := by
  cases p with
  | none =>
    rw [krealloc_null, Option.some.injEq] at moved
    rw [kmalloc_block moved here, garbage_length]
  | some old =>
    simp only [krealloc, Option.bind_eq_bind, Option.bind_eq_some_iff] at moved
    obtain ⟨before, _, moved⟩ := moved
    split at moved
    · simp only [Option.some.injEq, Prod.mk.injEq] at moved
      obtain ⟨rfl, rfl⟩ := moved
      rw [Heap.block_put, if_pos rfl, Option.some.injEq] at here
      rw [← here]
      exact resize_length ..
    · cases moved

theorem reserve_block {count append a : Nat}
    (reserved : reserve env dev count append h = some (some a, h')) (here : h'.block a = some b) :
    if dev.writeBufferSize = 0 then b.data = garbage env.buffer.fill count
    else b.data.length = dev.writeBufferSize + append := by
  unfold reserve at reserved
  split
  · rename_i first
    rw [if_pos first, Option.some.injEq] at reserved
    exact kmalloc_block reserved here
  · rename_i first
    rw [if_neg first] at reserved
    rw [krealloc_block reserved here, Nat.add_comm]

theorem memcpy_block {offset a : Nat} {bytes : List Byte}
    (copied : memcpy (some a) offset bytes h = some h') (here : h'.block a = some b) :
    ∃ old, h.block a = some old ∧ offset + bytes.length ≤ old.data.length ∧
      b.data = old.data.take offset ++ bytes ++ old.data.drop (offset + bytes.length) := by
  simp only [memcpy, Option.bind_eq_bind, Option.bind_some, Option.bind_eq_some_iff] at copied
  obtain ⟨old, atAddr, copied⟩ := copied
  split at copied
  · rename_i inside
    cases copied
    rw [Heap.block_put, if_pos rfl, Option.some.injEq] at here
    exact ⟨old, atAddr, inside, by rw [← here]; rfl⟩
  · cases copied

end Blocks

section Inside

theorem Extending.inside {line : List Byte} (extending : Extending k j env chunk a line)
    (points : k.dev.writeBuffer = some w) (here : k.heap.block w = some b) : line <+: b.data := by
  obtain ⟨w', points', ⟨b', here', start⟩, _⟩ := extending.buffer
  rw [points, Option.some.injEq] at points'
  subst points'
  rw [here, Option.some.injEq] at here'
  exact here' ▸ start

theorem write_locked_fits (file : Nat)
    (step : (Call.write file env true (some chunk)).advance seek fpos (.locked (some a)) k =
      some (k', place')) (held : k.heap.Holds a chunk) :
    (Call.write file env true (some chunk)).Fits k' place' := by
  simp only [Call.advance, aesdWriteStep, Heap.load_all held, Option.bind_eq_bind,
    Option.bind_some, Option.bind_eq_some_iff] at step
  obtain ⟨⟨writeBuffer, heap⟩, reserved, step⟩ := step
  cases writeBuffer with
  | none =>
    cases step
    intro w b points
    cases points
  | some w =>
    cases step
    intro w' b points here
    cases points
    have block := reserve_block reserved here
    exact block

theorem write_reserved_fits (file : Nat)
    (extending : Extending k j env chunk a (j.pending.base env.buffer.fill))
    (fits : (Call.write file env true (some chunk)).Fits k
      (.reserved a (decide (newline ∈ chunk)) (appendIndex chunk)))
    (step : (Call.write file env true (some chunk)).advance seek fpos
      (.reserved a (decide (newline ∈ chunk)) (appendIndex chunk)) k = some (k', place')) :
    (Call.write file env true (some chunk)).Fits k' place' := by
  have source : k.heap.load (some a) 0 (appendIndex chunk) = some (Delimited.cut newline chunk) := by
    rw [Heap.load_holds extending.data (by simpa using appendIndex_le chunk), List.drop_zero,
      take_appendIndex]
  simp only [Call.advance, aesdWriteStep, source, Option.bind_eq_bind, Option.bind_some,
    Option.bind_eq_some_iff] at step
  obtain ⟨heap, copied, same⟩ := step
  cases same
  intro w b points here
  change k.dev.writeBuffer = some w at points
  rw [points] at copied
  obtain ⟨old, atAddr, inside, content⟩ := memcpy_block copied here
  have room := fits w old points atAddr
  rw [← appendIndex_eq] at inside content
  simp only [Call.room] at room ⊢
  by_cases first : k.dev.writeBufferSize = 0
  · rw [if_pos first] at room
    have cut : (Delimited.cut newline chunk).length = appendIndex chunk := appendIndex_eq chunk ▸ rfl
    simp only [first, Nat.zero_add, if_true, content, List.take_zero, List.nil_append]
    rw [← cut, List.drop_left, cut, room]
  · rw [if_neg first] at room
    rw [if_neg (by omega), content]
    simp only [List.length_append, List.length_take, List.length_drop, ← appendIndex_eq]
    omega

/-- Without a newline all bytes are taken, so that nothing is left of the block. -/
theorem write_appended_fits (file : Nat)
    (extending : Extending k j env chunk a
      (j.pending.base env.buffer.fill ++ Delimited.cut newline chunk))
    (fits : (Call.write file env true (some chunk)).Fits k
      (.appended a (decide (newline ∈ chunk)) (appendIndex chunk)))
    (step : (Call.write file env true (some chunk)).advance seek fpos
      (.appended a (decide (newline ∈ chunk)) (appendIndex chunk)) k = some (k', place')) :
    (Call.write file env true (some chunk)).Fits k' place' := by
  simp only [Call.advance, aesdWriteStep, Option.map_eq_some_iff, Prod.mk.injEq] at step
  obtain ⟨after, stored, rfl, rfl⟩ := step
  rw [Call.fits_plain rfl]
  by_cases ends : newline ∈ chunk
  · simp only [commitIf, ends, decide_true, if_true, commit, Option.bind_eq_bind,
      Option.bind_eq_some_iff, Option.some.injEq] at stored
    obtain ⟨heap, _, rfl⟩ := stored
    exact fun some => absurd rfl some
  · simp only [commitIf, ends, decide_false, Bool.false_eq_true, if_false,
      Option.some.injEq] at stored
    subst stored
    intro _ w b points here
    have all : appendIndex chunk = chunk.length := by
      rw [appendIndex_eq, Delimited.cut_of_not_mem _ ends]
    have room := fits w b points here
    simp only [Call.room, all] at room
    split at room
    · rename_i whole
      have start := (extending.inside points here).length_le
      rw [← extending.size] at start
      have rest := congrArg List.length room
      simp only [List.length_drop, garbage_length, Nat.sub_self] at rest
      omega
    · exact room

theorem write_releasing_fits {result : Result} (file : Nat) (fitted : k.Fitted)
    (apart : ¬k.Uses false a)
    (step : (Call.write file env true (some chunk)).advance seek fpos (.releasing a result) k =
      some (k', place')) : (Call.write file env true (some chunk)).Fits k' place' := by
  simp only [Call.advance, aesdWriteStep, Option.map_eq_some_iff, Prod.mk.injEq] at step
  obtain ⟨heap, freed, rfl, rfl⟩ := step
  rw [Call.fits_plain rfl]
  apply fitted.frame
  intro b uses
  simp only [kfree] at freed
  split at freed
  · cases freed
    exact Heap.sameBut_erase k.heap a b fun same => apart (same ▸ uses)
  · cases freed

/-- A read and a seek leave the device as it is. -/
theorem Critical.fits (critical : Critical seek j fpos k c place)
    (apart : ∀ b, place.own = some b → ¬k.Uses place.assembling b)
    (early : ∀ result, place ≠ .unlocking result) (fits : c.Fits k place)
    (step : c.advance seek fpos place k = some (k', place')) : c.Fits k' place' := by
  cases critical with
  | locked c p models arrived locked =>
    have fitted := (Call.fits_plain rfl).mp fits
    cases arrived with
    | filled file env chunk a data small copied held =>
      exact write_locked_fits file step held
    | reading file env count =>
      simp only [Call.advance, aesdReadStep] at step
      split at step <;> cases step <;> exact (Call.fits_plain rfl).mpr fitted
    | seeking file locked' offset whence =>
      cases step
      exact (Call.fits_plain rfl).mpr fitted
    | adjusting file env arg copied =>
      cases step
      exact (Call.fits_plain rfl).mpr fitted
  | located file env count i o models locked place =>
    have fitted := (Call.fits_plain rfl).mp fits
    simp only [Call.advance, aesdReadStep, Option.bind_eq_bind, Option.bind_eq_some_iff] at step
    obtain ⟨bytes, _, same⟩ := step
    cases same
    exact (Call.fits_plain rfl).mpr fitted
  | reserved file env chunk a extending room => exact write_reserved_fits file extending fits step
  | appended file env chunk a extending => exact write_appended_fits file extending fits step
  | releasing file env chunk a result j' allocated models yields =>
    exact write_releasing_fits file ((Call.fits_plain rfl).mp fits) (apart a rfl) step
  | unlocking c result => exact absurd rfl (early result)

end Inside

section Runs

/-- The block of `write_buffer` is of the right length for the call inside the lock, or for none. -/
structure System.Fits (s : System) : Prop where
  inside : ∀ thread task, s.task thread = some task → task.place.inside = true →
    task.call.Fits s.kernel task.place
  outside : (∀ thread task, s.task thread = some task → task.place.inside = false) →
    s.kernel.Fitted

theorem initial_fits : System.initial.Fits where
  inside _ _ here := by cases here
  outside _ some := absurd rfl some

theorem System.Fits.outside_move (fits : s.Fits) (coherent : Coherent seek s j assembling)
    (here : s.task thread = some task) (outside : task.place.inside = false)
    (outside' : place'.inside = false) (dev : k'.dev = s.kernel.dev)
    (same : ∀ b, s.kernel.heap.block b ≠ none → task.place.own ≠ some b →
      k'.heap.block b = s.kernel.heap.block b) : (s.move thread task place' k').Fits := by
  have used : ∀ b, s.kernel.Uses assembling b → k'.heap.block b = s.kernel.heap.block b := by
    intro b uses
    apply same b (coherent.device.uses_allocated uses)
    exact fun own => coherent.spared thread task b here own uses
  obtain ⟨heap, dev'⟩ := k'
  simp only at dev used
  subst dev
  constructor
  · intro other task' given inside
    rcases System.move_cases given with ⟨rfl, rfl⟩ | ⟨_, there⟩
    · exact Bool.noConfusion (outside'.symm.trans inside)
    · obtain ⟨_, _, _, rfl, _, _⟩ := coherent.device.critical there inside
      exact (fits.inside other task' there inside).frame used
  · intro all
    have before : ∀ other task', s.task other = some task' → task'.place.inside = false := by
      intro other task' there
      by_cases mine : other = thread
      · subst mine
        rw [here, Option.some.injEq] at there
        exact there ▸ outside
      · exact all other task' ((System.move_other mine).trans there)
    exact (fits.outside before).frame fun b uses => used b uses.weaken

theorem System.Fits.exchange (fits : s.Fits) {new : Option Task} {fpos : Nat → Int}
    (old : ∀ task, s.task thread = some task → task.place.inside = false)
    (fresh : ∀ task, new = some task → task.place.inside = false) :
    System.Fits ⟨s.kernel, fpos, Function.update s.task thread new⟩ where
  inside other task' given inside := by
    rcases update_cases given with ⟨rfl, begun⟩ | ⟨_, there⟩
    · exact Bool.noConfusion ((fresh task' begun).symm.trans inside)
    · exact fits.inside other task' there inside
  outside all := by
    apply fits.outside
    intro other task' there
    by_cases mine : other = thread
    · subst mine
      exact old task' there
    · exact all other task' ((Function.update_of_ne mine ..).trans there)

theorem System.Fits.stepped (fits : s.Fits) (coherent : Coherent seek s j assembling)
    (here : s.task thread = some task) (stepped : Stepped seek j s thread task s' event) :
    s'.Fits := by
  cases stepped with
  | detached kernel place early outside detached =>
    exact fits.outside_move coherent here outside detached.guest.outside detached.dev detached.same
  | interrupted p waits signal =>
    exact fits.outside_move coherent here (by rw [waits]; rfl) rfl rfl fun _ _ _ => rfl
  | lock p waits granted free =>
    have nobody : ∀ other task', s.task other = some task' → task'.place.inside = false := by
      intro other task' there
      rw [Bool.eq_false_iff]
      intro inside
      have lock := coherent.device.lock.mpr ⟨other, task', there, inside⟩
      exact Bool.noConfusion (free.symm.trans lock)
    constructor
    · intro other task' given inside
      rcases System.move_cases given with ⟨rfl, rfl⟩ | ⟨_, there⟩
      · exact (Call.fits_plain rfl).mpr (fits.outside nobody)
      · exact Bool.noConfusion ((nobody other task' there).symm.trans inside)
    · intro all
      cases all thread _ System.move_here
  | passage kernel place inside early passage =>
    obtain ⟨_, _, _, rfl, _, only⟩ := coherent.device.critical here inside
    constructor
    · intro other task' given inside'
      rcases System.move_cases given with ⟨rfl, rfl⟩ | ⟨different, there⟩
      · exact (coherent.critical here inside early).fits
          (fun b own => coherent.spared other task b here own) early
          (fits.inside other task here inside) passage.step
      · exact absurd (only other task' there inside') different
    · intro all
      have outside := all thread _ System.move_here
      exact Bool.noConfusion (outside.symm.trans passage.critical.inside)
  | unlock result unlocks =>
    have inside : task.place.inside = true := by rw [unlocks]; rfl
    obtain ⟨_, _, _, _, _, only⟩ := coherent.device.critical here inside
    have now := fits.inside thread task here inside
    constructor
    · intro other task' given inside'
      rcases System.move_cases given with ⟨rfl, rfl⟩ | ⟨different, there⟩
      · cases inside'
      · exact absurd (only other task' there inside') different
    · intro _
      rw [unlocks, Call.fits_plain rfl] at now
      exact now
  | returns result back =>
    apply fits.exchange
    · intro task' there
      rw [here, Option.some.injEq] at there
      rw [← there, back]
      rfl
    · intro task' none
      cases none

theorem System.Fits.step (fits : s.Fits) (coherent : Coherent seek s j assembling) {move : Move}
    (one : s.step seek move = some (s', event)) : s'.Fits := by
  cases move with
  | call thread c =>
    simp only [System.step] at one
    split at one
    · rename_i idle
      cases one
      apply fits.exchange
      · intro task there
        rw [idle] at there
        cases there
      · rintro task ⟨⟩
        rfl
    · contradiction
  | step thread =>
    cases here : s.task thread with
    | none => simp [System.step, here] at one
    | some task => exact fits.stepped coherent here (coherent.stepped here one)

theorem System.run_fits
    (run : Transition.execute (System.step seek) moves .initial = some (s, events)) :
    s.Fits ∧ ∃ j assembling, Coherent seek s j assembling := by
  obtain ⟨fits, o, j, assembling, simulates⟩ := Transition.execute_history
    (fun s _ => s.Fits ∧ ∃ o j assembling, Simulates seek s o j assembling)
    (by
      rintro move s _ s' event ⟨fits, o, j, assembling, simulates⟩ one
      obtain ⟨_, o', _, _, _, j', assembling', after⟩ := simulates.step one
      exact ⟨fits.step simulates.coherent one, o', j', assembling', after⟩)
    run ⟨initial_fits, .initial, .empty, false, System.initial_simulates⟩
  exact ⟨fits, j, assembling, simulates.coherent⟩

/-- The print of a new command reads on behind its block unless the command has a zero byte in it,
or was written in one call together with bytes behind its newline and a zero byte lies in the room
for those. -/
theorem print_overruns_iff {file n : Nat} {found : Bool} {copy : Int}
    (run : Transition.execute (System.step seek) moves .initial = some (s, events))
    (here : s.task thread =
      some ⟨.write file env true (some chunk), copy, .appended a found n⟩) :
    ∃ line, s.kernel.heap.load s.kernel.dev.writeBuffer 0 s.kernel.dev.writeBufferSize = some line ∧
      (debugNewBuffer s.kernel = none ↔ 0 ∉ line ∧
        (n < s.kernel.dev.writeBufferSize ∨
          0 ∉ (garbage env.buffer.fill chunk.length).drop n)) := by
  obtain ⟨fits, j, assembling, coherent⟩ := System.run_fits run
  have room := fits.inside thread _ here rfl
  obtain ⟨fpos, _, critical, _⟩ := coherent.device.critical here rfl
  cases critical with
  | appended _ _ _ _ extending =>
    obtain ⟨w, points, ⟨b, atAddr, start⟩, _⟩ := extending.buffer
    have held : s.kernel.heap.Holds w _ := ⟨b, atAddr, start⟩
    have size := extending.size
    refine ⟨j.pending.base env.buffer.fill ++ Delimited.cut newline chunk, ?_, ?_⟩
    · rw [size, points, Heap.load_all held]
    · have print : debugNewBuffer s.kernel = none ↔ 0 ∉ b.data := by
        simp only [debugNewBuffer, Heap.string, points, atAddr, Option.bind_eq_bind,
          Option.bind_some]
        split <;> simp_all
      have bytes := List.take_append_drop s.kernel.dev.writeBufferSize b.data
      have front : b.data.take s.kernel.dev.writeBufferSize =
          j.pending.base env.buffer.fill ++ Delimited.cut newline chunk := by
        rw [size]
        exact (List.prefix_iff_eq_take.mp start).symm
      have some := room w b points atAddr
      simp only [Call.room] at some
      rw [print, ← bytes, front, List.mem_append, not_or]
      apply and_congr_right
      intro _
      split at some
      · rename_i whole
        rw [whole, some]
        simp
      · rename_i part
        have less : appendIndex chunk < s.kernel.dev.writeBufferSize := by
          rw [size, List.length_append, ← appendIndex_eq] at part ⊢
          omega
        rw [List.drop_eq_nil_of_le (by omega)]
        simp [less]

def oneLine : Call := .write 0 .success true (some [97, 10])

def oneLineMoves : List Move := .call 0 oneLine :: List.replicate 5 (.step 0)

theorem print_overruns_oneLine :
    ∃ s events, Transition.execute (System.step fun _ _ _ _ => 0) oneLineMoves .initial =
        some (s, events) ∧
      s.task 0 = some ⟨oneLine, 0, .appended 0 true 2⟩ ∧
      s.kernel.heap.load s.kernel.dev.writeBuffer 0 s.kernel.dev.writeBufferSize =
        some [97, 10] ∧
      debugNewBuffer s.kernel = none := by
  have arrives : (Transition.execute (System.step fun _ _ _ _ => 0) oneLineMoves .initial).map
      (fun r => (r.1.task 0, r.1.kernel.heap.load r.1.kernel.dev.writeBuffer 0
        r.1.kernel.dev.writeBufferSize)) =
      some (some ⟨oneLine, 0, .appended 0 true 2⟩, some [97, 10]) := rfl
  obtain ⟨⟨s, events⟩, run, state⟩ := Option.map_eq_some_iff.mp arrives
  obtain ⟨here, appended⟩ := Prod.mk.inj state
  obtain ⟨line, held, overruns⟩ := print_overruns_iff run here
  rw [appended, Option.some.injEq] at held
  subst held
  exact ⟨s, events, run, here, appended, overruns.mpr ⟨by decide, .inr (by decide)⟩⟩

end Runs

end Aesd
