import Aesd.Interference

/-! What each step of a call does: outside the lock it works on the call's own block, under
the lock it brings the device closer to the journal's next state. -/
namespace Aesd

variable {h h' : Heap} {k k' : Kernel} {j j' : Journal} {c : Call} {place place' : Place} {a b : Nat}
  {p : Pointer} {seek : Int → Int → Int → Int → Int} {fpos : Int} {chunk line : List Byte}
  {env : WriteEnv} {file : Nat}

section Outside

/-- A step outside the lock. A call that returns from there leaves every journal as it is. -/
structure Detached (seek : Int → Int → Int → Int → Int) (fpos : Int) (c : Call) (k : Kernel)
    (place : Place) (k' : Kernel) (place' : Place) : Prop where
  step : c.advance seek fpos place k = some (k', place')
  dev : k'.dev = k.dev
  guest : Guest k'.heap c place'
  same : ∀ b, k.heap.block b ≠ none → place.own ≠ some b → k'.heap.block b = k.heap.block b
  own : ∀ b, place'.own = some b → place.own = some b ∨ k.heap.block b = none
  yields : ∀ result, place' = .returning result → ∀ j, Journal.Yields seek c fpos j result j

theorem detached_return (result : Result)
    (step : c.advance seek fpos place k = some (k, .returning result))
    (yields : ∀ j, Journal.Yields seek c fpos j result j) :
    Detached seek fpos c k place k (.returning result) where
  step := step
  dev := rfl
  guest := .returning _ _
  same _ _ _ := rfl
  own _ own := by cases own
  yields _ same j := by
    cases same
    exact yields j

theorem detached_wait (step : c.advance seek fpos .enter k = some (k, .waiting none))
    (guest : Guest k.heap c (.waiting none)) :
    Detached seek fpos c k .enter k (.waiting none) where
  step := step
  dev := rfl
  guest := guest
  same _ _ _ := rfl
  own _ own := by cases own
  yields _ same := by cases same

theorem write_enter (file : Nat) (env : WriteEnv) (filp : Bool) (buf : Option (List Byte))
    (k : Kernel) :
    ∃ k' place', Detached seek fpos (.write file env filp buf) k .enter k' place' := by
  rcases filp with _ | _
  · exact ⟨_, _, detached_return _ rfl fun _ => rfl⟩
  rcases buf with _ | chunk
  · exact ⟨_, _, detached_return _ rfl fun _ => rfl⟩
  by_cases granted : env.data.ok = true ∧ chunk.length ≤ kmallocMax
  · obtain ⟨a, heap, taken, free, same, blk, atAddr, content⟩ :=
      kmalloc_granted (h := k.heap) granted.1 granted.2
    refine ⟨{ k with heap }, .filling a, ?_, rfl, ?_, ?_, ?_, ?_⟩
    · simp only [Call.advance, aesdWriteStep, taken]
    · exact .filling _ _ _ _ granted.1 granted.2 ⟨blk, atAddr, by simp [content]⟩
    · intro b allocated _
      exact same b fun equal => allocated (equal ▸ free)
    · intro b own
      cases own
      exact .inr free
    · intro _ same
      cases same
  · refine ⟨k, _, detached_return ⟨-enomem, fpos, []⟩ ?_ ?_⟩
    · simp only [Call.advance, aesdWriteStep, kmalloc_refused granted]
    · intro j
      simp only [Journal.Yields, Journal.operate, Journal.write, granted, not_false_eq_true, if_true]

theorem write_filling (data : env.data.ok = true) (fits : chunk.length ≤ kmallocMax)
    (room : ∃ blk, k.heap.block a = some blk ∧ blk.data.length = chunk.length) :
    ∃ k' place', Detached seek fpos (.write file env true (some chunk)) k (.filling a) k' place' := by
  obtain ⟨blk, atAddr, size⟩ := room
  have start : k.heap.Holds a [] := ⟨blk, atAddr, List.nil_prefix⟩
  by_cases copied : env.copied = true
  · have enough : ∀ other, k.heap.block a = some other →
        ([] : List Byte).length + chunk.length ≤ other.data.length := by
      intro other same
      rw [atAddr, Option.some.injEq] at same
      simp [← same, size]
    obtain ⟨heap, filled, held, same⟩ := memcpy_holds start enough
    rw [List.length_nil] at filled
    refine ⟨{ k with heap }, .waiting (some a), ?_, rfl, ?_, ?_, ?_, ?_⟩
    · simp only [Call.advance, aesdWriteStep, if_pos copied, filled, Option.map_some]
    · exact .filled _ _ _ _ data fits copied held
    · intro b _ other
      exact same b fun equal => other (congrArg some equal.symm)
    · exact fun b own => .inl own
    · intro _ same
      cases same
  · refine ⟨{ k with heap := k.heap.erase a }, .returning ⟨-efault, fpos, []⟩, ?_, rfl,
      .returning _ _, ?_, ?_, ?_⟩
    · simp only [Call.advance, aesdWriteStep, if_neg copied, kfree_allocated start.allocated,
        Option.map_some]
    · intro b _ other
      exact Heap.sameBut_erase _ _ b fun equal => other (congrArg some equal.symm)
    · intro _ own
      cases own
    · intro result same j
      cases same
      simp only [Journal.Yields, Journal.operate, Journal.write, data, fits, copied, and_self,
        not_true_eq_false, if_false, Bool.false_eq_true, not_false_eq_true, if_true]

theorem ioctl_enter (file : Nat) (env : ReadEnv) (cmd : Nat) (arg : Seekto) (k : Kernel) :
    ∃ k' place', Detached seek fpos (.ioctl file env cmd arg) k .enter k' place' := by
  by_cases foreign : iocType cmd ≠ aesdIocMagic ∨ aesdcharIocMaxnr < iocNr cmd
  · refine ⟨k, _, detached_return ⟨-enotty, fpos, []⟩ ?_ fun j => ?_⟩
    · simp only [Call.advance, aesdIoctlStep, if_pos foreign]
    · simp only [Journal.Yields, Journal.operate, Journal.ioctl, if_pos foreign]
  by_cases known : cmd = aesdcharIocseekto
  · subst known
    by_cases copied : env.copied = true
    · refine ⟨k, _, detached_wait ?_ (.adjusting _ _ _ copied)⟩
      simp only [Call.advance, aesdIoctlStep, if_neg foreign, if_pos copied, if_true]
    · refine ⟨k, _, detached_return ⟨-efault, fpos, []⟩ ?_ fun j => ?_⟩
      · simp only [Call.advance, aesdIoctlStep, if_neg foreign, if_neg copied, if_true]
      · simp only [Journal.Yields, Journal.operate, Journal.ioctl, if_neg foreign, if_neg copied,
          if_true]
  · refine ⟨k, _, detached_return ⟨-enotty, fpos, []⟩ ?_ fun j => ?_⟩
    · simp only [Call.advance, aesdIoctlStep, if_neg foreign, if_neg known]
    · simp only [Journal.Yields, Journal.operate, Journal.ioctl, if_neg foreign, if_neg known]

theorem read_enter (file : Nat) (env : ReadEnv) (filp buf : Bool) (count : Nat) (k : Kernel) :
    ∃ k' place', Detached seek fpos (.read file env filp buf count) k .enter k' place' := by
  rcases filp with _ | _
  · exact ⟨_, _, detached_return _ rfl fun _ => rfl⟩
  rcases buf with _ | _
  · exact ⟨_, _, detached_return _ rfl fun _ => rfl⟩
  · exact ⟨_, _, detached_wait rfl (.reading _ _ _)⟩

theorem Guest.detached (guest : Guest k.heap c place) (busy : ∀ p, place ≠ .waiting p)
    (early : ∀ result, place ≠ .returning result) (fpos : Int) :
    ∃ k' place', Detached seek fpos c k place k' place' := by
  cases guest with
  | enter =>
    cases c with
    | write file env filp buf => exact write_enter file env filp buf k
    | read file env filp buf count => exact read_enter file env filp buf count k
    | llseek file locked offset whence =>
      exact ⟨_, _, detached_wait rfl (.seeking _ _ _ _)⟩
    | ioctl file env cmd arg => exact ioctl_enter file env cmd arg k
  | filling file env chunk a data fits room => exact write_filling data fits room
  | filled => exact absurd rfl (busy _)
  | reading => exact absurd rfl (busy _)
  | seeking => exact absurd rfl (busy _)
  | adjusting => exact absurd rfl (busy _)
  | returning c result => exact absurd rfl (early result)

/-- The command number of the seek passes the two tests in front of it. -/
theorem seekto_known :
    ¬(iocType aesdcharIocseekto ≠ aesdIocMagic ∨ aesdcharIocMaxnr < iocNr aesdcharIocseekto) := by
  decide

theorem Guest.interrupted (guest : Guest h c (.waiting p)) (interrupted : ¬c.locked = true)
    (fpos : Int) (j : Journal) :
    j.Yields seek c fpos ⟨-erestartsys, fpos, []⟩ j := by
  cases guest with
  | filled file env chunk a data fits copied held =>
    simp only [Call.locked] at interrupted
    simp only [Journal.Yields, Journal.operate, Journal.write, data, fits, copied, interrupted,
      and_self, not_true_eq_false, if_false, Bool.false_eq_true, not_false_eq_true, if_true]
  | reading file env count =>
    simp only [Call.locked] at interrupted
    simp only [Journal.Yields, Journal.operate, Journal.read, Bool.and_self, if_true,
      if_neg interrupted]
  | seeking file locked offset whence =>
    simp only [Call.locked] at interrupted
    simp only [Journal.Yields, Journal.operate, Journal.llseek, if_neg interrupted]
  | adjusting file env arg copied =>
    simp only [Call.locked] at interrupted
    simp only [Journal.Yields, Journal.operate, Journal.ioctl, if_neg seekto_known, if_pos copied,
      if_true, Journal.adjust, if_neg interrupted]

end Outside

section Inside

/-- A step inside the lock. Blocks that are neither the call's nor the device's stay so, and
unchanged. -/
structure Passage (seek : Int → Int → Int → Int → Int) (j : Journal) (fpos : Int) (c : Call)
    (k : Kernel) (place : Place) (k' : Kernel) (place' : Place) : Prop where
  step : c.advance seek fpos place k = some (k', place')
  critical : Critical seek j fpos k' c place'
  lock : k'.dev.lock = k.dev.lock
  spares : ∀ b, k.heap.block b ≠ none → ¬k.Uses place.assembling b → place.own ≠ some b →
    k'.heap.block b = k.heap.block b ∧ ¬k'.Uses place'.assembling b
  own : ∀ b, place'.own = some b → place.own = some b ∧ ¬k'.Uses place'.assembling b

/-- A step that changes nothing and ends the work under the lock. -/
theorem passage_done (result : Result)
    (step : c.advance seek fpos place k = some (k, .unlocking result))
    (models : Models k.unlocked j') (yields : j.Yields seek c fpos result j') :
    Passage seek j fpos c k place k (.unlocking result) where
  step := step
  critical := .unlocking _ _ _ models yields
  lock := rfl
  spares _ _ apart _ := ⟨rfl, fun uses => apart uses.weaken⟩
  own _ own := by cases own

/-- The place that a lookup found holds the bytes that a read delivers. -/
theorem Models.located (models : Models k j) (position count : Nat)
    (place : Locate.locate (j.live.map List.length) position = some (i, o)) :
    ∃ bytes, bytes = ((j.live.getD i []).drop o).take count ∧
      min (sizeSub (k.dev.buffer.get ((k.dev.buffer.outOffs + i) % 10)).size o) count =
        bytes.length ∧
      k.heap.load (k.dev.buffer.get ((k.dev.buffer.outOffs + i) % 10)).buffptr o bytes.length =
        some bytes := by
  obtain ⟨bound, inside, _⟩ := Locate.drop_of_locate j.live _ _ _ place
  obtain ⟨a, points, size, held⟩ := models.live_entry i bound
  have small := held.length_le
  have command : j.live.getD i [] = j.live[i] := by simp [bound]
  have remaining : sizeSub j.live[i].length o = j.live[i].length - o :=
    sizeSub_of_le (Nat.le_of_lt inside) (by unfold kmallocMax at small; omega)
  have amount : min (j.live[i].length - o) count = ((j.live[i].drop o).take count).length := by
    simp [Nat.min_comm]
  refine ⟨_, rfl, ?_, ?_⟩
  · rw [command, size, remaining, amount]
  · rw [command, points, ← amount, Heap.load_holds held (by omega), Option.some.injEq,
      ← List.length_drop, Nat.min_comm, ← List.take_take, List.take_length]

theorem read_locked (models : Models k.unlocked j) (file : Nat) (env : ReadEnv) (count : Nat)
    (p : Pointer) (locked : env.locked = true) :
    ∃ k' place', Passage seek j fpos (.read file env true true count) k (.locked p) k' place' := by
  have lookup : aesdCircularBufferFindEntryOffsetForFpos k.dev.buffer (sizeOfLoff fpos) 0 =
      k.dev.buffer.located 0 (Locate.locate (j.live.map List.length) (sizeOfLoff fpos)) :=
    models.find (sizeOfLoff fpos) 0 (sizeOfLoff_lt fpos)
  cases place : Locate.locate (j.live.map List.length) (sizeOfLoff fpos) with
  | none =>
    rw [place] at lookup
    refine ⟨k, _, passage_done ⟨0, fpos, []⟩ ?_ models ?_⟩
    · simp only [Call.advance, aesdReadStep, lookup, CircularBuffer.located]
    · simp only [Journal.Yields, Journal.operate, Journal.read, Bool.and_self, if_true,
        if_pos locked, place]
  | some found =>
    obtain ⟨i, o⟩ := found
    rw [place] at lookup
    refine ⟨k, .located ((k.dev.buffer.outOffs + i) % 10) o, ?_,
      .located _ _ _ _ _ models locked place, rfl, ?_, ?_⟩
    · simp only [Call.advance, aesdReadStep, lookup, CircularBuffer.located]
    · exact fun b _ apart _ => ⟨rfl, apart⟩
    · intro _ own
      cases own

theorem read_located (models : Models k.unlocked j) (file : Nat) (env : ReadEnv) (count : Nat)
    (locked : env.locked = true)
    (place : Locate.locate (j.live.map List.length) (sizeOfLoff fpos) = some (i, o)) :
    ∃ k' place', Passage seek j fpos (.read file env true true count) k
      (.located ((k.dev.buffer.outOffs + i) % 10) o) k' place' := by
  obtain ⟨bytes, content, amount, load⟩ := models.located _ count place
  change min (sizeSub (k.dev.buffer.get ((k.dev.buffer.outOffs + i) % 10)).size o) count = _
    at amount
  change k.heap.load (k.dev.buffer.get ((k.dev.buffer.outOffs + i) % 10)).buffptr o _ = _ at load
  by_cases copied : env.copied = true
  · refine ⟨k, _, passage_done ⟨bytes.length, fpos + bytes.length, bytes⟩ ?_ models ?_⟩
    · simp only [Call.advance, aesdReadStep, amount, load, Option.bind_eq_bind, Option.bind_some,
        if_pos copied]
    · simp only [Journal.Yields, Journal.operate, Journal.read, Bool.and_self, if_true,
        if_pos locked, place, if_pos copied, ← content]
  · refine ⟨k, _, passage_done ⟨-efault, fpos, []⟩ ?_ models ?_⟩
    · simp only [Call.advance, aesdReadStep, amount, load, Option.bind_eq_bind, Option.bind_some,
        if_neg copied]
    · simp only [Journal.Yields, Journal.operate, Journal.read, Bool.and_self, if_true,
        if_pos locked, place, if_neg copied]

theorem llseek_locked (models : Models k.unlocked j) (file : Nat) (offset whence : Int)
    (p : Pointer) :
    ∃ k' place', Passage seek j fpos (.llseek file true offset whence) k (.locked p) k' place' := by
  have size : k.dev.buffSize = sizeT j.totalSize := models.buffSize
  refine ⟨k, _, passage_done _ rfl models ?_⟩
  rw [size]
  rfl

theorem ioctl_locked (models : Models k.unlocked j) (file : Nat) (env : ReadEnv) (arg : Seekto)
    (p : Pointer) (copied : env.copied = true) (locked : env.locked = true) :
    ∃ k' place', Passage seek j fpos (.ioctl file env aesdcharIocseekto arg) k (.locked p) k'
      place' := by
  refine ⟨k, _, passage_done _ rfl models ?_⟩
  simp only [Journal.Yields, Journal.operate, Journal.ioctl, if_neg seekto_known, if_pos copied,
    if_true, Journal.adjust, if_pos locked, aesdAdjustFileOffsetStep]
  by_cases slot : maxWriteOperations ≤ arg.writeCmd.toNat
  · simp only [if_pos slot]
  · have below : arg.writeCmd.toNat < 10 := Nat.lt_of_not_le slot
    have size : (k.dev.buffer.get arg.writeCmd.toNat).size = _ := models.slot_size below
    have sizes : slotSizes k.dev.buffer arg.writeCmd.toNat = _ :=
      models.slotSizes _ (Nat.le_of_lt below)
    simp only [if_neg slot, size, sizes]
    split <;> rfl

theorem Journal.write_refused (assembles : Assembles env true (some chunk) chunk)
    (refused : ¬(env.buffer.ok = true ∧ j.request chunk ≤ kmallocMax)) (fpos : Int) :
    j.write env true (some chunk) fpos =
      ⟨-enomem, fpos, [], { j with pending := j.pending.forget }⟩ := by
  simp only [write, assembles.data, assembles.dataSize, assembles.copied, assembles.locked, refused,
    and_self, not_true_eq_false, if_false, not_false_eq_true, if_true]

theorem Journal.write_granted (assembles : Assembles env true (some chunk) chunk)
    (granted : env.buffer.ok = true ∧ j.request chunk ≤ kmallocMax) (fpos : Int) :
    j.write env true (some chunk) fpos =
      ⟨appendIndex chunk, fpos + appendIndex chunk, [], j.accept env.buffer.fill chunk⟩ := by
  simp only [write, assembles.data, assembles.dataSize, assembles.copied, assembles.locked, granted,
    and_self, not_true_eq_false, if_false]

theorem Models.forgotten (models : Models k j) :
    Models { k with dev := { k.dev with writeBuffer := none } }
      { j with pending := j.pending.forget } where
  free := models.free
  committed := models.committed
  assembled := by
    have size := models.writeBufferSize
    change Assembled _ _ j.pending.forget
    unfold Pending.forget
    split
    · rename_i none
      exact ⟨size.trans none, by simp⟩
    · rename_i some
      exact ⟨Nat.pos_of_ne_zero some, models.pending_le, size, rfl⟩
  buffSize := models.buffSize

theorem write_locked_refused (models : Models k.unlocked j) (held : k.heap.Holds a chunk)
    (apart : ¬k.Uses false a) (assembles : Journal.Assembles env true (some chunk) chunk)
    (refused : ¬(env.buffer.ok = true ∧ j.request chunk ≤ kmallocMax)) (file : Nat) (fpos : Int) :
    ∃ k' place', Passage seek j fpos (.write file env true (some chunk)) k (.locked (some a)) k'
      place' := by
  have reserved : reserve env k.dev chunk.length (appendIndex chunk) k.heap =
      some (none, k.heap) := reserve_refused (k := k.unlocked) models refused
  refine ⟨⟨k.heap, { k.dev with writeBuffer := none }⟩, .releasing a ⟨-enomem, fpos, []⟩, ?_, ?_, rfl,
    ?_, ?_⟩
  · simp only [Call.advance, aesdWriteStep, Heap.load_all held, Option.bind_eq_bind,
      Option.bind_some, reserved]
  · exact .releasing _ _ _ _ _ _ held.allocated models.forgotten
      (Journal.write_refused assembles refused fpos)
  · intro b _ other _
    refine ⟨rfl, ?_⟩
    rintro (slot | ⟨_, points⟩)
    · exact other (.inl slot)
    · cases points
  · intro b own
    refine ⟨own, ?_⟩
    cases own
    rintro (slot | ⟨_, points⟩)
    · exact apart (.inl slot)
    · cases points

theorem write_locked_granted (models : Models k.unlocked j) (held : k.heap.Holds a chunk)
    (apart : ¬k.Uses false a) (assembles : Journal.Assembles env true (some chunk) chunk)
    (granted : env.buffer.ok = true ∧ j.request chunk ≤ kmallocMax) (file : Nat) (fpos : Int) :
    ∃ k' place', Passage seek j fpos (.write file env true (some chunk)) k (.locked (some a)) k'
      place' := by
  have own : Private k.unlocked a chunk := private_of_apart held apart
  obtain ⟨w, heap, reserved, room⟩ := reserve_granted models own granted.1 granted.2
  change reserve env k.dev chunk.length (appendIndex chunk) k.heap = _ at reserved
  have size : k.dev.writeBufferSize = (j.pending.base env.buffer.fill).length := by
    rw [Pending.base_length]
    exact models.writeBufferSize
  refine ⟨⟨heap, { k.dev with writeBuffer := some w }⟩,
    .reserved a (decide (newline ∈ chunk)) (appendIndex chunk), ?_, ?_, rfl, ?_, ?_⟩
  · simp only [Call.advance, aesdWriteStep, Heap.load_all held, Option.bind_eq_bind,
      Option.bind_some, reserved, scanNewline_found]
  · refine .reserved _ _ _ _ ⟨assembles, granted, room.data, ⟨w, rfl, room.held, room.avoids⟩, size,
      room.committed, models.buffSize⟩ ?_
    intro w' blk points atAddr
    cases points
    change k.dev.writeBufferSize + appendIndex chunk ≤ _
    rw [size]
    exact room.capacity blk atAddr
  · intro b allocated other _
    obtain ⟨same, fresh⟩ := reserve_frame reserved allocated (Kernel.Uses.unassembled other)
    refine ⟨same, ?_⟩
    rintro (slot | ⟨_, points⟩)
    · exact other (.inl slot)
    · exact fresh points
  · intro b given
    refine ⟨given, ?_⟩
    cases given
    rintro (slot | ⟨_, points⟩)
    · exact apart (.inl slot)
    · exact room.apart (Option.some.inj points)

/-- The write copies its part of the line behind the bytes that are already there. -/
theorem write_reserved
    (extending : Extending k j env chunk a (j.pending.base env.buffer.fill))
    (room : ∀ w blk, k.dev.writeBuffer = some w → k.heap.block w = some blk →
      k.dev.writeBufferSize + appendIndex chunk ≤ blk.data.length)
    (apart : ¬k.Uses true a) (file : Nat) (fpos : Int) :
    ∃ k' place', Passage seek j fpos (.write file env true (some chunk)) k
      (.reserved a (decide (newline ∈ chunk)) (appendIndex chunk)) k' place' := by
  obtain ⟨w, points, held, avoids⟩ := extending.buffer
  have size := extending.size
  have source : k.heap.load (some a) 0 (appendIndex chunk) = some (Delimited.cut newline chunk) := by
    rw [Heap.load_holds extending.data (by simpa using appendIndex_le chunk), List.drop_zero,
      take_appendIndex]
  have enough : ∀ blk, k.heap.block w = some blk → (j.pending.base env.buffer.fill).length +
      (Delimited.cut newline chunk).length ≤ blk.data.length := by
    intro blk atAddr
    rw [← size, ← appendIndex_eq]
    exact room w blk points atAddr
  obtain ⟨heap, copied, longer, same⟩ := memcpy_holds held enough
  have notLine : ∀ b, ¬k.Uses true b → b ≠ w :=
    fun b other equal => other (.inr ⟨.inl rfl, equal ▸ points⟩)
  refine ⟨⟨heap, { k.dev with writeBufferSize := k.dev.writeBufferSize + appendIndex chunk }⟩,
    .appended a (decide (newline ∈ chunk)) (appendIndex chunk), ?_, ?_, rfl, ?_, ?_⟩
  · rw [← size, ← points] at copied
    simp only [Call.advance, aesdWriteStep, source, Option.bind_eq_bind, Option.bind_some, copied]
  · refine .appended _ _ _ _ ⟨extending.assembles, extending.granted,
      extending.data.frame same (notLine a apart), ⟨w, points, longer, avoids⟩, ?_, ?_,
      extending.buffSize⟩
    · change k.dev.writeBufferSize + appendIndex chunk = _
      rw [List.length_append, size, appendIndex_eq]
    · exact extending.committed.frame fun b points' => same b fun equal => points' (equal ▸ avoids)
  · intro b _ other _
    refine ⟨same b (notLine b other), ?_⟩
    rintro (slot | line)
    · exact other (.inl slot)
    · exact other (.inr ⟨.inl rfl, line.2⟩)
  · intro b given
    refine ⟨given, ?_⟩
    cases given
    rintro (slot | line)
    · exact apart (.inl slot)
    · exact apart (.inr ⟨.inl rfl, line.2⟩)

theorem Extending.continues (extending : Extending k j env chunk a
      (j.pending.base env.buffer.fill ++ Delimited.cut newline chunk))
    (continues : newline ∉ chunk) :
    Models k.unlocked (j.accept env.buffer.fill chunk) := by
  obtain ⟨w, points, held, avoids⟩ := extending.buffer
  simp only [Journal.accept, if_neg continues]
  exact ⟨rfl, extending.committed, ⟨extending.size, fun _ => ⟨w, points, held, avoids⟩⟩,
    extending.buffSize⟩

theorem Extending.ends (extending : Extending k j env chunk a
      (j.pending.base env.buffer.fill ++ Delimited.cut newline chunk))
    (ends : newline ∈ chunk) :
    ∃ k', commit k = some k' ∧ Models k'.unlocked (j.accept env.buffer.fill chunk) ∧
      k'.dev.lock = k.dev.lock ∧
      ∀ b, ¬k.Uses true b → k'.heap.block b = k.heap.block b ∧ ¬k'.Uses false b := by
  obtain ⟨w, points, held, avoids⟩ := extending.buffer
  have nonempty : j.pending.base env.buffer.fill ++ Delimited.cut newline chunk ≠ [] := by
    have member := (Delimited.mem_cut (d := newline) chunk).mpr ends
    exact List.append_ne_nil_of_right_ne_nil _ (List.ne_nil_of_mem member)
  obtain ⟨k', stored, committed, size, lock, buffSize, kept⟩ :=
    extending.committed.commit points extending.size held avoids nonempty
  refine ⟨k', stored, ?_, lock, ?_⟩
  · simp only [Journal.accept, if_pos ends]
    refine ⟨rfl, committed, ⟨size, by simp⟩, ?_⟩
    change k'.dev.buffSize = _
    rw [buffSize, extending.buffSize]
    simp only [sizeT_add_sizeT, Journal.totalSize, List.flatten_append, List.length_append,
      List.flatten_singleton]
  · intro b other
    obtain ⟨same, avoids'⟩ := kept b (Kernel.Uses.avoids other)
    have different : b ≠ w := fun equal => other (.inr ⟨.inl rfl, equal ▸ points⟩)
    refine ⟨same, ?_⟩
    rintro (⟨i, slot⟩ | ⟨busy, _⟩)
    · exact avoids' different i slot
    · exact busy.elim Bool.false_ne_true fun some => some size

theorem write_appended
    (extending : Extending k j env chunk a
      (j.pending.base env.buffer.fill ++ Delimited.cut newline chunk))
    (apart : ¬k.Uses true a) (file : Nat) (fpos : Int) :
    ∃ k' place', Passage seek j fpos (.write file env true (some chunk)) k
      (.appended a (decide (newline ∈ chunk)) (appendIndex chunk)) k' place' := by
  have yields : j.Yields seek (.write file env true (some chunk)) fpos
      ⟨appendIndex chunk, fpos + appendIndex chunk, []⟩ (j.accept env.buffer.fill chunk) :=
    Journal.write_granted extending.assembles extending.granted fpos
  have allocated := extending.data.allocated
  by_cases ends : newline ∈ chunk
  · obtain ⟨k', stored, models, lock, others⟩ := extending.ends ends
    obtain ⟨same, apart'⟩ := others a apart
    refine ⟨k', .releasing a ⟨appendIndex chunk, fpos + appendIndex chunk, []⟩, ?_,
      .releasing _ _ _ _ _ _ (same ▸ allocated) models yields, lock, ?_, ?_⟩
    · simp only [Call.advance, aesdWriteStep, commitIf, ends, decide_true, if_true, stored,
        Option.map_some]
    · exact fun b _ other _ => others b other
    · intro b given
      refine ⟨given, ?_⟩
      cases given
      exact apart'
  · refine ⟨k, .releasing a ⟨appendIndex chunk, fpos + appendIndex chunk, []⟩, ?_,
      .releasing _ _ _ _ _ _ allocated (extending.continues ends) yields, rfl, ?_, ?_⟩
    · simp only [Call.advance, aesdWriteStep, commitIf, ends, decide_false, Bool.false_eq_true,
        if_false, Option.map_some]
    · exact fun b _ other _ => ⟨rfl, fun uses => other uses.weaken⟩
    · intro b given
      refine ⟨given, ?_⟩
      cases given
      exact fun uses => apart uses.weaken

theorem write_releasing (allocated : k.heap.block a ≠ none) (models : Models k.unlocked j')
    (yields : j.Yields seek (.write file env true (some chunk)) fpos result j')
    (apart : ¬k.Uses false a) :
    ∃ k' place', Passage seek j fpos (.write file env true (some chunk)) k (.releasing a result) k'
      place' := by
  refine ⟨{ k with heap := k.heap.erase a }, .unlocking result, ?_, ?_, rfl, ?_, ?_⟩
  · simp only [Call.advance, aesdWriteStep, kfree_allocated allocated, Option.map_some]
  · refine .unlocking _ _ _ (models.frame_used fun b uses => ?_) yields
    exact Heap.sameBut_erase k.heap a b fun equal => apart (equal ▸ uses)
  · intro b _ other different
    exact ⟨Heap.sameBut_erase k.heap a b fun equal => different (congrArg some equal.symm), other⟩
  · intro _ own
    cases own

/-- Inside the lock every step succeeds, until the lock is given back. -/
theorem Critical.passage (critical : Critical seek j fpos k c place)
    (apart : ∀ b, place.own = some b → ¬k.Uses place.assembling b)
    (early : ∀ result, place ≠ .unlocking result) :
    ∃ k' place', Passage seek j fpos c k place k' place' := by
  cases critical with
  | locked c p models arrived locked =>
    cases arrived with
    | filled file env chunk a data fits copied held =>
      have assembles : Journal.Assembles env true (some chunk) chunk :=
        ⟨rfl, rfl, data, fits, copied, locked⟩
      by_cases granted : env.buffer.ok = true ∧ j.request chunk ≤ kmallocMax
      · exact write_locked_granted models held (apart a rfl) assembles granted file fpos
      · exact write_locked_refused models held (apart a rfl) assembles granted file fpos
    | reading file env count => exact read_locked models file env count none locked
    | seeking file locked' offset whence =>
      simp only [Call.locked] at locked
      subst locked
      exact llseek_locked models file offset whence none
    | adjusting file env arg copied => exact ioctl_locked models file env arg none copied locked
  | located file env count i o models locked place =>
    exact read_located models file env count locked place
  | reserved file env chunk a extending room =>
    exact write_reserved extending room (apart a rfl) file fpos
  | appended file env chunk a extending => exact write_appended extending (apart a rfl) file fpos
  | releasing file env chunk a result j' allocated models yields =>
    exact write_releasing allocated models yields (apart a rfl)
  | unlocking c result => exact absurd rfl (early result)

end Inside

section Positions

/-- A seek that has no part under the lock leaves the position as it is. -/
theorem seek_returning (seeks : c.seeks = true)
    (step : c.advance seek fpos place k = some (k', .returning result)) : result.fpos = fpos := by
  cases c with
  | write => cases seeks
  | read => cases seeks
  | llseek file locked offset whence =>
    simp only [Call.advance, aesdLlseekStep] at step
    split at step <;> cases step
  | ioctl file env cmd arg =>
    simp only [Call.advance, aesdIoctlStep] at step
    split at step
    · split at step
      · cases step
        rfl
      · split at step
        · cases copied : env.copied <;> rw [copied] at step <;> cases step
          rfl
        · cases step
          rfl
    · cases step
    · cases step

/-- Under the lock a seek has one step. -/
theorem seek_inside (seeks : c.seeks = true) (inside : place.inside = true)
    (step : c.advance seek fpos place k = some (k', place')) :
    ∃ result, place' = .unlocking result := by
  cases c with
  | write => cases seeks
  | read => cases seeks
  | llseek file locked offset whence =>
    simp only [Call.advance, aesdLlseekStep] at step
    split at step
    · cases inside
    · cases step
      exact ⟨_, rfl⟩
    · cases step
  | ioctl file env cmd arg =>
    simp only [Call.advance, aesdIoctlStep] at step
    split at step
    · cases inside
    · cases step
      exact ⟨_, rfl⟩
    · cases step

/-- Until its step under the lock a seek has not looked at the position. -/
theorem Critical.reposition (critical : Critical seek j fpos k c place) (seeks : c.seeks = true)
    (early : ∀ result, place ≠ .unlocking result) (position : Int) :
    Critical seek j position k c place := by
  cases critical with
  | locked c p models arrived locked => exact .locked _ _ models arrived locked
  | unlocking c result => exact absurd rfl (early result)
  | _ => cases seeks

theorem Journal.Yields.seek_same (yields : j.Yields seek c fpos result j')
    (seeks : c.seeks = true) :
    j' = j := by
  have journal : (j.operate seek c fpos).journal = j' := by rw [yields]
  rw [← journal]
  cases c with
  | write => cases seeks
  | read => cases seeks
  | llseek file locked offset whence =>
    simp only [Journal.operate, Journal.llseek]
    split <;> rfl
  | ioctl file env cmd arg =>
    simp only [Journal.operate, Journal.ioctl, Journal.adjust]
    repeat' split
    all_goals rfl

theorem operate_failed (operated : c.operate seek fpos k = some r) (copies : c.seeks = false)
    (failed : r.ret < 0) : r.fpos = fpos := by
  cases c with
  | llseek => cases copies
  | ioctl => cases copies
  | read file env filp buf count =>
    simp only [Call.operate, aesdRead] at operated
    split at operated
    · split at operated
      · simp only [Option.bind_eq_bind, Option.bind_eq_some_iff] at operated
        obtain ⟨dev, _, operated⟩ := operated
        split at operated
        · cases operated
          rfl
        · simp only [Option.bind_eq_some_iff] at operated
          obtain ⟨bytes, _, operated⟩ := operated
          split at operated
          · cases operated
            exact absurd failed (by simp)
          · cases operated
            rfl
      · cases operated
        rfl
    · cases operated
      rfl
  | write file env filp buf =>
    simp only [Call.operate, aesdWrite] at operated
    split at operated
    · split at operated
      · cases operated
        rfl
      · split at operated
        · simp only [Option.bind_eq_bind, Option.bind_eq_some_iff] at operated
          obtain ⟨heap, _, operated⟩ := operated
          split at operated
          · simp only [aesdWriteLocked, Option.bind_eq_bind, Option.bind_eq_some_iff] at operated
            obtain ⟨dev, _, data, _, ⟨p, heap'⟩, _, operated⟩ := operated
            cases p with
            | none =>
              simp only [Option.bind_eq_some_iff] at operated
              obtain ⟨_, _, same⟩ := operated
              cases same
              rfl
            | some w =>
              simp only [Option.bind_eq_some_iff] at operated
              obtain ⟨_, _, _, _, _, _, _, _, same⟩ := operated
              cases same
              exact absurd failed (by simp)
          · cases operated
            rfl
        · simp only [Option.bind_eq_bind, Option.bind_eq_some_iff] at operated
          obtain ⟨_, _, same⟩ := operated
          cases same
          rfl
    · cases operated
      rfl

end Positions

end Aesd
