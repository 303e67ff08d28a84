import Aesd.Library.Delimited
import Mathlib.Data.List.Nodup

/-! Several parties that write segments into one stream, a piece at a time. When a piece is
only ever added to a segment of its own party, the finished segments are the parties' own. -/
namespace Delimited

variable {I α : Type*} {d : α} {i j : I} {xs ys : List α} {pieces : List (I × List α)}
  {line : I → List α} {parties : List I}

def stream (pieces : List (I × List α)) : List α := pieces.flatMap Prod.snd

/-- The party of the last piece that is not empty. -/
def lastParty (pieces : List (I × List α)) : Option I :=
  pieces.foldl (fun last p => if p.2 = [] then last else some p.1) none

@[simp] theorem stream_snoc : stream (pieces ++ [(i, xs)]) = stream pieces ++ xs := by
  simp [stream]

@[simp] theorem lastParty_snoc (nonempty : xs ≠ []) :
    lastParty (pieces ++ [(i, xs)]) = some i := by
  simp [lastParty, nonempty]

@[simp] theorem lastParty_snoc_empty : lastParty (pieces ++ [(i, [])]) = lastParty pieces := by
  simp [lastParty]

theorem prefix_segment {whole : List α} (segment : Segment d whole) (front : xs ++ ys <+: whole) :
    d ∉ ys ∨ (xs ++ ys = whole ∧ Segment d ys) := by
  obtain ⟨body, clear, rfl⟩ := segment
  rcases List.prefix_concat_iff.mp front with all | inside
  · rcases List.eq_nil_or_concat ys with rfl | ⟨ys, y, rfl⟩
    · exact .inl List.not_mem_nil
    · right
      refine ⟨all, ys, ?_, ?_⟩
      · rw [List.concat_eq_append, ← List.append_assoc] at all
        obtain ⟨rfl, _⟩ := List.append_inj' all rfl
        exact fun member => clear (List.mem_append_right xs member)
      · rw [List.concat_eq_append, ← List.append_assoc] at all
        rw [List.concat_eq_append, (List.append_inj' all rfl).2]
  · left
    exact fun member => clear (inside.subset (List.mem_append_right xs member))

variable [DecidableEq I]

def part (i : I) (pieces : List (I × List α)) : List α :=
  pieces.flatMap fun p => if p.1 = i then p.2 else []

@[simp] theorem part_snoc_same : part i (pieces ++ [(i, xs)]) = part i pieces ++ xs := by
  simp [part]

@[simp] theorem part_snoc_other (different : j ≠ i) :
    part j (pieces ++ [(i, xs)]) = part j pieces := by
  simp [part, Ne.symm different]

@[simp] theorem part_snoc_empty : part j (pieces ++ [(i, [])]) = part j pieces := by
  simp [part]

variable [DecidableEq α]

/-- Each piece starts a segment or continues one of its own party. -/
inductive Exclusive (d : α) : List (I × List α) → Prop
  | nil : Exclusive d []
  | snoc {pieces : List (I × List α)} (before : Exclusive d pieces) (i : I) (xs : List α)
      (own : xs = [] ∨ (assemble d (stream pieces)).rest = [] ∨ lastParty pieces = some i) :
      Exclusive d (pieces ++ [(i, xs)])

theorem cut_prefix_segment {whole : List α} (segment : Segment d whole)
    (front : xs ++ ys <+: whole) : cut d ys = ys := by
  rcases prefix_segment segment front with clear | ⟨_, ends⟩
  · exact cut_of_not_mem ys clear
  · exact cut_segment ys ends

/-- No piece of a segment is shortened by `cut`. -/
theorem cut_division {chunks : List (List α)} (segment : Segment d chunks.flatten) :
    ∀ c ∈ chunks, cut d c = c := by
  intro c member
  obtain ⟨before, after, rfl⟩ := List.append_of_mem member
  apply cut_prefix_segment segment
  rw [List.flatten_append, List.flatten_cons, ← List.append_assoc]
  exact List.prefix_append _ _

/-- The finished segments are lines of different parties, and only the last party may have
an unfinished one. -/
structure Separate (d : α) (line : I → List α) (pieces : List (I × List α))
    (parties : List I) : Prop where
  nodup : parties.Nodup
  done : (assemble d (stream pieces)).done = parties.map line
  finished : ∀ i ∈ parties, part i pieces = line i
  unfinished : ∀ i ∉ parties, part i pieces ≠ [] →
    lastParty pieces = some i ∧ (assemble d (stream pieces)).rest = part i pieces
  last : ∀ i, lastParty pieces = some i → part i pieces ≠ []

theorem separate_nil : Separate d line [] [] where
  nodup := List.nodup_nil
  done := rfl
  finished _ member := absurd member List.not_mem_nil
  unfinished _ _ nonempty := absurd rfl nonempty
  last _ given := by cases given

theorem Separate.skip (separate : Separate d line pieces parties) :
    Separate d line (pieces ++ [(i, [])]) parties where
  nodup := separate.nodup
  done := by simpa using separate.done
  finished j member := by simpa using separate.finished j member
  unfinished j outside nonempty := by
    simpa using separate.unfinished j outside (by simpa using nonempty)
  last j given := by simpa using separate.last j (by simpa using given)

/-- The party of a piece that may be added has written nothing but the unfinished segment. -/
theorem Separate.rest (separate : Separate d line pieces parties) (outside : i ∉ parties)
    (own : (assemble d (stream pieces)).rest = [] ∨ lastParty pieces = some i) :
    (assemble d (stream pieces)).rest = part i pieces ∧
      ∀ j ≠ i, j ∉ parties → part j pieces = [] := by
  have mine : part i pieces ≠ [] → (assemble d (stream pieces)).rest = part i pieces :=
    fun nonempty => (separate.unfinished i outside nonempty).2
  rcases own with empty | last
  · constructor
    · by_contra different
      by_cases none : part i pieces = []
      · exact different (empty.trans none.symm)
      · exact different (mine none)
    · intro j _ unfinished
      by_contra nonempty
      exact nonempty ((separate.unfinished j unfinished nonempty).2.symm.trans empty)
  · constructor
    · exact mine (separate.last i last)
    · intro j different unfinished
      by_contra nonempty
      have owner := (separate.unfinished j unfinished nonempty).1
      rw [last, Option.some.injEq] at owner
      exact different owner.symm

theorem Separate.add (separate : Separate d line pieces parties) (segment : Segment d (line i))
    (front : part i pieces ++ xs <+: line i) (nonempty : xs ≠ [])
    (own : (assemble d (stream pieces)).rest = [] ∨ lastParty pieces = some i) :
    ∃ parties, Separate d line (pieces ++ [(i, xs)]) parties := by
  have outside : i ∉ parties := by
    intro member
    have length := front.length_le
    rw [separate.finished i member, List.length_append] at length
    exact nonempty (List.eq_nil_of_length_eq_zero (by omega))
  obtain ⟨rest, others⟩ := separate.rest outside own
  have last : ∀ j, lastParty (pieces ++ [(i, xs)]) = some j →
      part j (pieces ++ [(i, xs)]) ≠ [] := by
    intro j given
    rw [lastParty_snoc nonempty, Option.some.injEq] at given
    subst given
    simp [nonempty]
  rcases prefix_segment segment front with clear | ⟨whole, body, clear, rfl⟩
  · have next : assemble d (stream (pieces ++ [(i, xs)])) =
        ⟨parties.map line, part i pieces ++ xs⟩ := by
      rw [stream_snoc, assemble_append, feed_open _ _ clear, separate.done, rest]
    refine ⟨parties, separate.nodup, by rw [next], ?_, ?_, last⟩
    · intro j member
      rw [part_snoc_other (by rintro rfl; exact outside member)]
      exact separate.finished j member
    · intro j unfinished some
      by_cases same : j = i
      · subst same
        rw [next, lastParty_snoc nonempty, part_snoc_same]
        exact ⟨rfl, rfl⟩
      · rw [part_snoc_other same] at some
        exact absurd (others j same unfinished) some
  · have next : assemble d (stream (pieces ++ [(i, body ++ [d])])) =
        ⟨(parties ++ [i]).map line, []⟩ := by
      rw [stream_snoc, assemble_append, feed_closed _ _ clear, separate.done, rest, whole,
        List.map_append, List.map_singleton]
    refine ⟨parties ++ [i], ?_, by rw [next], ?_, ?_, last⟩
    · exact separate.nodup.append (List.nodup_singleton i)
        (List.disjoint_singleton.mpr outside)
    · intro j member
      rcases List.mem_append.mp member with old | new
      · rw [part_snoc_other (by rintro rfl; exact outside old)]
        exact separate.finished j old
      · rw [List.mem_singleton.mp new, part_snoc_same, whole]
    · intro j unfinished some
      rw [List.mem_append, List.mem_singleton, not_or] at unfinished
      rw [part_snoc_other unfinished.2] at some
      exact absurd (others j unfinished.2 unfinished.1) some

/-- Parties that each write one segment, and never into each other's, finish exactly their
own segments. -/
theorem Exclusive.separate (exclusive : Exclusive d pieces) (segments : ∀ i, Segment d (line i))
    (fronts : ∀ i, part i pieces <+: line i) : ∃ parties, Separate d line pieces parties := by
  induction exclusive with
  | nil => exact ⟨[], separate_nil⟩
  | @snoc pieces before i xs own ih =>
    have earlier : ∀ j, part j pieces <+: line j := by
      intro j
      refine List.IsPrefix.trans ?_ (fronts j)
      by_cases same : j = i
      · rw [same, part_snoc_same]
        exact List.prefix_append _ _
      · rw [part_snoc_other same]
    obtain ⟨parties, separate⟩ := ih earlier
    rcases own with rfl | own
    · exact ⟨parties, separate.skip⟩
    · by_cases empty : xs = []
      · subst empty
        exact ⟨parties, separate.skip⟩
      · have front := fronts i
        rw [part_snoc_same] at front
        exact separate.add (segments i) front empty own

end Delimited
