import Mathlib.Algebra.BigOperators.Group.List.Basic
import Mathlib.Algebra.Order.BigOperators.Group.List
import Mathlib.Algebra.Order.Ring.Nat
import Mathlib.Data.List.Basic
import Mathlib.Data.List.Flatten
import Mathlib.Data.Prod.Lex

/-! Positions in a concatenation of pieces: `locate` finds the piece that holds a
position and the offset inside it, from the lengths of the pieces alone. -/
namespace Locate

/-- The index of the piece that holds `position`, with the offset inside that piece. -/
def locate : List Nat → Nat → Option (Nat × Nat)
  | [], _ => none
  | size :: sizes, position =>
    if position < size then some (0, position)
    else (locate sizes (position - size)).map fun found => (found.1 + 1, found.2)

theorem locate_eq_some_iff (sizes : List Nat) (position k o : Nat) :
    locate sizes position = some (k, o) ↔
      ∃ bound : k < sizes.length, (sizes.take k).sum + o = position ∧ o < sizes[k] := by
  induction sizes generalizing position k with
  | nil => simp [locate]
  | cons size sizes ih =>
    by_cases inside : position < size
    · simp only [locate, if_pos inside, Option.some.injEq, Prod.mk.injEq]
      cases k with
      | zero => simp; omega
      | succ k => simp; omega
    · simp only [locate, if_neg inside, Option.map_eq_some_iff, Prod.exists, Prod.mk.injEq]
      constructor
      · rintro ⟨j, p, found, rfl, rfl⟩
        obtain ⟨bound, total, small⟩ := (ih _ _).mp found
        exact ⟨by simpa using bound, by simp; omega, by simpa using small⟩
      · rintro ⟨bound, total, small⟩
        cases k with
        | zero => simp at total small; omega
        | succ k =>
          simp only [List.take_succ_cons, List.sum_cons, List.getElem_cons_succ] at total small
          exact ⟨k, o, (ih _ _).mpr ⟨by simpa using bound, by omega, small⟩, rfl, rfl⟩

theorem locate_eq_none_iff (sizes : List Nat) (position : Nat) :
    locate sizes position = none ↔ sizes.sum ≤ position := by
  induction sizes generalizing position with
  | nil => simp [locate]
  | cons size sizes ih =>
    by_cases inside : position < size
    · simp [locate, inside]
      omega
    · simp only [locate, if_neg inside, Option.map_eq_none_iff, ih, List.sum_cons]
      omega

/-- The start of piece `k` plus an offset inside it is found again. -/
theorem locate_start (sizes : List Nat) (k o : Nat) (bound : k < sizes.length)
    (inside : o < sizes[k]) : locate sizes ((sizes.take k).sum + o) = some (k, o) :=
  (locate_eq_some_iff ..).mpr ⟨bound, rfl, inside⟩

/-- Found places are ordered like the positions: first by piece, then by offset. -/
theorem locate_lt_iff (sizes : List Nat) (first : locate sizes p = some (k, o))
    (second : locate sizes q = some (k', o')) : p < q ↔ toLex (k, o) < toLex (k', o') := by
  obtain ⟨bound, start, inside⟩ := (locate_eq_some_iff ..).mp first
  obtain ⟨bound', start', inside'⟩ := (locate_eq_some_iff ..).mp second
  have ends := List.sum_take_succ sizes k bound
  have ends' := List.sum_take_succ sizes k' bound'
  have below : ∀ {m n}, m ≤ n → (sizes.take m).sum ≤ (sizes.take n).sum := by
    intro m n le
    exact ((List.take_prefix_take_left le).sublist).sum_le_sum fun _ _ => Nat.zero_le _
  rw [Prod.Lex.toLex_lt_toLex]
  rcases Nat.lt_trichotomy k k' with before | same | behind
  · have := below (show k + 1 ≤ k' from before)
    exact ⟨fun _ => .inl before, fun _ => by omega⟩
  · subst same
    constructor
    · exact fun _ => .inr ⟨rfl, by omega⟩
    · rintro (less | ⟨_, less⟩)
      · exact absurd less (Nat.lt_irrefl _)
      · simp only at less
        omega
  · have := below (show k' + 1 ≤ k from behind)
    constructor
    · intro less
      omega
    · rintro (less | ⟨equal, _⟩)
      · exact absurd less (Nat.lt_asymm behind)
      · exact absurd equal (Nat.ne_of_gt behind)

variable {α : Type*}

/-- The concatenation from a located position on: the rest of its piece, then the later pieces. -/
theorem drop_flatten (pieces : List (List α)) (k o : Nat) (bound : k < pieces.length)
    (inside : o ≤ pieces[k].length) :
    pieces.flatten.drop (((pieces.map List.length).take k).sum + o) =
      pieces[k].drop o ++ (pieces.drop (k + 1)).flatten := by
  induction pieces generalizing k with
  | nil => simp at bound
  | cons piece pieces ih =>
    cases k with
    | zero =>
      simp only [List.getElem_cons_zero] at inside
      simp [List.drop_append_of_le_length inside]
    | succ k =>
      have tail := ih k (by simpa using bound) (by simpa using inside)
      simp only [List.map_cons, List.take_succ_cons, List.sum_cons, List.flatten_cons,
        List.getElem_cons_succ, List.drop_succ_cons]
      rw [Nat.add_assoc, List.drop_append, List.drop_of_length_le (Nat.le_add_right _ _),
        Nat.add_sub_cancel_left, tail, List.nil_append]

theorem drop_of_locate (pieces : List (List α)) (position k o : Nat)
    (found : locate (pieces.map List.length) position = some (k, o)) :
    ∃ bound : k < pieces.length, o < pieces[k].length ∧
      pieces.flatten.drop position = pieces[k].drop o ++ (pieces.drop (k + 1)).flatten := by
  obtain ⟨bound, total, small⟩ := (locate_eq_some_iff ..).mp found
  simp only [List.length_map, List.getElem_map] at bound small
  refine ⟨bound, small, ?_⟩
  rw [← total]
  exact drop_flatten pieces k o bound (Nat.le_of_lt small)

theorem flatten_length_le (pieces : List (List α)) (size : Nat)
    (bound : ∀ piece ∈ pieces, piece.length ≤ size) :
    pieces.flatten.length ≤ pieces.length * size := by
  have lengths := List.sum_le_card_nsmul (pieces.map List.length) size (by simpa using bound)
  rwa [List.length_map, Nat.nsmul_eq_mul, ← List.length_flatten] at lengths

theorem locate_none_length (pieces : List (List α)) (position : Nat) :
    locate (pieces.map List.length) position = none ↔ pieces.flatten.length ≤ position := by
  rw [locate_eq_none_iff, List.length_flatten]

end Locate
