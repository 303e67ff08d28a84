import Mathlib.Data.List.Basic
import Mathlib.Data.List.Flatten
import Mathlib.Data.List.Infix

/-! Streams cut into delimiter-terminated segments, over an arbitrary alphabet.
`assemble` reads one symbol at a time; the result on a concatenation is obtained
by continuing from the result on its first part, so no chunking is visible. -/
namespace Delimited

/-- The finished segments, oldest first, and the symbols after the last delimiter. -/
structure Assembly (α : Type*) where
  done : List (List α)
  rest : List α
  deriving DecidableEq, Repr

variable {α : Type*} [DecidableEq α] {d : α}

def Assembly.push (d : α) (s : Assembly α) (x : α) : Assembly α :=
  if x = d then ⟨s.done ++ [s.rest ++ [x]], []⟩ else ⟨s.done, s.rest ++ [x]⟩

def Assembly.feed (d : α) (s : Assembly α) (xs : List α) : Assembly α := xs.foldl (push d) s

def assemble (d : α) (xs : List α) : Assembly α := Assembly.feed d ⟨[], []⟩ xs

/-- The part of a chunk up to and including its first delimiter, or the whole chunk. -/
def cut (d : α) : List α → List α
  | [] => []
  | x :: xs => if x = d then [x] else x :: cut d xs

@[simp] theorem feed_nil (s : Assembly α) : s.feed d [] = s := rfl

theorem feed_append (s : Assembly α) (xs ys : List α) :
    s.feed d (xs ++ ys) = (s.feed d xs).feed d ys := List.foldl_append

theorem assemble_append (xs ys : List α) :
    assemble d (xs ++ ys) = (assemble d xs).feed d ys := feed_append _ xs ys

theorem feed_open (s : Assembly α) (xs : List α) (clear : d ∉ xs) :
    s.feed d xs = ⟨s.done, s.rest ++ xs⟩ := by
  induction xs generalizing s with
  | nil => simp
  | cons x xs ih =>
    obtain ⟨different, clear⟩ := not_or.mp (List.mem_cons.not.mp clear)
    rw [Assembly.feed, List.foldl_cons]
    change (s.push d x).feed d xs = _
    rw [ih _ clear, Assembly.push, if_neg (Ne.symm different)]
    simp

/-- A piece that ends at its first delimiter finishes exactly one segment. -/
theorem feed_closed (s : Assembly α) (xs : List α) (clear : d ∉ xs) :
    s.feed d (xs ++ [d]) = ⟨s.done ++ [s.rest ++ (xs ++ [d])], []⟩ := by
  rw [feed_append, feed_open s xs clear]
  simp [Assembly.feed, Assembly.push]

/-- One delimiter, and it is the last symbol. -/
def Segment (d : α) (xs : List α) : Prop := ∃ body, d ∉ body ∧ xs = body ++ [d]

theorem cut_isPrefix (xs : List α) : cut d xs <+: xs := by
  induction xs with
  | nil => exact List.prefix_rfl
  | cons x xs ih =>
    simp only [cut]
    split
    · exact ⟨xs, rfl⟩
    · exact List.prefix_cons_inj x |>.mpr ih

theorem cut_of_not_mem (xs : List α) (clear : d ∉ xs) : cut d xs = xs := by
  induction xs with
  | nil => rfl
  | cons x xs ih =>
    obtain ⟨different, clear⟩ := not_or.mp (List.mem_cons.not.mp clear)
    simp [cut, Ne.symm different, ih clear]

theorem cut_of_mem (xs : List α) (member : d ∈ xs) : Segment d (cut d xs) := by
  induction xs with
  | nil => simp at member
  | cons x xs ih =>
    by_cases isDelimiter : x = d
    · exact ⟨[], by simp, by simp [cut, isDelimiter]⟩
    · have later : d ∈ xs := by simpa [Ne.symm isDelimiter] using member
      obtain ⟨body, clear, equal⟩ := ih later
      exact ⟨x :: body, by simp [clear, Ne.symm isDelimiter], by simp [cut, isDelimiter, equal]⟩

@[simp] theorem mem_cut (xs : List α) : d ∈ cut d xs ↔ d ∈ xs := by
  constructor
  · exact fun h => (cut_isPrefix xs).subset h
  · intro member
    obtain ⟨body, _, equal⟩ := cut_of_mem xs member
    simp [equal]

theorem cut_length_le (xs : List α) : (cut d xs).length ≤ xs.length :=
  (cut_isPrefix xs).length_le

theorem cut_length_pos (xs : List α) (nonempty : xs ≠ []) : 0 < (cut d xs).length := by
  cases xs with
  | nil => contradiction
  | cons x xs => simp only [cut]; split <;> simp

theorem cut_eq_take (xs : List α) : cut d xs = xs.take (cut d xs).length :=
  List.prefix_iff_eq_take.mp (cut_isPrefix xs)

theorem cut_segment (xs : List α) (segment : Segment d xs) : cut d xs = xs := by
  obtain ⟨body, clear, rfl⟩ := segment
  induction body with
  | nil => simp [cut]
  | cons x body ih =>
    obtain ⟨different, clear⟩ := not_or.mp (List.mem_cons.not.mp clear)
    simp [cut, Ne.symm different, ih clear]

omit [DecidableEq α] in
theorem Segment.piece {front piece back : List α} (segment : Segment d (front ++ piece ++ back))
    (member : d ∈ piece) : back = [] ∧ Segment d piece := by
  obtain ⟨body, clear, split⟩ := segment
  rcases List.eq_nil_or_concat back with rfl | ⟨rest, last, rfl⟩
  · refine ⟨rfl, ?_⟩
    rcases List.eq_nil_or_concat piece with rfl | ⟨rest, last, rfl⟩
    · cases member
    · rw [List.append_nil, List.concat_eq_append, ← List.append_assoc] at split
      obtain ⟨front', same⟩ := List.append_inj' split rfl
      refine ⟨rest, ?_, by rw [List.concat_eq_append, same]⟩
      intro inside
      exact clear (front' ▸ List.mem_append_right front inside)
  · rw [List.concat_eq_append, ← List.append_assoc] at split
    obtain ⟨front', _⟩ := List.append_inj' split rfl
    exact absurd (front' ▸ List.mem_append_left rest (List.mem_append_right front member)) clear

/-- A chunk survives `cut` exactly when nothing follows its first delimiter. -/
theorem cut_eq_self_iff (xs : List α) : cut d xs = xs ↔ (d ∈ xs → Segment d xs) := by
  constructor
  · intro same member
    rw [← same]
    exact cut_of_mem xs member
  · intro segment
    by_cases member : d ∈ xs
    · exact cut_segment xs (segment member)
    · exact cut_of_not_mem xs member

theorem flatten_map_cut_length_le (chunks : List (List α)) :
    (chunks.map (cut d)).flatten.length ≤ chunks.flatten.length := by
  induction chunks with
  | nil => simp
  | cons c rest ih =>
    have first := cut_length_le (d := d) c
    simp only [List.map_cons, List.flatten_cons, List.length_append]
    omega

/-- Cutting every chunk loses nothing exactly when no chunk is shortened. -/
theorem flatten_map_cut_iff (chunks : List (List α)) :
    (chunks.map (cut d)).flatten = chunks.flatten ↔ ∀ c ∈ chunks, cut d c = c := by
  constructor
  · intro same
    induction chunks with
    | nil => simp
    | cons c rest ih =>
      have total := congrArg List.length same
      have shorter := flatten_map_cut_length_le (d := d) rest
      have first := cut_length_le (d := d) c
      simp only [List.map_cons, List.flatten_cons, List.length_append] at total
      have whole : cut d c = c := (cut_isPrefix c).eq_of_length (by omega)
      simp only [List.map_cons, List.flatten_cons, whole, List.append_cancel_left_eq] at same
      simpa [whole] using ih same
  · intro whole
    rw [List.map_congr_left whole, List.map_id']

end Delimited
