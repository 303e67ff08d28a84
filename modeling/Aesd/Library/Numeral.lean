import Mathlib.Data.List.Basic
import Mathlib.Data.List.TakeWhile

/-! Decimal numbers in a text, over an arbitrary alphabet: white space, perhaps a sign, and
digits. A scan that takes as much as it can stops where the number does. -/
namespace Numeral

structure Alphabet (α : Type*) where
  space : α → Bool
  digit : α → Bool
  weight : α → Nat
  plus : α
  minus : α

variable {α : Type*} {A : Alphabet α} {text digits front back : List α} {value : Int} {c : α}
  {p : α → Bool}

def Alphabet.magnitude (A : Alphabet α) (digits : List α) : Nat :=
  digits.foldl (fun n c => 10 * n + A.weight c) 0

@[simp] theorem magnitude_snoc :
    A.magnitude (digits ++ [c]) = 10 * A.magnitude digits + A.weight c := by
  simp [Alphabet.magnitude]

/-- The parts of a number's text, and its value. -/
structure Alphabet.Reads (A : Alphabet α) (space sign digits : List α) (value : Int) : Prop where
  blank : ∀ c ∈ space, A.space c = true
  nonempty : digits ≠ []
  decimal : ∀ c ∈ digits, A.digit c = true
  signed : ((sign = [] ∨ sign = [A.plus]) ∧ value = A.magnitude digits) ∨
    (sign = [A.minus] ∧ value = -A.magnitude digits)

/-- The whole text is a number. -/
def Alphabet.Denotes (A : Alphabet α) (text : List α) (value : Int) : Prop :=
  ∃ space sign digits, text = space ++ sign ++ digits ∧ A.Reads space sign digits value

/-- What holds of the symbols of numbers holds of a number's text. -/
theorem Alphabet.Denotes.all {P : α → Prop} (denotes : A.Denotes text value)
    (space : ∀ c, A.space c = true → P c) (digit : ∀ c, A.digit c = true → P c) (plus : P A.plus)
    (minus : P A.minus) : ∀ c ∈ text, P c := by
  obtain ⟨blanks, sign, digits, rfl, reads⟩ := denotes
  intro c member
  rcases List.mem_append.mp member with front | last
  · rcases List.mem_append.mp front with first | second
    · exact space c (reads.blank c first)
    · rcases reads.signed with ⟨rfl | rfl, _⟩ | ⟨rfl, _⟩
      · cases second
      · exact List.mem_singleton.mp second ▸ plus
      · exact List.mem_singleton.mp second ▸ minus
  · exact digit c (reads.decimal c last)

/-- A further digit, for a number of either sign. -/
theorem Alphabet.Denotes.snoc (denotes : A.Denotes text value) :
    ∃ unit : Int, (unit = 1 ∨ unit = -1) ∧ ∀ c, A.digit c = true →
      A.Denotes (text ++ [c]) (10 * value + unit * A.weight c) := by
  obtain ⟨space, sign, digits, rfl, reads⟩ := denotes
  have longer : ∀ c, A.digit c = true → ∀ d ∈ digits ++ [c], A.digit d = true := by
    intro c digit d member
    rcases List.mem_append.mp member with old | new
    · exact reads.decimal d old
    · exact List.mem_singleton.mp new ▸ digit
  rcases reads.signed with ⟨sign, rfl⟩ | ⟨sign, rfl⟩
  · refine ⟨1, .inl rfl, fun c digit => ⟨space, _, digits ++ [c], by simp, reads.blank, by simp,
      longer c digit, .inl ⟨sign, ?_⟩⟩⟩
    rw [magnitude_snoc]
    omega
  · refine ⟨-1, .inr rfl, fun c digit => ⟨space, _, digits ++ [c], by simp, reads.blank, by simp,
      longer c digit, .inr ⟨sign, ?_⟩⟩⟩
    rw [magnitude_snoc]
    omega

theorem dropWhile_stop (stop : ∀ c, back.head? = some c → p c = false) :
    back.dropWhile p = back := by
  cases back with
  | nil => rfl
  | cons c back => exact List.dropWhile_cons_of_neg (by simp [stop c rfl])

theorem dropWhile_munch (inside : ∀ c ∈ front, p c = true)
    (stop : ∀ c, back.head? = some c → p c = false) : (front ++ back).dropWhile p = back := by
  rw [List.dropWhile_append_of_pos inside]
  exact dropWhile_stop stop

theorem takeWhile_munch (inside : ∀ c ∈ front, p c = true)
    (stop : ∀ c, back.head? = some c → p c = false) : (front ++ back).takeWhile p = front := by
  have rest : back.takeWhile p = [] := by
    cases back with
    | nil => rfl
    | cons c back => exact List.takeWhile_cons_of_neg (by simp [stop c rfl])
  rw [List.takeWhile_append_of_pos inside, rest, List.append_nil]

end Numeral
