import Mathlib.Data.List.Nodup
import Mathlib.Logic.Function.Basic

/-! Singly linked lists in memory, over arbitrary addresses. A memory says for each allocated
address which address its cell points to. -/
namespace LinkedList

variable {A : Type*} {cells cells' : A → Option (Option A)} {first : Option A} {l l' : List A}
  {a : A}

/-- The cells met from `first` on until the null pointer. -/
inductive Chain (cells : A → Option (Option A)) : Option A → List A → Prop
  | nil : Chain cells none []
  | cons {a : A} {next : Option A} {rest : List A} (cell : cells a = some next)
      (tail : Chain cells next rest) : Chain cells (some a) (a :: rest)

theorem Chain.unique (chain : Chain cells first l) (other : Chain cells first l') : l = l' := by
  induction chain generalizing l' with
  | nil =>
    cases other with
    | nil => rfl
  | cons cell tail ih =>
    cases other with
    | cons cell' tail' =>
      cases cell.symm.trans cell'
      rw [ih tail']

theorem Chain.allocated (chain : Chain cells first l) (member : a ∈ l) :
    ∃ next, cells a = some next := by
  induction chain with
  | nil => cases member
  | cons cell tail ih =>
    rcases List.mem_cons.mp member with rfl | later
    · exact ⟨_, cell⟩
    · exact ih later

theorem Chain.from_member (chain : Chain cells first l) (member : a ∈ l) :
    ∃ rest, rest.length < l.length ∧ Chain cells (some a) (a :: rest) := by
  induction chain with
  | nil => cases member
  | cons cell tail ih =>
    rcases List.mem_cons.mp member with rfl | later
    · exact ⟨_, Nat.lt_succ_self _, .cons cell tail⟩
    · obtain ⟨rest, shorter, chain⟩ := ih later
      exact ⟨rest, Nat.lt_succ_of_lt shorter, chain⟩

/-- A list that ends has no cycle. -/
theorem Chain.nodup (chain : Chain cells first l) : l.Nodup := by
  induction chain with
  | nil => exact List.nodup_nil
  | @cons a next rest cell tail ih =>
    refine List.nodup_cons.mpr ⟨?_, ih⟩
    intro again
    obtain ⟨back, shorter, chain⟩ := tail.from_member again
    have same := chain.unique (.cons cell tail)
    simp only [List.cons.injEq, true_and] at same
    rw [same] at shorter
    exact Nat.lt_irrefl _ shorter

theorem Chain.frame (chain : Chain cells first l) (same : ∀ a ∈ l, cells' a = cells a) :
    Chain cells' first l := by
  induction chain with
  | nil => exact .nil
  | cons cell tail ih =>
    obtain ⟨here, later⟩ := List.forall_mem_cons.mp same
    exact .cons (here.trans cell) (ih later)

/-- Without its first cell the list is what that cell points to, and the cell can be freed. -/
theorem Chain.remove_head (chain : Chain cells (some a) l) :
    ∃ next rest, cells a = some next ∧ l = a :: rest ∧ a ∉ rest ∧ Chain cells next rest := by
  have nodup := chain.nodup
  cases chain with
  | cons cell tail => exact ⟨_, _, cell, rfl, (List.nodup_cons.mp nodup).1, tail⟩

theorem Chain.update [DecidableEq A] (chain : Chain cells first l) (apart : a ∉ l)
    (cell : Option (Option A)) : Chain (Function.update cells a cell) first l := by
  apply chain.frame
  intro b member
  have different : b ≠ a := by
    rintro rfl
    exact apart member
  exact Function.update_of_ne different _ _

end LinkedList
