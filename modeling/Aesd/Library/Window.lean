import Mathlib.Data.List.Basic

/-! A bounded first-in first-out queue: an addition to a full queue drops the oldest
item. After any additions it holds the newest items, in the order of addition. -/
namespace Window

variable {α : Type*}

/-- The last `capacity` items. -/
def latest (capacity : Nat) (items : List α) : List α := items.drop (items.length - capacity)

def push (capacity : Nat) (queue : List α) (item : α) : List α :=
  if queue.length < capacity then queue ++ [item] else queue.tail ++ [item]

@[simp] theorem latest_length (capacity : Nat) (items : List α) :
    (latest capacity items).length = min items.length capacity := by
  simp only [latest, List.length_drop]
  omega

/-- Adding to the newest items gives the newest items of the longer list. -/
theorem push_latest (positive : 0 < capacity) (items : List α) (item : α) :
    push capacity (latest capacity items) item = latest capacity (items ++ [item]) := by
  unfold push
  by_cases room : items.length < capacity
  · have all : latest capacity items = items := by
      unfold latest
      rw [Nat.sub_eq_zero_of_le (Nat.le_of_lt room), List.drop_zero]
    have none : (items ++ [item]).length - capacity = 0 := by
      simp only [List.length_append, List.length_singleton]
      omega
    rw [all, if_pos room, latest, none, List.drop_zero]
  · have full : ¬(latest capacity items).length < capacity := by
      rw [latest_length]
      omega
    have shift : (items ++ [item]).length - capacity = items.length - capacity + 1 := by
      simp only [List.length_append, List.length_singleton]
      omega
    rw [if_neg full, latest, List.tail_drop, latest, shift,
      List.drop_append_of_le_length (by omega)]

theorem foldl_push (positive : 0 < capacity) (before items : List α) :
    items.foldl (push capacity) (latest capacity before) = latest capacity (before ++ items) := by
  induction items generalizing before with
  | nil => rw [List.foldl_nil, List.append_nil]
  | cons item items ih =>
    rw [List.foldl_cons, push_latest positive, ih, List.append_assoc, List.singleton_append]

end Window
