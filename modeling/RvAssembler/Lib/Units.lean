import Mathlib.Data.Nat.Notation
import Mathlib.Data.List.Basic
import Mathlib.Tactic.Common

namespace RvAssembler.Units

variable {α : Type*} (more : α → Option ℕ)

/-- A first element, and as many more as it says. -/
def IsUnit : List α → Prop
  | [] => False
  | a :: as => more a = some as.length

/-- Takes one unit after the other; nothing if an element starts no unit or the last unit is
cut off. -/
def split : List α → Option (List (List α))
  | [] => some []
  | a :: as =>
    match more a with
    | none => none
    | some n =>
      if n ≤ as.length then (split (as.drop n)).map ((a :: as.take n) :: ·) else none
termination_by as => as.length
decreasing_by
  rw [List.length_drop, List.length_cons]
  omega

variable {more}

theorem split_cons {a : α} {as : List α} (h : more a = some as.length) (bs : List α) :
    split more (a :: as ++ bs) = (split more bs).map ((a :: as) :: ·) := by
  rw [List.cons_append, split, h]
  simp

/-- A concatenation of units splits into them. -/
theorem split_flatten {us : List (List α)} (h : ∀ u ∈ us, IsUnit more u) :
    split more us.flatten = some us := by
  induction us with
  | nil => rw [List.flatten_nil, split]
  | cons u us ih =>
    obtain ⟨hu, hus⟩ := List.forall_mem_cons.mp h
    cases u with
    | nil => exact hu.elim
    | cons a as => rw [List.flatten_cons, split_cons hu, ih hus, Option.map_some]

end RvAssembler.Units
