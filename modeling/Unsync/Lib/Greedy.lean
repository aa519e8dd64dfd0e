import Mathlib.Algebra.BigOperators.Group.List.Basic
import Mathlib.Algebra.Order.Sub.Basic

/-!
# The longest affordable prefix

A budget is spent on a queue of items from the front, until the item in front costs more
than is left. Items behind it wait, whatever they cost. Budgets and costs are taken from
any linearly ordered commutative monoid with truncated subtraction.
-/

namespace Greedy

universe u v

variable {α : Type u} {M : Type v} [AddCommMonoid M] [LinearOrder M] [Sub M] (cost : α → M)

/-- What all items cost together. -/
def total (xs : List α) : M := (xs.map cost).sum

/-- The items paid for, from the front. -/
def served : M → List α → List α
  | _, [] => []
  | n, x :: xs => if cost x ≤ n then x :: served (n - cost x) xs else []

/-- The items left waiting. -/
def unserved : M → List α → List α
  | _, [] => []
  | n, x :: xs => if cost x ≤ n then unserved (n - cost x) xs else x :: xs

omit [LinearOrder M] [Sub M] in
/-- No items cost nothing. -/
@[simp] theorem total_nil : total cost [] = 0 := rfl

omit [LinearOrder M] [Sub M] in
/-- The first item adds its cost. -/
@[simp] theorem total_cons (x : α) (xs : List α) :
    total cost (x :: xs) = cost x + total cost xs := by
  simp [total]

omit [LinearOrder M] [Sub M] in
/-- Costs of adjacent stretches add up. -/
@[simp] theorem total_append (xs ys : List α) :
    total cost (xs ++ ys) = total cost xs + total cost ys := by
  simp [total]

omit [LinearOrder M] [Sub M] in
/-- Removing an item removes its cost. -/
theorem total_erase [DecidableEq α] {x : α} {xs : List α} (h : x ∈ xs) :
    cost x + total cost (xs.erase x) = total cost xs := by
  rw [← total_cons]
  exact ((List.perm_cons_erase h).map cost).symm.sum_eq

omit [AddCommMonoid M] in
/-- Nobody is lost, and nobody changes places. -/
theorem served_append_unserved (n : M) (xs : List α) :
    served cost n xs ++ unserved cost n xs = xs := by
  induction xs generalizing n with
  | nil => rfl
  | cons x xs ih =>
    by_cases h : cost x ≤ n
    · simp only [served, unserved, if_pos h, List.cons_append, ih]
    · simp only [served, unserved, if_neg h, List.nil_append]

variable [CanonicallyOrderedAdd M] [OrderedSub M] [IsOrderedCancelAddMonoid M]

/-- The budget covers everyone served. -/
theorem total_served_le (n : M) (xs : List α) : total cost (served cost n xs) ≤ n := by
  induction xs generalizing n with
  | nil => exact zero_le
  | cons x xs ih =>
    by_cases h : cost x ≤ n
    · simp only [served, if_pos h, total_cons]
      exact (add_le_add_right (ih (n - cost x)) (cost x)).trans_eq (add_tsub_cancel_of_le h)
    · simp only [served, if_neg h, total_nil]
      exact zero_le

omit [CanonicallyOrderedAdd M] in
/-- Service stops only where the budget runs short of the next item. -/
theorem lt_of_unserved {n : M} {xs ys : List α} {y : α} (hu : unserved cost n xs = y :: ys) :
    n < total cost (served cost n xs) + cost y := by
  induction xs generalizing n with
  | nil => cases hu
  | cons x xs ih =>
    by_cases h : cost x ≤ n
    · rw [unserved, if_pos h] at hu
      rw [served, if_pos h, total_cons, add_assoc]
      exact lt_of_not_ge fun hle => (ih hu).not_ge (le_tsub_of_add_le_left hle)
    · rw [unserved, if_neg h, List.cons.injEq] at hu
      rw [served, if_neg h, total_nil, zero_add, ← hu.1]
      exact lt_of_not_ge h

end Greedy
