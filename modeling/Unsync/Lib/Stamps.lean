import Mathlib.Logic.Function.Iterate

/-!
# Stamps of a counter that wraps around

Things are stamped with a counter, and the stamps are compared with the counter later. The age
of a stamp is how often the counter was advanced since. While a stamp is younger than the
shortest way around, it equals the counter if and only if the counter was not advanced.
-/

namespace Stamps

universe u v

variable {α : Type u} {next : α → α} {now stamp : α} {age n : Nat}

/-- Fewer steps than `n` never lead back. -/
def NoReturn (next : α → α) (n : Nat) : Prop := ∀ a k, 0 < k → k < n → next^[k] a ≠ a

/-- The counter was advanced so often since it made the stamp. -/
def Stamped (next : α → α) (now stamp : α) (age : Nat) : Prop := now = next^[age] stamp

/-- A new stamp. -/
theorem Stamped.new : Stamped next now now 0 := rfl

/-- The counter is advanced, and the stamp gets older. -/
theorem Stamped.tick (h : Stamped next now stamp age) :
    Stamped next (next now) stamp (age + 1) := by
  show next now = next^[age + 1] stamp
  rw [Function.iterate_succ_apply', ← h]

/-- A stamp that is not too old is the counter itself if and only if it is new. -/
theorem Stamped.eq_now_iff (h : Stamped next now stamp age) (hn : NoReturn next n)
    (hage : age < n) : stamp = now ↔ age = 0 := by
  constructor
  · intro heq
    by_contra hne
    apply hn stamp age (Nat.pos_of_ne_zero hne) hage
    rw [← h, heq]
  · intro hzero
    rw [h, hzero, Function.iterate_zero, id_eq]

/-! ### The stamps under keys -/

variable {κ : Type v} [DecidableEq κ] {ages : κ → Nat} {ticks : Nat} {stamped : List κ} {k : κ}

/-- The ages of the stamps under keys, once the counter was advanced and some keys were then
stamped again. -/
def advance (ages : κ → Nat) (ticks : Nat) (stamped : List κ) (k : κ) : Nat :=
  if k ∈ stamped then 0 else ages k + ticks

/-- A key that is stamped again has a new stamp. -/
theorem advance_of_mem (h : k ∈ stamped) : advance ages ticks stamped k = 0 := if_pos h

/-- The stamps under the other keys get older. -/
theorem advance_of_notMem (h : k ∉ stamped) : advance ages ticks stamped k = ages k + ticks :=
  if_neg h

/-- Without new stamps, all get older. -/
theorem advance_nil : advance ages ticks [] = fun k => ages k + ticks := by
  ext k
  exact advance_of_notMem List.not_mem_nil

/-- Nothing happened. -/
@[simp] theorem advance_zero_nil : advance ages 0 [] = ages := advance_nil

/-- First the counter is advanced, then keys are stamped again. -/
theorem advance_advance :
    advance (advance ages ticks []) 0 stamped = advance ages ticks stamped := by
  rw [advance_nil]
  rfl

end Stamps
