import Unsync.Base

/-!
# The container with two handles

Model of `src/bi_rc.rs`: a value that lives as long as either of two handles, and that
tells whether both are still there.
-/

namespace Unsync

/-- The allocation behind the handles, `src/bi_rc.rs:20–25`. -/
structure BiRc (α : Type) where
  value : α
  count : Nat
  deriving DecidableEq, Repr

namespace BiRc

variable {α : Type}

/-- `BiRc::new`, `src/bi_rc.rs:39–46`. -/
def new (value : α) : BiRc α := ⟨value, 2⟩

/-- The flag that `BiRc::get_mut_unchecked` returns with the value, `src/bi_rc.rs:55–58`. -/
def bothPresent (b : BiRc α) : Bool := b.count == 2

/-- Drop of a handle, which releases the allocation when it was the last one,
`src/bi_rc.rs:61–74`. -/
def drop [Target] (b : BiRc α) : Option (BiRc α) :=
  let count := wrappingDec b.count
  if count = 0 then none else some { b with count := count }

/-- The number of handles among two ends. -/
def handles (one two : Bool) : Nat := one.toNat + two.toNat

/-- Both handles are there exactly when both ends are. -/
theorem bothPresent_iff {b : BiRc α} {one two : Bool} (h : b.count = handles one two) :
    b.bothPresent = (one && two) := by
  unfold bothPresent
  rw [h]
  cases one <;> cases two <;> rfl

/-- The order of the ends does not matter. -/
theorem handles_comm (one two : Bool) : handles one two = handles two one := Nat.add_comm _ _

/-- Dropping a handle releases the value unless the other end is there. -/
theorem drop_eq [Target] {b : BiRc α} {other : Bool} (h : b.count = handles true other) :
    b.drop = if other then some { b with count := handles false other } else none := by
  cases other with
  | false => simp [drop, wrappingDec, h, handles]
  | true => simp [drop, wrappingDec, h, handles]

end BiRc
end Unsync
