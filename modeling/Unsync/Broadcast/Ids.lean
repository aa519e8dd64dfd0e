import Unsync.Broadcast.Pass
import Mathlib.Logic.Function.Iterate

/-!
# The cycle of message ids

`bump_message_id` runs through the numbers from 1 to `u64::MAX` and skips 0 when it wraps
around. So ids repeat after as many bumps as there are ids, and not before.
-/

namespace Unsync
namespace Broadcast

variable {T W : Type}

/-- The id after the given one, `src/broadcast.rs:107–112`. -/
def nextId (id : UInt64) : UInt64 := if id + 1 == 0 then 1 else id + 1

/-- Bumping moves to the next id. -/
theorem bumpMessageId_eq (inner : Shared T W) :
    bumpMessageId inner = { inner with id := nextId inner.id } := rfl

/-- The next id as a number. -/
theorem nextId_toNat (id : UInt64) : (nextId id).toNat = id.toNat % messageIds + 1 := by
  have hlt : id.toNat < 2 ^ 64 := id.toNat_lt
  have hadd : (id + 1).toNat = (id.toNat + 1) % 2 ^ 64 := UInt64.toNat_add id 1
  have hzero : id + 1 = 0 ↔ id.toNat = 2 ^ 64 - 1 := by
    rw [← UInt64.toNat_inj, hadd]
    show (id.toNat + 1) % 2 ^ 64 = 0 ↔ _
    omega
  unfold nextId messageIds
  by_cases h : id.toNat = 2 ^ 64 - 1
  · rw [if_pos (beq_iff_eq.mpr (hzero.mpr h)), h]
    rfl
  · rw [if_neg (by rw [beq_iff_eq, hzero]; exact h), hadd]
    omega

/-- No message has the id 0. -/
theorem nextId_ne_zero (id : UInt64) : nextId id ≠ 0 := by
  intro h
  have hn := nextId_toNat id
  rw [h] at hn
  cases hn

/-- The id after a number of bumps, as a number. -/
theorem nextId_iterate_toNat {id : UInt64} (h : id ≠ 0) (k : Nat) :
    (nextId^[k] id).toNat = (id.toNat - 1 + k) % messageIds + 1 := by
  have hpos : id.toNat ≠ 0 := fun hz => h (UInt64.toNat_inj.mp hz)
  have hlt : id.toNat < 2 ^ 64 := id.toNat_lt
  induction k with
  | zero =>
    rw [Function.iterate_zero, id_eq, messageIds]
    omega
  | succ k ih =>
    rw [Function.iterate_succ_apply', nextId_toNat, ih, Nat.mod_add_mod]
    rfl

/-- Fewer bumps than there are ids never lead back. -/
theorem nextId_iterate_ne {id : UInt64} {k : Nat} (h1 : 0 < k) (h2 : k < messageIds) :
    nextId^[k] id ≠ id := by
  intro he
  by_cases hz : id = 0
  · obtain ⟨j, rfl⟩ := Nat.exists_eq_succ_of_ne_zero (Nat.pos_iff_ne_zero.mp h1)
    rw [Function.iterate_succ_apply', hz] at he
    exact nextId_ne_zero _ he
  · have hn := nextId_iterate_toNat hz k
    have hlt : id.toNat < 2 ^ 64 := id.toNat_lt
    have hpos : id.toNat ≠ 0 := fun hz' => hz (UInt64.toNat_inj.mp hz')
    rw [he] at hn
    unfold messageIds at h2 hn
    omega

end Broadcast
end Unsync
