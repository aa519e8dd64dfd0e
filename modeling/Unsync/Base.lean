import Unsync.Lib.Runs

/-!
# Machine words, faults and wakers

Definitions shared by the models of all primitives. The crate is single threaded and is
built for targets of any word size; a model names `usize::MAX` through `Target`.
A `Fault` is an execution that the crate excludes: a panic or abort it never means to
reach, an arithmetic overflow, or an access that would be undefined behaviour.
-/

namespace Unsync

/-- Executions that no documented call sequence may reach. -/
inductive Fault where
  /-- `usize` arithmetic outside its range. -/
  | overflow
  /-- `WaitList::borrow` on a borrowed list, `src/wait_list.rs:267–270`. -/
  | alreadyBorrowed
  /-- `abort()` in a destructor, `src/wait_list.rs:516–520`, or of a reference count that
  would overflow, `src/utils.rs:19–25`. -/
  | abort
  /-- An `unreachable!()` arm. -/
  | unreachable
  /-- A failing `debug_assert!`. -/
  | debugAssert
  /-- An access to a waiter whose future no longer exists. -/
  | dangling
  /-- A union field read that is not the one last written, or a value moved out twice. -/
  | wrongField
  /-- An `unwrap` or `unwrap_unchecked` of `None`. -/
  | unwrapNone
  /-- A loop that outran the bound its model gives it. -/
  | outOfFuel
  deriving DecidableEq, Repr

/-- The compilation target: only the width of `usize` matters to the crate, and the
language has no narrower one. -/
class Target where
  usizeBits : Nat
  wide : 16 ≤ usizeBits

/-- `usize::MAX` on the target. -/
def usizeMax [Target] : Nat := 2 ^ Target.usizeBits - 1

/-- The values of `usize`. -/
abbrev Usize [Target] := { n : Nat // n ≤ usizeMax }

/-- `usize::checked_add`. -/
def checkedAdd [Target] (a b : Nat) : Option Nat :=
  if a + b ≤ usizeMax then some (a + b) else none

/-- `usize::checked_sub`. -/
def checkedSub (a b : Nat) : Option Nat := if b ≤ a then some (a - b) else none

/-- Plain `usize` addition, which must not overflow. -/
def addUsize [Target] (a b : Nat) : Except Fault Nat :=
  if a + b ≤ usizeMax then .ok (a + b) else .error .overflow

/-- Plain `usize` subtraction, which must not underflow. -/
def subUsize (a b : Nat) : Except Fault Nat :=
  if b ≤ a then .ok (a - b) else .error .overflow

/-- `wrapping_sub(1)` of a `usize`. -/
def wrappingDec [Target] (n : Nat) : Nat := if n = 0 then usizeMax else n - 1

/-- `checked_increment`, `src/utils.rs:16–25`. -/
def checkedIncrement [Target] (value : Nat) : Except Fault Nat :=
  if value = usizeMax then .error .abort else .ok (value + 1)

/-- Wakers as the standard library documents them: `will_wake` may miss that two wakers
wake one task, and never claims it of wakers of different tasks. -/
class Waker (W : Type) where
  Task : Type
  task : W → Task
  willWake : W → W → Bool
  task_eq : ∀ {a b : W}, willWake a b = true → task a = task b

/-- `Poll`. -/
inductive Poll (α : Type) where
  | pending
  | ready (value : α)
  deriving DecidableEq, Repr

/-- Store a waker, unless the one that is stored claims to wake the same task:
`if !matches!(&slot, Some(w) if w.will_wake(cx.waker()))`. -/
def register {W : Type} [Waker W] (slot : Option W) (waker : W) : Option W :=
  match slot with
  | some w => if Waker.willWake w waker then some w else some waker
  | none => some waker

/-- The task of the given waker is registered afterwards. -/
theorem register_task {W : Type} [Waker W] (slot : Option W) (waker : W) :
    ∃ w, register slot waker = some w ∧ Waker.task w = Waker.task waker := by
  cases slot with
  | none => exact ⟨waker, rfl, rfl⟩
  | some w =>
    by_cases h : Waker.willWake w waker = true
    · exact ⟨w, by rw [register, if_pos h], Waker.task_eq h⟩
    · exact ⟨waker, by rw [register, if_neg h], rfl⟩

end Unsync
