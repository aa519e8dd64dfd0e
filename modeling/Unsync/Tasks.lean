import Unsync.Lib.Executor
import Unsync.Wakes

/-!
# Tasks that wake each other

A program assigns a role to each task that it spawns. The wakers that the primitives of the
crate record are those of the tasks, and a task that is woken is polled again. A task whose
latest poll is pending and was not followed by a wake-up of that task is asleep.
-/

namespace Unsync

open Executor

/-- A waker as an executor makes it: a numbered clone of a handle on a task. -/
structure TaskWaker (ι : Type) where
  role : ι
  number : Nat
  deriving DecidableEq, Repr

instance (ι : Type) [DecidableEq ι] : Waker (TaskWaker ι) where
  Task := ι
  task w := w.role
  willWake a b := a == b
  task_eq h := by rw [eq_of_beq h]

variable {W ι : Type} [Waker W]

/-- The role of the task that a waker wakes. -/
def roleOf (name : Waker.Task W → ι) (waker : W) : ι := name (Waker.task waker)

/-- A turn during which the record of wakers grew. -/
def turnOf (name : Waker.Task W → ι) (again : Bool) (before after : List W) : Turn ι :=
  ⟨again, (after.drop before.length).map (roleOf name)⟩

/-- The task of a pending poll was not woken since. -/
def Asleep (name : Waker.Task W → ι) (wakes : List W) (pending : Option (W × Nat))
    (role : ι) : Prop :=
  ∃ w n, pending = some (w, n) ∧ roleOf name w = role ∧ ¬ WokenSince wakes w n

variable {name : Waker.Task W → ι} {wakes new : List W} {pending : Option (W × Nat)} {role : ι}

/-- Nobody was woken in the turn. -/
@[simp] theorem turnOf_self (again : Bool) : turnOf name again wakes wakes = ⟨again, []⟩ := by
  simp [turnOf]

/-- The wakers at the end of the record were woken in the turn. -/
@[simp] theorem turnOf_append (again : Bool) :
    turnOf name again wakes (wakes ++ new) = ⟨again, new.map (roleOf name)⟩ := by
  simp [turnOf]

/-- A poll that is pending puts its task to sleep. -/
theorem Asleep.park {w : W} (hw : roleOf name w = role) :
    Asleep name wakes (some (w, wakes.length)) role := by
  refine ⟨w, wakes.length, rfl, hw, ?_⟩
  rintro ⟨v, hv, -⟩
  simp at hv

/-- A task sleeps until it is woken. -/
theorem Asleep.keep {live : Bool} {asleep : W → Prop} (h : Asleep name wakes pending role)
    (ha : Awake wakes pending live asleep) (hn : role ∉ new.map (roleOf name)) :
    Asleep name (wakes ++ new) pending role := by
  obtain ⟨w, n, hp, hw, hno⟩ := h
  refine ⟨w, n, hp, hw, ?_⟩
  rw [wokenSince_append (ha.live w n hp).2]
  rintro (hwoken | ⟨v, hv, ht⟩)
  · exact hno hwoken
  · exact hn (List.mem_map.mpr ⟨v, hv, by rw [roleOf, ht]; exact hw⟩)

/-- A sleeping task waits for what its primitive says. -/
theorem Asleep.reason {live : Bool} {asleep : W → Prop} (h : Asleep name wakes pending role)
    (ha : Awake wakes pending live asleep) : ∃ w, asleep w ∧ live = true := by
  obtain ⟨w, n, hp, -, hno⟩ := h
  exact ⟨w, ha.asleep w n hp hno, (ha.live w n hp).1⟩

/-- A task registers one of its own wakers. -/
theorem roleOf_register {slot : Option W} {w : W} (hw : roleOf name w = role) :
    ∀ v, register slot w = some v → roleOf name v = role := by
  intro v hv
  obtain ⟨u, hu, ht⟩ := register_task slot w
  cases hv.symm.trans hu
  rw [roleOf, ht]
  exact hw

end Unsync
