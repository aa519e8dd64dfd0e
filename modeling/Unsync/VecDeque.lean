import Unsync.Base

/-!
# The double-ended queue of the standard library

What the channels use of `VecDeque`, as the standard library documents it. Memory never runs
out, and a type decides whether its values take space.
-/

namespace Unsync

/-- Whether the values of a type take no space. -/
class Layout (T : Type) where
  zeroSized : Bool

/-- `VecDeque`: the items from front to back, and the number of items that fit. -/
structure VecDeque (T : Type) where
  items : List T
  capacity : Nat
  deriving DecidableEq, Repr

namespace VecDeque

variable {T : Type}

/-- `VecDeque::with_capacity`: a zero-sized type needs no space. -/
def withCapacity [Target] [Layout T] (capacity : Nat) : VecDeque T :=
  ⟨[], if Layout.zeroSized T then usizeMax else capacity⟩

/-- `VecDeque::len`. -/
def len (d : VecDeque T) : Nat := d.items.length

/-- `VecDeque::push_back`. A queue that is full grows first. -/
def pushBack (d : VecDeque T) (value : T) : VecDeque T :=
  ⟨d.items ++ [value], max d.capacity (d.len + 1)⟩

/-- `VecDeque::pop_front`. -/
def popFront (d : VecDeque T) : Option (T × VecDeque T) :=
  match d.items with
  | [] => none
  | value :: rest => some (value, { d with items := rest })

/-- A queue reports the capacity that it was made for, unless its values take no space. -/
theorem withCapacity_capacity [Target] [Layout T] {c : Nat}
    (h : Layout.zeroSized T = false ∨ c = usizeMax) :
    (withCapacity c : VecDeque T).capacity = c := by
  show (if Layout.zeroSized T then usizeMax else c) = c
  rcases h with h | rfl
  · simp [h]
  · exact ite_self _

/-- A queue of values that take no space never has to grow. -/
theorem withCapacity_zeroSized [Target] [Layout T] {c : Nat} (h : Layout.zeroSized T = true) :
    (withCapacity c : VecDeque T).capacity = usizeMax := if_pos h

@[simp] theorem pushBack_items (d : VecDeque T) (value : T) :
    (d.pushBack value).items = d.items ++ [value] := rfl

/-- Nothing is popped from an empty queue. -/
theorem popFront_eq_none {d : VecDeque T} : d.popFront = none ↔ d.items = [] := by
  unfold popFront
  split
  · next h => simp [h]
  · next h => simp [h]

/-- What is popped was at the front. -/
theorem popFront_eq_some {d d' : VecDeque T} {value : T} (h : d.popFront = some (value, d')) :
    d.items = value :: d'.items ∧ d'.capacity = d.capacity := by
  unfold popFront at h
  split at h
  · cases h
  · next v rest hitems =>
    rw [Option.some.injEq, Prod.mk.injEq] at h
    obtain ⟨rfl, rfl⟩ := h
    exact ⟨hitems, rfl⟩

end VecDeque

end Unsync
