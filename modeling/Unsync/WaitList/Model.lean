import Unsync.WaitList.Queue
import Mathlib.Logic.Function.Basic

/-!
# The intrusive wait list

`src/wait_list.rs` at pointer level. Every waiter lives in the memory of its pinned wait
future and is linked by raw pointers; the union that holds its input or its output is read
through whichever field the code names. Addresses of dropped futures are not used again, so
following a pointer to one is the fault `dangling`. Wakers only record that they were woken.
-/

namespace Unsync

/-- The address of a pinned `UnsafeCell<Waiter>`. -/
abbrev Addr := Nat

/-- `union State`: the field last written, or nothing once `ManuallyDrop::take` moved it out,
`src/wait_list.rs:190–196`. -/
inductive State (I O : Type) where
  | input (i : I)
  | output (o : O)
  | moved
  deriving DecidableEq, Repr

/-- `Waiter`, `src/wait_list.rs:174–188`. -/
structure Waiter (I O W : Type) where
  next : Option Addr
  prev : Option Addr
  state : State I O
  waker : Option W

/-- `WaitList` and its `Inner`, `src/wait_list.rs:83–105`, with the waiters that live in
memory and the record of woken wakers. -/
structure WaitList (I O W : Type) where
  borrowed : Bool
  head : Option Addr
  tail : Option Addr
  memory : Addr → Option (Waiter I O W)
  wakes : List W

namespace WaitList

variable {I O W : Type}

/-- `WaitList::new`, `src/wait_list.rs:221–229`. -/
def new : WaitList I O W := ⟨false, none, none, fun _ => none, []⟩

/-- Read the waiter behind a pointer. -/
def deref (l : WaitList I O W) (a : Addr) : Except Fault (Waiter I O W) :=
  match l.memory a with
  | some w => .ok w
  | none => .error .dangling

/-- Overwrite the waiter behind a pointer. -/
def write (l : WaitList I O W) (a : Addr) (w : Waiter I O W) : WaitList I O W :=
  { l with memory := Function.update l.memory a (some w) }

/-- Give up the memory of a finished or dropped future. -/
def free (l : WaitList I O W) (a : Addr) : WaitList I O W :=
  { l with memory := Function.update l.memory a none }

/-- `debug_assert!`. -/
def assert (p : Prop) [Decidable p] : Except Fault Unit :=
  if p then .ok () else .error .debugAssert

/-- `WaitList::borrow`, `src/wait_list.rs:244–270`. -/
def borrow (l : WaitList I O W) : Except Fault (WaitList I O W) :=
  if l.borrowed then .error .alreadyBorrowed else .ok { l with borrowed := true }

/-- `Borrowed::drop`, `src/wait_list.rs:464–469`. -/
def unborrow (l : WaitList I O W) : Except Fault (WaitList I O W) :=
  if l.borrowed then .ok { l with borrowed := false } else .error .debugAssert

/-- The update of the old tail in `Inner::enqueue`, `src/wait_list.rs:122–126`. -/
def linkTail (l : WaitList I O W) (waiter : Addr) : Except Fault (WaitList I O W) :=
  match l.tail with
  | some prev => do
    let p ← l.deref prev
    assert (p.next = none)
    .ok (l.write prev { p with next := some waiter })
  | none => .ok l

/-- `Inner::enqueue`, `src/wait_list.rs:114–133`. -/
def enqueue (l : WaitList I O W) (waiter : Addr) : Except Fault (WaitList I O W) := do
  let w ← l.deref waiter
  let l := l.write waiter { w with prev := l.tail }
  let l ← l.linkTail waiter
  .ok { l with tail := some waiter, head := l.head <|> some waiter }

/-- The first half of `Inner::dequeue`, through `prev_next_pointer`,
`src/wait_list.rs:144–151`. -/
def unlinkNext (l : WaitList I O W) (waiter : Addr) (next prev : Option Addr) :
    Except Fault (WaitList I O W) :=
  match prev with
  | some prev => do
    let p ← l.deref prev
    assert (p.next = some waiter)
    .ok (l.write prev { p with next := next })
  | none => do
    assert (l.head = some waiter)
    .ok { l with head := next }

/-- The second half of `Inner::dequeue`, through `next_prev_pointer`,
`src/wait_list.rs:153–160`. -/
def unlinkPrev (l : WaitList I O W) (waiter : Addr) (next prev : Option Addr) :
    Except Fault (WaitList I O W) :=
  match next with
  | some next => do
    let n ← l.deref next
    assert (n.prev = some waiter)
    .ok (l.write next { n with prev := prev })
  | none => do
    assert (l.tail = some waiter)
    .ok { l with tail := prev }

/-- `Inner::dequeue`, `src/wait_list.rs:140–161`. The links of the removed waiter itself
are left as they were. -/
def dequeue (l : WaitList I O W) (waiter : Addr) : Except Fault (WaitList I O W) := do
  let w ← l.deref waiter
  let l ← l.unlinkNext waiter w.next w.prev
  l.unlinkPrev waiter w.next w.prev

/-- `ManuallyDrop::take` of the input field. -/
def takeInput : State I O → Except Fault I
  | .input i => .ok i
  | _ => .error .wrongField

/-- `ManuallyDrop::take` of the output field. -/
def takeOutput : State I O → Except Fault O
  | .output o => .ok o
  | _ => .error .wrongField

/-- `Borrowed::is_empty`, `src/wait_list.rs:341–343`. -/
def isEmpty (l : WaitList I O W) : Bool := l.head.isNone

/-- `Borrowed::head_input`, `src/wait_list.rs:348–352`. -/
def headInput (l : WaitList I O W) : Except Fault (Option I) :=
  match l.head with
  | none => .ok none
  | some head => do
    let w ← l.deref head
    let i ← takeInput w.state
    .ok (some i)

/-- `Waker::wake`: only the call is recorded. -/
def wake (l : WaitList I O W) (waker : W) : WaitList I O W := { l with wakes := l.wakes ++ [waker] }

/-- `Borrowed::wake_one`, `src/wait_list.rs:426–461`. -/
def wakeOne (l : WaitList I O W) (output : O) : Except Fault (Except O I × WaitList I O W) :=
  match l.head with
  | none => .ok (.error output, l)
  | some head => do
    let w ← l.deref head
    match w.waker with
    | none => .error .unreachable
    | some waker => do
      let input ← takeInput w.state
      let l := l.write head { w with waker := none, state := .output output }
      let l ← l.dequeue head
      .ok (.ok input, l.wake waker)

/-- `Borrowed::wake_one` up to its call of `wake`, `src/wait_list.rs:427–456`, with the input
that it returns and the waker that it wakes. -/
def takeHead (l : WaitList I O W) (output : O) :
    Except Fault (Except O (I × W) × WaitList I O W) :=
  match l.head with
  | none => .ok (.error output, l)
  | some head => do
    let w ← l.deref head
    match w.waker with
    | none => .error .unreachable
    | some waker => do
      let input ← takeInput w.state
      let l := l.write head { w with waker := none, state := .output output }
      let l ← l.dequeue head
      .ok (.ok (input, waker), l)

/-- `wake_one` wakes last. -/
theorem wakeOne_eq (l : WaitList I O W) (output : O) :
    l.wakeOne output = (do
      let (taken, l) ← l.takeHead output
      match taken with
      | .error output => .ok (.error output, l)
      | .ok (input, waker) => .ok (.ok input, l.wake waker)) := by
  unfold wakeOne takeHead
  cases l.head with
  | none => rfl
  | some head =>
    simp only
    cases l.deref head with
    | error e => rfl
    | ok w =>
      simp only [Runs.ok_bind]
      cases w.waker with
      | none => rfl
      | some waker =>
        simp only
        cases takeInput w.state with
        | error e => rfl
        | ok i =>
          simp only [Runs.ok_bind]
          cases (l.write head { w with waker := none, state := .output output }).dequeue head with
          | error e => rfl
          | ok l => rfl

variable [Waker W]

/-- `WaitInner::poll`, `src/wait_list.rs:494–511`; the flag says whether it is ready. -/
def pollInner (l : WaitList I O W) (waiter : Addr) (cx : W) :
    Except Fault (Bool × WaitList I O W) := do
  let l ← l.borrow
  let w ← l.deref waiter
  match w.waker with
  | some old => do
    let l := if Waker.willWake old cx then l else l.write waiter { w with waker := some cx }
    let l ← l.unborrow
    .ok (false, l)
  | none => do
    let l ← l.unborrow
    .ok (true, l)

/-- `WaitInner::drop`, `src/wait_list.rs:514–528`. -/
def dropInner (l : WaitList I O W) (waiter : Addr) : Except Fault (WaitList I O W) :=
  if l.borrowed then .error .abort
  else do
    let l := { l with borrowed := true }
    let w ← l.deref waiter
    let l ← if w.waker.isSome then l.dequeue waiter else .ok l
    l.unborrow

/-- `Waiter::drop`, `src/wait_list.rs:198–208`, and the end of its memory. -/
def dropWaiter (l : WaitList I O W) (waiter : Addr) :
    Except Fault (WaitQueue.Owned I O × WaitList I O W) := do
  let w ← l.deref waiter
  if w.waker.isSome then do
    let i ← takeInput w.state
    .ok (.input i, l.free waiter)
  else do
    let o ← takeOutput w.state
    .ok (.output o, l.free waiter)

/-- Later poll of `wait`. When ready, `WaitInner` is dropped and the output moved out of
the waiter, whose destructor does not run, `src/wait_list.rs:293–298`. -/
def waitAgain (l : WaitList I O W) (waiter : Addr) (cx : W) :
    Except Fault (Option O × WaitList I O W) := do
  let (ready, l) ← l.pollInner waiter cx
  if ready then do
    let l ← l.dropInner waiter
    let w ← l.deref waiter
    assert (w.waker.isNone)
    let o ← takeOutput w.state
    .ok (some o, l.free waiter)
  else .ok (none, l)

/-- First poll of `wait(input)`: the waiter is built, `WaitInner::new` enqueues it and the
future goes on as in any later poll, `src/wait_list.rs:280–294,481–488`. -/
def waitFirst (l : WaitList I O W) (waiter : Addr) (input : I) (cx : W) :
    Except Fault (Option O × WaitList I O W) := do
  let l := l.write waiter { next := none, prev := none, state := .input input, waker := some cx }
  let l ← l.borrow
  let l ← l.enqueue waiter
  let l ← l.unborrow
  l.waitAgain waiter cx

/-- Drop of a wait future that was polled: `WaitInner`, then the waiter,
`src/wait_list.rs:514–528,198–208`. -/
def waitDrop (l : WaitList I O W) (waiter : Addr) :
    Except Fault (WaitQueue.Owned I O × WaitList I O W) := do
  let l ← l.dropInner waiter
  l.dropWaiter waiter

end WaitList

end Unsync
