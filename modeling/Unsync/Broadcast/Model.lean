import Unsync.BroadRc
import Unsync.VecDeque
import Unsync.Lib.Slab

/-!
# The broadcast channel

Model of `src/broadcast.rs`. Cloning a message returns an equal one. The slab picks the key
of a new entry; here the caller names it, and it may be any vacant one. A loop that wakes or
delivers records the wakers that it woke and the keys that it delivered to, in order.
-/

namespace Unsync
namespace Broadcast

/-- `DEFAULT_CAPACITY`, `src/broadcast.rs:19`. -/
def defaultCapacity : Nat := 16

/-- `UnderCapacity`, `src/broadcast.rs:26`. -/
structure UnderCapacity where
  delivered : Nat
  deriving DecidableEq, Repr

/-- `NonZeroUsize`. -/
abbrev NonZeroUsize := { n : Nat // 0 < n }

/-- The state of one receiver, `src/broadcast.rs:36–45`. -/
structure ReceiverState (T W : Type) where
  id : UInt64
  waker : Option W
  buf : VecDeque T
  unbounded : Bool
  deriving DecidableEq

/-- The interior shared state, `src/broadcast.rs:55–64`. -/
structure Shared (T W : Type) where
  id : UInt64
  sender : Option W
  receivers : Slab (ReceiverState T W)
  capacity : Option NonZeroUsize
  deriving DecidableEq

/-- The interior of a channel behind its handles. -/
abbrev Inner (T W : Type) := BroadRc (Shared T W)

/-- The accumulators of a loop over the receivers: the messages it counted as delivered, the
wakers it woke, and the keys where it appended the message. -/
structure Delivery (W : Type) where
  delivered : Nat
  woken : List W
  pushed : List Nat
  deriving DecidableEq, Repr

/-- The future of `send`, `src/broadcast.rs:272–280`: not polled yet, or awaiting its `Send`. -/
inductive Sending (T : Type) where
  | unresumed (value : T)
  | suspended (value : T)
  deriving DecidableEq, Repr

variable {T W : Type}

/-- Nothing delivered yet. -/
def Delivery.start : Delivery W := ⟨0, [], []⟩

/-- `ReceiverState::at_capacity`, `src/broadcast.rs:49–51`. -/
def ReceiverState.atCapacity (r : ReceiverState T W) : Bool :=
  !r.unbounded && r.buf.capacity == r.buf.len

/-- `channel`, `src/broadcast.rs:474–488`, or `none` where its assertion fails. -/
def channel (capacity : Nat) : Option (Inner T W) :=
  if h : 0 < capacity then some (.new ⟨0, none, .empty, some ⟨capacity, h⟩⟩) else none

/-- `unbounded`, `src/broadcast.rs:509–521`. -/
def unbounded : Inner T W := .new ⟨0, none, .empty, none⟩

/-- `Sender::new_receiver`, `src/broadcast.rs:80–98`, where the slab picks the key. -/
def newReceiver [Target] [Layout T] (inner : Shared T W) (key : Nat) : Shared T W :=
  let (capacity, unbounded) := match inner.capacity with
    | some capacity => (capacity.1, false)
    | none => (defaultCapacity, true)
  { inner with
    receivers := inner.receivers.insert key
      ⟨inner.id, none, .withCapacity capacity, unbounded⟩ }

/-- `Sender::bump_message_id`, `src/broadcast.rs:101–113`. -/
def bumpMessageId (inner : Shared T W) : Shared T W :=
  let id := inner.id + 1
  { inner with id := if id == 0 then 1 else id }

/-- `Sender::subscribe`, `src/broadcast.rs:157–164`, where the slab picks the key. -/
def subscribe [Target] [Layout T] (inner : Inner T W) (key : Nat) : Except Fault (Inner T W) :=
  { inner with value := newReceiver inner.value key }.addWeak

/-- `Sender::subscribers`, `src/broadcast.rs:167–172`. -/
def subscribers (inner : Inner T W) : Nat := inner.value.receivers.len

/-- The loop body of `try_send`, `src/broadcast.rs:213–223`. -/
def ReceiverState.tryDeliver (value : T) (d : Delivery W) (key : Nat) (r : ReceiverState T W) :
    Delivery W × ReceiverState T W :=
  if !r.atCapacity then
    (⟨d.delivered + 1, d.woken ++ r.waker.toList, d.pushed ++ [key]⟩,
      { r with buf := r.buf.pushBack value })
  else (d, r)

/-- `Sender::try_send`, `src/broadcast.rs:201–231`. -/
def trySend (inner : Inner T W) (value : T) :
    Except UnderCapacity Nat × Inner T W × Delivery W :=
  let inner := { inner with value := bumpMessageId inner.value }
  if !inner.anyWeak then (.ok 0, inner, .start)
  else
    let (d, receivers) := inner.value.receivers.forEach (ReceiverState.tryDeliver value) .start
    let inner := { inner with value := { inner.value with receivers := receivers } }
    if d.delivered == inner.value.receivers.len then (.ok d.delivered, inner, d)
    else (.error ⟨d.delivered⟩, inner, d)

/-- The loop body of `Send::poll`, `src/broadcast.rs:311–331`. -/
def ReceiverState.deliver (id : UInt64) (value : T) (d : Delivery W) (key : Nat)
    (r : ReceiverState T W) : Delivery W × ReceiverState T W :=
  if r.id == id then ({ d with delivered := d.delivered + 1 }, r)
  else if r.atCapacity then (d, r)
  else
    (⟨d.delivered + 1, d.woken ++ r.waker.toList, d.pushed ++ [key]⟩,
      { r with buf := r.buf.pushBack value, id := id })

variable [Waker W]

/-- `Send::poll`, `src/broadcast.rs:295–339`. -/
def sendPoll (value : T) (inner : Inner T W) (waker : W) : Poll Nat × Inner T W × Delivery W :=
  if !inner.anyWeak then (.ready 0, inner, .start)
  else
    let inner := { inner with
      value := { inner.value with sender := register inner.value.sender waker } }
    let (d, receivers) :=
      inner.value.receivers.forEach (ReceiverState.deliver inner.value.id value) .start
    let inner := { inner with value := { inner.value with receivers := receivers } }
    if d.delivered == inner.value.receivers.len then (.ready d.delivered, inner, d)
    else (.pending, inner, d)

/-- `Recv::poll`, `src/broadcast.rs:394–429`. -/
def recvPoll (inner : Inner T W) (index : Nat) (waker : W) :
    Poll (Option T) × Inner T W × List W :=
  let put (receiver : ReceiverState T W) : Inner T W := { inner with
    value := { inner.value with receivers := inner.value.receivers.set index receiver } }
  match inner.value.receivers.get? index with
  | none => (.ready none, inner, [])
  | some receiver =>
    match receiver.buf.popFront with
    | some (value, buf) =>
      (.ready (some value), put { receiver with buf := buf }, inner.value.sender.toList)
    | none =>
      if !inner.anyStrong then (.ready none, put { receiver with waker := none }, [])
      else
        (.pending, put { receiver with waker := register receiver.waker waker },
          inner.value.sender.toList)

omit [Waker W] in
/-- The loop body in the drop of the `Sender`, `src/broadcast.rs:441–445`. -/
def ReceiverState.takeWaker (woken : List W) (_key : Nat) (r : ReceiverState T W) :
    List W × ReceiverState T W :=
  (woken ++ r.waker.toList, { r with waker := none })

omit [Waker W] in
/-- Drop of the `Sender`, `src/broadcast.rs:433–448`, and of its handle. -/
def dropSender [Target] (inner : Inner T W) : Except Fault (Option (Inner T W) × List W) := do
  let (woken, receivers) := inner.value.receivers.forEach ReceiverState.takeWaker []
  let rest ← { inner with value := { inner.value with receivers := receivers } }.dropStrong
  .ok (rest, woken)

omit [Waker W] in
/-- Drop of a `Receiver`, `src/broadcast.rs:450–462`, and of its handle. -/
def dropReceiver [Target] (inner : Inner T W) (index : Nat) :
    Except Fault (Option (Inner T W) × List W) := do
  let rest ← { inner with
    value := { inner.value with
      receivers := inner.value.receivers.remove index
      sender := none } }.dropWeak
  .ok (rest, inner.value.sender.toList)

end Broadcast
end Unsync
