import Unsync.BiRc
import Unsync.VecDeque

/-!
# The single-producer, single-consumer channel

Model of `src/spsc.rs`. Values of the message type are handed over as they are. A method
that wakes returns the wakers that it woke, in order.
-/

namespace Unsync
namespace Spsc

/-- The interior shared state, `src/spsc.rs:37–46`: the registered wakers, the buffer, and
whether the channel is unbounded. -/
structure Shared (T W : Type) where
  tx : Option W
  rx : Option W
  buf : VecDeque T
  unbounded : Bool
  deriving DecidableEq, Repr

/-- `SendError`, `src/spsc.rs:21`. -/
structure SendError (T : Type) where
  value : T
  deriving DecidableEq, Repr

/-- The future `Send`, `src/spsc.rs:161–164`. -/
structure Send (T : Type) where
  value : Option T
  deriving DecidableEq, Repr

/-- The interior of a channel behind its two handles. -/
abbrev Inner (T W : Type) := BiRc (Shared T W)

variable {T W : Type}

/-- `Shared::at_capacity`, `src/spsc.rs:50–52`. -/
def Shared.atCapacity (s : Shared T W) : Bool := !s.unbounded && s.buf.capacity == s.buf.len

/-- `channel`, `src/spsc.rs:320–334`, or `none` where its assertion fails. -/
def channel [Target] [Layout T] (capacity : Nat) : Option (Inner T W) :=
  if 0 < capacity then some (.new ⟨none, none, .withCapacity capacity, false⟩) else none

/-- `unbounded`, `src/spsc.rs:339–351`. -/
def unbounded [Target] [Layout T] : Inner T W := .new ⟨none, none, .withCapacity 0, true⟩

/-- Append a message to the buffer. -/
def Shared.pushBack (s : Shared T W) (value : T) : Shared T W :=
  { s with buf := s.buf.pushBack value }

/-- `Sender::try_send`, `src/spsc.rs:98–114`. -/
def trySend (inner : Inner T W) (value : T) :
    Except (SendError T) Unit × Inner T W × List W :=
  if !inner.bothPresent || inner.value.atCapacity then (.error ⟨value⟩, inner, [])
  else (.ok (), { inner with value := inner.value.pushBack value }, inner.value.rx.toList)

variable [Waker W]

/-- `Send::poll`, `src/spsc.rs:169–201`. -/
def Send.poll (this : Send T) (inner : Inner T W) (waker : W) :
    Except Fault (Poll (Except (SendError T) Unit) × Send T × Inner T W × List W) :=
  if !inner.bothPresent then
    match this.value with
    | none => .error .unwrapNone
    | some value =>
      .ok (.ready (.error ⟨value⟩), ⟨none⟩,
        { inner with value := { inner.value with tx := none } }, [])
  else if inner.value.atCapacity then
    .ok (.pending, this,
      { inner with value := { inner.value with tx := register inner.value.tx waker } }, [])
  else
    match this.value with
    | none => .error .unwrapNone
    | some value =>
      .ok (.ready (.ok ()), ⟨none⟩, { inner with value := inner.value.pushBack value },
        inner.value.rx.toList)

/-- `Recv::poll`, `src/spsc.rs:259–289`. -/
def recvPoll (inner : Inner T W) (waker : W) : Poll (Option T) × Inner T W × List W :=
  match inner.value.buf.popFront with
  | some (value, buf) =>
    (.ready (some value), { inner with value := { inner.value with buf := buf } },
      inner.value.tx.toList)
  | none =>
    if !inner.bothPresent then
      (.ready none, { inner with value := { inner.value with rx := none } }, [])
    else
      (.pending, { inner with value := { inner.value with rx := register inner.value.rx waker } },
        inner.value.tx.toList)

omit [Waker W] in
/-- Drop of the `Sender`, `src/spsc.rs:292–300`, and of its handle. -/
def dropSender [Target] (inner : Inner T W) : Option (Inner T W) × List W :=
  ({ inner with value := { inner.value with rx := none } }.drop, inner.value.rx.toList)

omit [Waker W] in
/-- Drop of the `Receiver`, `src/spsc.rs:302–310`, and of its handle. -/
def dropReceiver [Target] (inner : Inner T W) : Option (Inner T W) × List W :=
  ({ inner with value := { inner.value with tx := none } }.drop, inner.value.tx.toList)

end Spsc
end Unsync
