import Unsync.BiRc

/-!
# The oneshot channel

Model of `src/oneshot.rs`. The value is handed over as it is. A method that wakes returns the
wakers that it woke, in order.
-/

namespace Unsync
namespace Oneshot

/-- The interior shared state, `src/oneshot.rs:39–44`. -/
structure Shared (T W : Type) where
  waker : Option W
  buf : Option T
  deriving DecidableEq, Repr

/-- `SendError`, `src/oneshot.rs:28`. -/
structure SendError (T : Type) where
  value : T
  deriving DecidableEq, Repr

/-- The interior of a channel behind its two handles. -/
abbrev Inner (T W : Type) := BiRc (Shared T W)

variable {T W : Type}

/-- `channel`, `src/oneshot.rs:180–189`. -/
def channel : Inner T W := .new ⟨none, none⟩

/-- Take the registered waker and drop the handle, which the drops of both ends do. -/
def wakeAndDrop [Target] (inner : Inner T W) : Option (Inner T W) × List W :=
  ({ inner with value := { inner.value with waker := none } }.drop, inner.value.waker.toList)

/-- Drop of the `Sender`, `src/oneshot.rs:146–154`, and of its handle. -/
def dropSender [Target] (inner : Inner T W) : Option (Inner T W) × List W := wakeAndDrop inner

/-- Drop of the `Receiver`, `src/oneshot.rs:156–164`, and of its handle. -/
def dropReceiver [Target] (inner : Inner T W) : Option (Inner T W) × List W := wakeAndDrop inner

/-- The body of `Sender::send`, `src/oneshot.rs:82–98`. -/
def sendValue (inner : Inner T W) (value : T) :
    Except (SendError T) Unit × Inner T W × List W :=
  if !inner.bothPresent then (.error ⟨value⟩, inner, [])
  else (.ok (), { inner with value := ⟨none, some value⟩ }, inner.value.waker.toList)

/-- `Sender::send`, which drops the `Sender` when its body has returned. -/
def send [Target] (inner : Inner T W) (value : T) :
    Except (SendError T) Unit × Option (Inner T W) × List W :=
  let (result, inner, woken) := sendValue inner value
  let (inner, more) := dropSender inner
  (result, inner, woken ++ more)

/-- `Receiver::poll`, `src/oneshot.rs:123–143`. -/
def poll [Waker W] (inner : Inner T W) (waker : W) : Poll (Option T) × Inner T W :=
  match inner.value.buf with
  | some value => (.ready (some value), { inner with value := { inner.value with buf := none } })
  | none =>
    if !inner.bothPresent then
      (.ready none, { inner with value := { inner.value with waker := none } })
    else
      (.pending,
        { inner with value := { inner.value with waker := register inner.value.waker waker } })

end Oneshot
end Unsync
