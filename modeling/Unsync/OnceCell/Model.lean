import Unsync.WaitList.Queue

/-!
# The cell that is written once

Model of `src/once_cell.rs`. The cell waits on the queue that `Unsync.WaitList.Refine`
proves the intrusive list to be. The initializer that a caller passes is the environment's:
each poll of its future has one of the results of `Outcome`. A future of `get_or_try_init`
is suspended either in `self.waiters.wait(()).await` or in `f().await`, with a `Guard`.
-/

namespace Unsync

/-- Which method a caller uses. -/
inductive OnceCell.Kind where
  | getOrTryInit
  | getOrInit
  | insert
  deriving DecidableEq, Repr

/-- One call of an initializing method. -/
structure OnceCell.Call where
  serial : Nat
  kind : OnceCell.Kind
  deriving DecidableEq, Repr

/-- The right to initialize, handed to a woken waiter, `src/once_cell.rs:31–33`. -/
inductive OnceCell.Baton where
  | baton
  deriving DecidableEq, Repr

/-- `State`, `src/once_cell.rs:59–66`. -/
inductive OnceCell.State (V : Type) where
  | uninit
  | initializing
  | initialized (value : V)
  deriving DecidableEq, Repr

/-- `OnceCell`, `src/once_cell.rs:16–24`. -/
structure OnceCell (V : Type) where
  state : OnceCell.State V
  waiters : WaitQueue OnceCell.Call Unit OnceCell.Baton
  deriving DecidableEq, Repr

/-- What a poll of the future that `f` returned comes to. A panic in `f` itself counts as a
panic of the first poll. -/
inductive OnceCell.Outcome (V E : Type) where
  | pending
  | ok (value : V)
  | err (error : E)
  | panic
  deriving DecidableEq, Repr

/-- `SetResult`, `src/once_cell.rs:386–397`. -/
inductive OnceCell.SetResult (V : Type) where
  | ok (reference : V)
  | initializing (value : V)
  | initialized (reference value : V)
  deriving DecidableEq, Repr

namespace OnceCell

variable {V E : Type}

/-- `OnceCell::new`, `src/once_cell.rs:71–76`. -/
def new : OnceCell V := ⟨.uninit, .empty⟩

/-- `OnceCell::get`, `src/once_cell.rs:81–86`. -/
def get (c : OnceCell V) : Option V :=
  match c.state with
  | .initialized value => some value
  | _ => none

/-- The destructor of a `Baton`, `src/once_cell.rs:36–55`. -/
def dropBaton (c : OnceCell V) : Except Fault (OnceCell V) :=
  match c.state with
  | .initializing => do
    let waiters ← c.waiters.borrow
    let (leftover, waiters) := waiters.wakeOne .baton
    let waiters ← waiters.unborrow
    match leftover with
    | .ok _ => .ok { c with waiters := waiters }
    -- The baton that comes back is forgotten.
    | .error _ => .ok ⟨.uninit, waiters⟩
  | _ => .ok c

/-- `OnceCell::set`, `src/once_cell.rs:145–154`. -/
def set (c : OnceCell V) (value : V) : Except Fault (SetResult V × OnceCell V) :=
  match c.state with
  | .uninit =>
    let c := { c with state := .initialized value }
    match c.get with
    | some reference => .ok (.ok reference, c)
    | none => .error .unwrapNone
  | .initializing => .ok (.initializing value, c)
  | .initialized reference => .ok (.initialized reference value, c)

/-- Where a poll of `get_or_try_init` stands before `f` is called. -/
inductive Entry (V : Type) where
  /-- The caller owns the job and calls `f`. -/
  | invoke
  /-- The caller is suspended in `wait`. -/
  | wait
  | ready (value : V)
  deriving DecidableEq, Repr

/-- The first poll of `get_or_try_init` up to the call of `f`, `src/once_cell.rs:265–282`. -/
def enter (c : OnceCell V) (call : Call) : Except Fault (Entry V × OnceCell V) :=
  match c.state with
  | .uninit => .ok (.invoke, { c with state := .initializing })
  | .initializing => do
    let waiters ← c.waiters.park call ()
    .ok (.wait, { c with waiters := waiters })
  | .initialized value => .ok (.ready value, c)

/-- A poll in `wait` up to the call of `f`, `src/once_cell.rs:270–279`. -/
def resume (c : OnceCell V) (call : Call) : Except Fault (Entry V × OnceCell V) := do
  let (baton, waiters) ← c.waiters.poll call
  let c := { c with waiters := waiters }
  match baton with
  | none => .ok (.wait, c)
  | some _ =>
    match c.state with
    | .uninit => .error .unreachable
    -- The baton is forgotten.
    | .initializing => .ok (.invoke, c)
    | .initialized value => do
      let c ← c.dropBaton
      .ok (.ready value, c)

/-- The loop that wakes all waiters, `src/once_cell.rs:303`. The baton that the empty list
hands back is dropped while the list is borrowed. -/
def wakeAll : Nat → OnceCell V → Except Fault (OnceCell V)
  | 0, _ => .error .outOfFuel
  | fuel + 1, c =>
    match c.waiters.wakeOne .baton with
    | (.ok _, waiters) => wakeAll fuel { c with waiters := waiters }
    | (.error _, waiters) => { c with waiters := waiters }.dropBaton

/-- What a poll of a caller that owns the job comes to. -/
inductive Progress (V E : Type) where
  /-- The caller is suspended in `f().await`, and its `Guard` is armed. -/
  | running
  | ok (value : V)
  | err (error : E)
  | panicked
  deriving DecidableEq, Repr

/-- A poll of an owner from the poll of `f`'s future on, `src/once_cell.rs:294–305`. Each
round of the wake loop dequeues a waiter, so one round more than there are is enough. -/
def awaitInit (c : OnceCell V) (outcome : Outcome V E) :
    Except Fault (Progress V E × OnceCell V) :=
  match outcome with
  | .pending => .ok (.running, c)
  -- Both ways out drop the guard.
  | .err error => do
    let c ← c.dropBaton
    .ok (.err error, c)
  | .panic => do
    let c ← c.dropBaton
    .ok (.panicked, c)
  | .ok value => do
    let waiters ← c.waiters.borrow
    let c ← wakeAll (waiters.parked.length + 1) ⟨.initialized value, waiters⟩
    match c.get with
    | none => .error .unwrapNone
    | some reference =>
      let waiters ← c.waiters.unborrow
      .ok (.ok reference, { c with waiters := waiters })

/-- Drop of a future suspended in `wait`: its waiter leaves the list, and the baton it may
have been handed is dropped. -/
def dropWaiting (c : OnceCell V) (call : Call) : Except Fault (OnceCell V) := do
  let (owned, waiters) ← c.waiters.drop call
  let c := { c with waiters := waiters }
  match owned with
  | .input _ => .ok c
  | .output _ => c.dropBaton

/-- Drop of a future suspended in `f().await`: its guard is dropped,
`src/once_cell.rs:288–292`. -/
def dropRunning (c : OnceCell V) : Except Fault (OnceCell V) := c.dropBaton

end OnceCell
end Unsync
