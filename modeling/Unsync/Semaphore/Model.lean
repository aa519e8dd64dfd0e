import Unsync.WaitList.Queue

/-!
# The semaphore

Model of `src/semaphore.rs`. The semaphore waits on the queue that `Unsync.WaitList.Refine`
proves the intrusive list to be. An `acquire` future is named by an `Acquire`: its serial
number and the argument it captured. Between polls such a future is either unpolled or
suspended in `self.waiters.wait(to_acquire).await`, so its state is its place in the queue.
Wakers only record that they were woken and are left out.
-/

namespace Unsync

/-- How permits are released to waiters, `src/semaphore.rs:62–68`. -/
inductive Fairness where
  | fair
  | unfair
  deriving DecidableEq, Repr

/-- The value handed to a woken waiter, with the `UnfairWoken` token or the permits of
the `FairGrant` inside, `src/semaphore.rs:71–102`. -/
inductive WakeUp where
  | unfair
  | fair (permits : Nat)
  deriving DecidableEq, Repr

/-- One call of `acquire`, or of `acquire_unfair`. -/
structure Acquire where
  serial : Nat
  unfair : Bool
  toAcquire : Nat
  deriving DecidableEq, Repr

/-- A guard holding permits of the semaphore, `src/semaphore.rs:451–454`. -/
structure Permit where
  permits : Nat
  deriving DecidableEq, Repr

/-- The semaphore, `src/semaphore.rs:47–58`. -/
structure Semaphore where
  waiters : WaitQueue Acquire Nat WakeUp
  permits : Nat
  totalPermits : Nat
  deriving DecidableEq, Repr

namespace Semaphore

/-- `Semaphore::new`, `src/semaphore.rs:115–121`. -/
def new (permits : Nat) : Semaphore := ⟨.empty, permits, permits⟩

/-- `Semaphore::available_permits`, `src/semaphore.rs:147–149`. -/
def availablePermits (s : Semaphore) : Nat := s.permits

/-- What a release hands to a waiter that wants the given permits,
`src/semaphore.rs:401–412`. -/
def wakeUp (fairness : Fairness) (wantedPermits : Nat) : WakeUp :=
  match fairness with
  | .fair => .fair wantedPermits
  | .unfair => .unfair

/-- The loop of `release_permits`, `src/semaphore.rs:395–420`. -/
def releaseLoop (fairness : Fairness) : Nat → Semaphore → Nat → Except Fault Semaphore
  | 0, _, _ => .error .outOfFuel
  | fuel + 1, s, permits =>
    match s.waiters.headInput with
    | none => .ok s
    | some wantedPermits =>
      match checkedSub permits wantedPermits with
      | none => .ok s
      | some permits =>
        -- Only a fair release commits the deduction.
        let s := match fairness with
          | .fair => { s with permits := permits }
          | .unfair => s
        match s.waiters.wakeOne (wakeUp fairness wantedPermits) with
        | (.error _, _) => .error .unreachable
        | (.ok _, waiters) => releaseLoop fairness fuel { s with waiters := waiters } permits

/-- `Semaphore::release_permits`, `src/semaphore.rs:389–421`. Each round of the loop
dequeues a waiter, so one round more than there are waiters is enough. -/
def releasePermits [Target] (s : Semaphore) (permits : Nat) (fairness : Fairness) :
    Except Fault Semaphore := do
  let permits ← addUsize s.permits permits
  let waiters ← s.waiters.borrow
  let s := { s with permits := permits, waiters := waiters }
  let s ← releaseLoop fairness (waiters.parked.length + 1) s permits
  let waiters ← s.waiters.unborrow
  .ok { s with waiters := waiters }

/-- The destructors of `UnfairWoken` and `FairGrant`, `src/semaphore.rs:87–93,104–110`. -/
def dropWakeUp [Target] (s : Semaphore) : WakeUp → Except Fault Semaphore
  | .unfair => s.releasePermits 0 .unfair
  | .fair permits => s.releasePermits permits .unfair

/-- What calling `add_permits` comes to. -/
inductive Added where
  | done
  /-- The documented panic: the total would exceed `usize::MAX`. -/
  | panicked
  deriving DecidableEq, Repr

/-- `Semaphore::add_permits` releases unfairly and `Semaphore::add_permits_fair` fairly,
`src/semaphore.rs:185–194,216–220`. -/
def addPermits [Target] (s : Semaphore) (newPermits : Nat) (fairness : Fairness) :
    Except Fault (Added × Semaphore) :=
  match checkedAdd s.totalPermits newPermits with
  | none => .ok (.panicked, s)
  | some total => do
    let s ← { s with totalPermits := total }.releasePermits newPermits fairness
    .ok (.done, s)

/-- `Semaphore::try_acquire_unfair`, `src/semaphore.rs:275–283`. -/
def tryAcquireUnfair (s : Semaphore) (toAcquire : Nat) : Option Permit × Semaphore :=
  match checkedSub s.permits toAcquire with
  | none => (none, s)
  | some newPermits => (some ⟨toAcquire⟩, { s with permits := newPermits })

/-- `Semaphore::try_acquire`, `src/semaphore.rs:239–246`. -/
def tryAcquire (s : Semaphore) (toAcquire : Nat) : Except Fault (Option Permit × Semaphore) := do
  let waiters ← s.waiters.borrow
  let isEmpty := waiters.isEmpty
  let waiters ← waiters.unborrow
  let s := { s with waiters := waiters }
  .ok (if isEmpty then s.tryAcquireUnfair toAcquire else (none, s))

/-- The attempt that starts each round of `acquire` and of `acquire_unfair`,
`src/semaphore.rs:302–304,361–363`. -/
def attempt (s : Semaphore) (call : Acquire) : Except Fault (Option Permit × Semaphore) :=
  if call.unfair then .ok (s.tryAcquireUnfair call.toAcquire) else s.tryAcquire call.toAcquire

/-- A round of the loop from its start to its suspension,
`src/semaphore.rs:301–306,360–365`. -/
def acquireRound (s : Semaphore) (call : Acquire) : Except Fault (Option Permit × Semaphore) := do
  let (guard, s) ← s.attempt call
  match guard with
  | some guard => .ok (some guard, s)
  | none =>
    let waiters ← s.waiters.park call call.toAcquire
    .ok (none, { s with waiters := waiters })

/-- A poll of a suspended future, `src/semaphore.rs:306–328,365–386`. -/
def acquireResume [Target] (s : Semaphore) (call : Acquire) :
    Except Fault (Option Permit × Semaphore) := do
  let (wake, waiters) ← s.waiters.poll call
  let s := { s with waiters := waiters }
  match wake with
  | none => .ok (none, s)
  | some .unfair =>
    match s.tryAcquireUnfair call.toAcquire with
    | (some guard, s) => .ok (some guard, s)
    | (none, s) =>
      -- The token goes out of scope here.
      let s ← s.dropWakeUp .unfair
      s.acquireRound call
  | some (.fair _) => .ok (some ⟨call.toAcquire⟩, s)

/-- Drop of a suspended future: its waiter leaves the list, and so does what the waiter
was handed. -/
def acquireDrop [Target] (s : Semaphore) (call : Acquire) : Except Fault Semaphore := do
  let (owned, waiters) ← s.waiters.drop call
  let s := { s with waiters := waiters }
  match owned with
  | .input _ => .ok s
  | .output wake => s.dropWakeUp wake

/-- `Permit::leak`, `src/semaphore.rs:501–505`. -/
def leak (s : Semaphore) (permit : Permit) : Except Fault Semaphore := do
  let reducedPermits ← subUsize s.totalPermits permit.permits
  .ok { s with totalPermits := reducedPermits }

/-- `Permit::release_fair`, `src/semaphore.rs:537–540`. -/
def releaseFair [Target] (s : Semaphore) (permit : Permit) : Except Fault Semaphore :=
  s.releasePermits permit.permits .fair

/-- Drop of a `Permit`, `src/semaphore.rs:543–548`. -/
def dropPermit [Target] (s : Semaphore) (permit : Permit) : Except Fault Semaphore :=
  s.releasePermits permit.permits .unfair

end Semaphore
end Unsync
