import Unsync.OnceCell.Model

/-!
# Where the job goes

Closed forms of the cell's methods while its list is not borrowed. An owner that gives up
passes the job to the longest parked waiter, or resets the cell; an owner that succeeds
wakes everybody.
-/

namespace Unsync
namespace OnceCell

open Runs

variable {V E : Type}

/-- The cell after a baton was dropped. -/
def passOn (c : OnceCell V) : OnceCell V :=
  match c.state, c.waiters.parked with
  | .initializing, [] => { c with state := .uninit }
  | .initializing, (heir, _) :: rest =>
    { c with waiters := { c.waiters with
        parked := rest, woken := c.waiters.woken ++ [(heir, .baton)] } }
  | _, _ => c

/-- The cell after an initializer succeeded. -/
def settle (c : OnceCell V) (value : V) : OnceCell V :=
  ⟨.initialized value, { c.waiters with
    parked := []
    woken := c.waiters.woken ++ c.waiters.parked.map fun p => (p.1, .baton) }⟩

/-- The cell after a woken caller collected its baton. -/
def collect (c : OnceCell V) (call : Call) : OnceCell V :=
  { c with waiters := { c.waiters with woken := eraseKey call c.waiters.woken } }

variable {c : OnceCell V}

/-- A dropped baton passes the job on. -/
theorem dropBaton_eq (hi : c.waiters.borrowed = false) : c.dropBaton = .ok c.passOn := by
  obtain ⟨state, borrowed, parked, woken⟩ := c
  subst hi
  cases state with
  | uninit => rfl
  | initialized value => rfl
  | initializing =>
    cases parked with
    | nil => rfl
    | cons p rest => rfl

private theorem dropBaton_stale (h : c.state ≠ .initializing) : c.dropBaton = .ok c := by
  obtain ⟨state, waiters⟩ := c
  cases state with
  | uninit => rfl
  | initialized value => rfl
  | initializing => exact absurd rfl h

/-- With a round for each waiter and one more, the loop wakes everybody. -/
theorem wakeAll_eq (fuel : Nat) (c : OnceCell V) {value : V}
    (hs : c.state = .initialized value) (hf : c.waiters.parked.length < fuel) :
    wakeAll fuel c = .ok (c.settle value) := by
  induction fuel generalizing c with
  | zero => omega
  | succ fuel ih =>
    obtain ⟨state, borrowed, parked, woken⟩ := c
    simp only at hs hf
    subst hs
    cases parked with
    | nil => simp [wakeAll, WaitQueue.wakeOne, dropBaton, settle]
    | cons p rest =>
      rw [List.length_cons] at hf
      simp only [wakeAll, WaitQueue.wakeOne]
      rw [ih _ rfl (by simpa using hf)]
      simp [settle]

/-- A successful initializer settles the cell. -/
theorem awaitInit_ok (hi : c.waiters.borrowed = false) (value : V) :
    c.awaitInit (.ok value : Outcome V E) = .ok (.ok value, c.settle value) := by
  have hw := wakeAll_eq (c.waiters.parked.length + 1)
    ⟨.initialized value, { c.waiters with borrowed := true }⟩ rfl (Nat.lt_succ_self _)
  simp only [awaitInit, WaitQueue.borrow_idle hi, ok_bind, hw]
  simp [settle, get, WaitQueue.unborrow, hi]

/-- A failing initializer passes the job on. -/
theorem awaitInit_err (hi : c.waiters.borrowed = false) (error : E) :
    c.awaitInit (.err error : Outcome V E) = .ok (.err error, c.passOn) := by
  simp only [awaitInit, dropBaton_eq hi, ok_bind]

/-- A panicking initializer passes the job on. -/
theorem awaitInit_panic (hi : c.waiters.borrowed = false) :
    c.awaitInit (.panic : Outcome V E) = .ok (.panicked, c.passOn) := by
  simp only [awaitInit, dropBaton_eq hi, ok_bind]

/-- A caller that was not woken stays as it is. -/
theorem resume_parked (hi : c.waiters.borrowed = false) {call : Call}
    (hw : c.waiters.woken.lookup call = none) : c.resume call = .ok (.wait, c) := by
  simp [resume, WaitQueue.poll_idle_none hi hw]

/-- A woken caller takes the job over. -/
theorem resume_invoke (hi : c.waiters.borrowed = false) {call : Call} {b : Baton}
    (hw : c.waiters.woken.lookup call = some b) (hs : c.state = .initializing) :
    c.resume call = .ok (.invoke, c.collect call) := by
  simp [resume, WaitQueue.poll_idle_some hi hw, hs, collect]

/-- A woken caller finds the value. -/
theorem resume_ready (hi : c.waiters.borrowed = false) {call : Call} {b : Baton} {value : V}
    (hw : c.waiters.woken.lookup call = some b) (hs : c.state = .initialized value) :
    c.resume call = .ok (.ready value, c.collect call) := by
  have hd : (c.collect call).dropBaton = .ok (c.collect call) := by
    apply dropBaton_stale
    rw [collect, hs]
    exact fun h => by cases h
  simp only [collect, hs] at hd ⊢
  simp [resume, WaitQueue.poll_idle_some hi hw, hs, hd]

/-- Dropping a parked caller takes it out of the queue. -/
theorem dropWaiting_parked (hi : c.waiters.borrowed = false) {call : Call} {u : Unit}
    (hp : c.waiters.parked.lookup call = some u) :
    c.dropWaiting call = .ok { c with waiters := { c.waiters with
      parked := eraseKey call c.waiters.parked } } := by
  simp [dropWaiting, WaitQueue.drop_idle_parked hi hp]

/-- Dropping a woken caller drops its baton. -/
theorem dropWaiting_woken (hi : c.waiters.borrowed = false) {call : Call} {b : Baton}
    (hp : c.waiters.parked.lookup call = none) (hw : c.waiters.woken.lookup call = some b) :
    c.dropWaiting call = .ok (c.collect call).passOn := by
  have hd : (c.collect call).dropBaton = .ok (c.collect call).passOn := dropBaton_eq hi
  simp only [dropWaiting, WaitQueue.drop_idle_woken hi hp hw, ok_bind]
  exact hd

end OnceCell
end Unsync
