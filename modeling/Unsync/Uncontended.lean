import Unsync.Semaphore.Linked
import Unsync.OnceCell.Linked

/-!
# The wait list is never contended

The borrow of a wait list is not nested anywhere in the crate.
-/

namespace Unsync

open Runs

/-- In every run of a semaphore and in every run of a cell, with any wakers and with waiters
that live anywhere, each borrow of the wait list finds it free, no destructor aborts, and the
list is free after every operation. -/
theorem wait_list_is_never_contended [Target] {V E W : Type} [Waker W] (permits : Usize)
    (place : Acquire ↪ Addr) (ops : List (Semaphore.Op × W))
    (place' : OnceCell.Call ↪ Addr) (ops' : List (OnceCell.Op V E × W)) :
    (∃ outs s, run (LinkedSemaphore.Sys.step place) (.new permits) ops = .ok (outs, s) ∧
      s.semaphore.waiters.borrowed = false) ∧
    ∃ outs s, run (LinkedCell.Sys.step place') .new ops' = .ok (outs, s) ∧
      s.cell.waiters.borrowed = false := by
  constructor
  · obtain ⟨outs, s, t, hs, -, hm, hi⟩ := LinkedSemaphore.run_models place permits ops
    exact ⟨outs, s, hs, hm.semaphore.waiters.rep.borrowed.trans hi.idle⟩
  · obtain ⟨outs, s, t, hs, -, hm, hi⟩ := LinkedCell.run_models place' ops'
    exact ⟨outs, s, hs, hm.cell.waiters.rep.borrowed.trans hi.ledger.idle⟩

end Unsync
