import Unsync.OnceCell.Runs
import Unsync.WaitList.Places

/-!
# The cell on the intrusive list

`src/once_cell.rs` on the wait list as it lies in memory, with the waiter of each call at a
place of its own. A waiter is enqueued by a poll, so that the wake loop is over after one
round more than there were polls. Whatever callers do, this cell returns what the one on the
queue returns.
-/

namespace Unsync

open Runs

/-- `OnceCell`, `src/once_cell.rs:16–24`. -/
structure LinkedCell (V W : Type) where
  state : OnceCell.State V
  waiters : WaitList Unit OnceCell.Baton W

namespace LinkedCell

open OnceCell (Call Kind Baton Outcome SetResult Entry Progress Resolved Op Out)

variable {V E W : Type}

/-- `OnceCell::new`, `src/once_cell.rs:71–76`. -/
def new : LinkedCell V W := ⟨.uninit, .new⟩

/-- `OnceCell::get`, `src/once_cell.rs:81–86`. -/
def get (c : LinkedCell V W) : Option V :=
  match c.state with
  | .initialized value => some value
  | _ => none

/-- The destructor of a `Baton`, `src/once_cell.rs:36–55`. -/
def dropBaton (c : LinkedCell V W) : Except Fault (LinkedCell V W) :=
  match c.state with
  | .initializing => do
    let waiters ← c.waiters.borrow
    let (leftover, waiters) ← waiters.wakeOne .baton
    let waiters ← waiters.unborrow
    match leftover with
    | .ok _ => .ok { c with waiters := waiters }
    -- The baton that comes back is forgotten.
    | .error _ => .ok ⟨.uninit, waiters⟩
  | _ => .ok c

/-- `OnceCell::set`, `src/once_cell.rs:145–154`. -/
def set (c : LinkedCell V W) (value : V) : Except Fault (SetResult V × LinkedCell V W) :=
  match c.state with
  | .uninit =>
    let c := { c with state := .initialized value }
    match c.get with
    | some reference => .ok (.ok reference, c)
    | none => .error .unwrapNone
  | .initializing => .ok (.initializing value, c)
  | .initialized reference => .ok (.initialized reference value, c)

/-- What a call does that was handed a baton, `src/once_cell.rs:271–279`. -/
def takeBaton (c : LinkedCell V W) : Except Fault (Entry V × LinkedCell V W) :=
  match c.state with
  | .uninit => .error .unreachable
  -- The baton is forgotten.
  | .initializing => .ok (.invoke, c)
  | .initialized value => do
    let c ← c.dropBaton
    .ok (.ready value, c)

/-- The loop that wakes all waiters, `src/once_cell.rs:303`. -/
def wakeAll : Nat → LinkedCell V W → Except Fault (LinkedCell V W)
  | 0, _ => .error .outOfFuel
  | rounds + 1, c => do
    let (woken, waiters) ← c.waiters.wakeOne .baton
    let c := { c with waiters := waiters }
    match woken with
    | .ok _ => wakeAll rounds c
    -- The baton that comes back is dropped while the list is borrowed.
    | .error _ => c.dropBaton

/-- A poll of an owner from the poll of `f`'s future on, `src/once_cell.rs:294–305`. -/
def awaitInit (c : LinkedCell V W) (rounds : Nat) (outcome : Outcome V E) :
    Except Fault (Progress V E × LinkedCell V W) :=
  match outcome with
  | .pending => .ok (.running, c)
  -- Both ways out drop the guard.
  | .err error => do
    let c ← c.dropBaton
    .ok (.err error, c)
  | .panic => do
    let c ← c.dropBaton
    .ok (.panicked, c)
  | .ok value => do
    let waiters ← c.waiters.borrow
    let c ← wakeAll rounds ⟨.initialized value, waiters⟩
    match c.get with
    | none => .error .unwrapNone
    | some reference =>
      let waiters ← c.waiters.unborrow
      .ok (.ok reference, { c with waiters := waiters })

section Futures

variable [Waker W] (place : Call ↪ Addr)

/-- The first poll of `get_or_try_init` up to the call of `f`, `src/once_cell.rs:265–282`. -/
def enter (c : LinkedCell V W) (call : Call) (cx : W) :
    Except Fault (Entry V × LinkedCell V W) :=
  match c.state with
  | .uninit => .ok (.invoke, { c with state := .initializing })
  | .initializing => do
    let (baton, waiters) ← c.waiters.waitFirst (place call) () cx
    let c := { c with waiters := waiters }
    match baton with
    | none => .ok (.wait, c)
    | some _ => c.takeBaton
  | .initialized value => .ok (.ready value, c)

/-- A poll in `wait` up to the call of `f`, `src/once_cell.rs:270–279`. -/
def resume (c : LinkedCell V W) (call : Call) (cx : W) :
    Except Fault (Entry V × LinkedCell V W) := do
  let (baton, waiters) ← c.waiters.waitAgain (place call) cx
  let c := { c with waiters := waiters }
  match baton with
  | none => .ok (.wait, c)
  | some _ => c.takeBaton

omit [Waker W] in
/-- Drop of a future suspended in `wait`: its wait future is dropped, and with the waiter the
baton that it may have been handed. -/
def dropWaiting (c : LinkedCell V W) (call : Call) : Except Fault (LinkedCell V W) := do
  let (owned, waiters) ← c.waiters.waitDrop (place call)
  let c := { c with waiters := waiters }
  match owned with
  | .input _ => .ok c
  | .output _ => c.dropBaton

end Futures

/-- Drop of a future suspended in `f().await`: its guard is dropped,
`src/once_cell.rs:288–292`. -/
def dropRunning (c : LinkedCell V W) : Except Fault (LinkedCell V W) := c.dropBaton

/-- A cell and its callers: the futures that were not polled, those suspended in
`f().await`, what the closure of each `insert` still captures, and the numbers of calls and
of polls. -/
structure Sys (V W : Type) where
  cell : LinkedCell V W
  fresh : List Call
  running : List Call
  captured : Call → Option V
  calls : Nat
  polls : Nat

namespace Sys

/-- A new cell that nobody uses yet. -/
def new : Sys V W := ⟨.new, [], [], fun _ => none, 0, 0⟩

/-- Whether the future is suspended in `wait`, where its waiter lives. -/
def waiting (place : Call ↪ Addr) (s : Sys V W) (call : Call) : Prop :=
  (s.cell.waiters.memory (place call)).isSome

instance (place : Call ↪ Addr) (s : Sys V W) (call : Call) : Decidable (s.waiting place call) :=
  inferInstanceAs (Decidable (_ = _))

/-- Call one of the methods. -/
def create (s : Sys V W) (kind : Kind) (value : Option V) : Out V E × Sys V W :=
  let call := ⟨s.calls, kind⟩
  (.created call, { s with
    fresh := s.fresh ++ [call]
    calls := s.calls + 1
    captured := Function.update s.captured call value })

/-- What a call that was handed a reference resolves to: `insert` looks whether its value was
taken, `src/once_cell.rs:211–214`. -/
def finish (s : Sys V W) (call : Call) (reference : V) : Out V E :=
  match call.kind, s.captured call with
  | .insert, some value => .ready (.rejected reference value)
  | _, _ => .ready (.ok reference)

/-- Poll the initializer: that of `insert` takes the captured value and is done,
`src/once_cell.rs:209`, and others do what they do. -/
def pollInit (s : Sys V W) (call : Call) (outcome : Outcome V E) :
    Except Fault (Outcome V E × Sys V W) :=
  match call.kind with
  | .insert =>
    match s.captured call with
    | none => .error .unwrapNone
    | some value => .ok (.ok value, { s with captured := Function.update s.captured call none })
  | _ => .ok (outcome, s)

/-- Poll a caller that owns the job. -/
def drive (s : Sys V W) (call : Call) (outcome : Outcome V E) :
    Except Fault (Out V E × Sys V W) := do
  let (outcome, s) ← s.pollInit call outcome
  let (progress, cell) ← s.cell.awaitInit (s.polls + 1) outcome
  let s := { s with cell := cell }
  match progress with
  | .running => .ok (.pending, { s with running := s.running ++ [call] })
  | .ok reference => .ok (s.finish call reference, s)
  | .err error => .ok (.ready (.err error), s)
  | .panicked => .ok (.panicked, s)

/-- Go on from the point where `f` may be called. -/
def proceed (s : Sys V W) (call : Call) (entry : Entry V) (outcome : Outcome V E) :
    Except Fault (Out V E × Sys V W) :=
  match entry with
  | .wait => .ok (.pending, s)
  | .ready reference => .ok (s.finish call reference, s)
  | .invoke => s.drive call outcome

variable (place : Call ↪ Addr)

/-- Poll a future. -/
def poll [Waker W] (s : Sys V W) (call : Call) (outcome : Outcome V E) (cx : W) :
    Except Fault (Out V E × Sys V W) :=
  let s := { s with polls := s.polls + 1 }
  if OnceCell.Sys.admits call outcome = false then .ok (.ignored, s)
  else if call ∈ s.fresh then do
    let (entry, cell) ← s.cell.enter place call cx
    { s with cell := cell, fresh := s.fresh.erase call }.proceed call entry outcome
  else if s.waiting place call then do
    let (entry, cell) ← s.cell.resume place call cx
    { s with cell := cell }.proceed call entry outcome
  else if call ∈ s.running then
    { s with running := s.running.erase call }.drive call outcome
  else .ok (.ignored, s)

/-- Drop a future. -/
def cancel (s : Sys V W) (call : Call) : Except Fault (Out V E × Sys V W) :=
  if call ∈ s.fresh then .ok (.dropped, { s with fresh := s.fresh.erase call })
  else if s.waiting place call then do
    let cell ← s.cell.dropWaiting place call
    .ok (.dropped, { s with cell := cell })
  else if call ∈ s.running then do
    let cell ← s.cell.dropRunning
    .ok (.dropped, { s with cell := cell, running := s.running.erase call })
  else .ok (.ignored, s)

/-- One operation, with the waker of the task that calls it. -/
def step [Waker W] (s : Sys V W) : Op V E × W → Except Fault (Out V E × Sys V W)
  | (.getOrTryInit, _) => .ok (s.create .getOrTryInit none)
  | (.getOrInit, _) => .ok (s.create .getOrInit none)
  | (.insert value, _) => .ok (s.create .insert (some value))
  | (.poll call outcome, cx) => s.poll place call outcome cx
  | (.cancel call, _) => s.cancel place call
  | (.set value, _) => do
    let (result, cell) ← s.cell.set value
    .ok (.set result, { s with cell := cell })
  | (.get, _) => .ok (.got s.cell.get, s)

end Sys

/-! ### The cell on the queue is followed -/

/-- A cell in memory matches one on a queue, of whose calls at most the given number are
parked. -/
structure Matches (place : Call ↪ Addr) (n : Nat) (c : LinkedCell V W) (d : OnceCell V) :
    Prop where
  state : c.state = d.state
  waiters : WaitList.Placed place n c.waiters d.waiters

section Functions

variable {place : Call ↪ Addr} {n : Nat} {c : LinkedCell V W} {d : OnceCell V}

private theorem Matches.grow (h : Matches place n c d) : Matches place (n + 1) c d :=
  ⟨h.state, h.waiters.grow⟩

private theorem Matches.get (h : Matches place n c d) : c.get = d.get := by
  obtain ⟨state, l⟩ := c
  obtain ⟨state', q⟩ := d
  obtain ⟨hs, hw⟩ := h
  cases hs
  cases state with
  | uninit => rfl
  | initializing => rfl
  | initialized value => rfl

private theorem Matches.dropBaton (h : Matches place n c d) :
    Follows (Matches place n) c.dropBaton d.dropBaton := by
  obtain ⟨state, l⟩ := c
  obtain ⟨state', q⟩ := d
  obtain ⟨hs, hw⟩ := h
  cases hs
  cases state with
  | uninit => exact .ok ⟨rfl, hw⟩
  | initialized value => exact .ok ⟨rfl, hw⟩
  | initializing =>
    apply Follows.bind hw.borrow
    intro l q hq
    obtain ⟨l', hl, hq'⟩ := hq.wakeOne .baton
    simp only [hl, ok_bind]
    apply Follows.bind hq'.unborrow
    intro l'' q'' hq''
    cases (q.wakeOne Baton.baton).1 with
    | ok i => exact .ok ⟨rfl, hq''⟩
    | error o => exact .ok ⟨rfl, hq''⟩

private theorem Matches.set (h : Matches place n c d) (value : V) :
    Follows (Agree (Matches place n)) (c.set value) (d.set value) := by
  obtain ⟨state, l⟩ := c
  obtain ⟨state', q⟩ := d
  obtain ⟨hs, hw⟩ := h
  cases hs
  cases state with
  | uninit => exact .ok ⟨rfl, rfl, hw⟩
  | initializing => exact .ok ⟨rfl, rfl, hw⟩
  | initialized reference => exact .ok ⟨rfl, rfl, hw⟩

/-- The wake loop follows the one on the queue. -/
theorem Matches.wakeAll (h : Matches place n c d) {fuel rounds : Nat}
    (hr : d.waiters.parked.length < rounds) :
    Follows (Matches place n) (wakeAll rounds c) (OnceCell.wakeAll fuel d) := by
  induction fuel generalizing rounds c d with
  | zero => exact .error _ _
  | succ fuel ih =>
    cases rounds with
    | zero => omega
    | succ rounds =>
      obtain ⟨l, hl, hw⟩ := h.waiters.wakeOne .baton
      rw [LinkedCell.wakeAll, OnceCell.wakeAll]
      cases hq : d.waiters.parked with
      | nil =>
        simp only [WaitQueue.wakeOne, hq] at hl hw ⊢
        simp only [hl, ok_bind]
        exact Matches.dropBaton ⟨h.state, hw⟩
      | cons p rest =>
        rw [hq, List.length_cons] at hr
        have hr' : rest.length < rounds := Nat.lt_of_succ_lt_succ hr
        simp only [WaitQueue.wakeOne, hq] at hl hw ⊢
        simp only [hl, ok_bind]
        apply ih _ hr'
        exact ⟨h.state, hw⟩

/-- A poll of an owner follows the one on the queue. -/
theorem Matches.awaitInit (h : Matches place n c d) (outcome : Outcome V E) {rounds : Nat}
    (hr : n < rounds) :
    Follows (Agree (Matches place n)) (c.awaitInit rounds outcome) (d.awaitInit outcome) := by
  cases outcome with
  | pending => exact .ok ⟨rfl, h⟩
  | err error =>
    apply Follows.bind h.dropBaton
    intro c' d' h'
    exact .ok ⟨rfl, h'⟩
  | panic =>
    apply Follows.bind h.dropBaton
    intro c' d' h'
    exact .ok ⟨rfl, h'⟩
  | ok value =>
    apply Follows.bind h.waiters.borrow
    intro l q hq
    have hm : Matches place n ⟨.initialized value, l⟩ ⟨.initialized value, q⟩ := ⟨rfl, hq⟩
    apply Follows.bind (hm.wakeAll (Nat.lt_of_le_of_lt hq.few hr))
    intro c' d' h'
    rw [h'.get]
    cases d'.get with
    | none => exact .error _ _
    | some reference =>
      apply Follows.bind h'.waiters.unborrow
      intro l' q' hq'
      exact .ok ⟨rfl, h'.state, hq'⟩

variable [Waker W] {call : Call}

private theorem Matches.enter (h : Matches place n c d) (hk : ¬ d.waiters.Holds call) (cx : W) :
    Follows (Agree (Matches place (n + 1))) (c.enter place call cx) (d.enter call) := by
  obtain ⟨state, l⟩ := c
  obtain ⟨state', q⟩ := d
  obtain ⟨hs, hw⟩ := h
  cases hs
  cases state with
  | uninit => exact .ok ⟨rfl, rfl, hw.grow⟩
  | initialized value => exact .ok ⟨rfl, rfl, hw.grow⟩
  | initializing =>
    apply Follows.bind (hw.waitFirst hk () cx)
    rintro ⟨handed, l'⟩ q' ⟨rfl, hq⟩
    exact .ok ⟨rfl, rfl, hq⟩

private theorem Matches.resume (h : Matches place n c d) (hk : d.waiters.Holds call) (cx : W) :
    Follows (Agree (Matches place n)) (c.resume place call cx) (d.resume call) := by
  obtain ⟨state, l⟩ := c
  obtain ⟨state', q⟩ := d
  obtain ⟨hs, hw⟩ := h
  cases hs
  apply Follows.bind (hw.waitAgain hk cx)
  rintro ⟨handed, l'⟩ ⟨handed', q'⟩ ⟨⟨rfl, hq⟩, -⟩
  cases handed with
  | none => exact .ok ⟨rfl, rfl, hq⟩
  | some b =>
    cases state with
    | uninit => exact .error _ _
    | initializing => exact .ok ⟨rfl, rfl, hq⟩
    | initialized value =>
      have hm : Matches place n ⟨.initialized value, l'⟩ ⟨.initialized value, q'⟩ := ⟨rfl, hq⟩
      apply Follows.bind hm.dropBaton
      intro c' d' h'
      exact .ok ⟨rfl, h'⟩

omit [Waker W] in
private theorem Matches.dropWaiting (h : Matches place n c d) (hk : d.waiters.Holds call) :
    Follows (Matches place n) (c.dropWaiting place call) (d.dropWaiting call) := by
  apply Follows.bind (h.waiters.waitDrop hk)
  rintro ⟨owned, l⟩ ⟨owned', q⟩ ⟨rfl, hq⟩
  have hm : Matches place n { c with waiters := l } { d with waiters := q } := ⟨h.state, hq⟩
  cases owned with
  | input i => exact .ok hm
  | output b => exact hm.dropBaton

end Functions

/-- A system in memory models one on a queue. -/
structure Models (place : Call ↪ Addr) (s : Sys V W) (t : OnceCell.Sys V E) : Prop where
  cell : Matches place s.polls s.cell t.cell
  fresh : s.fresh = t.fresh
  running : s.running = t.running
  captured : s.captured = t.captured
  calls : s.calls = t.calls

section Steps

variable {place : Call ↪ Addr} {s : Sys V W} {t : OnceCell.Sys V E} {call : Call}

/-- New cells model each other. -/
theorem Models.new (place : Call ↪ Addr) :
    Models place (Sys.new : Sys V W) (OnceCell.Sys.new : OnceCell.Sys V E) :=
  ⟨⟨rfl, .new place⟩, rfl, rfl, rfl, rfl⟩

private theorem Models.waiting (h : Models place s t) (call : Call) :
    s.waiting place call ↔ t.waiting call := h.cell.waiters.inMemory call

private theorem Models.finish (h : Models place s t) (call : Call) (reference : V) :
    Agree (Models place) (s.finish call reference, s) (t.finish call reference) := by
  have hm (result : Resolved V E) : Models place s (t.resolve call result).2 :=
    ⟨h.cell, h.fresh, h.running, h.captured, h.calls⟩
  unfold Sys.finish OnceCell.Sys.finish
  rw [h.captured]
  cases call.kind with
  | insert => cases t.captured call <;> exact ⟨rfl, hm _⟩
  | getOrInit => exact ⟨rfl, hm _⟩
  | getOrTryInit => exact ⟨rfl, hm _⟩

private theorem Models.pollInit (h : Models place s t) (call : Call) (outcome : Outcome V E) :
    Follows (fun p q => Agree (Models place) p q ∧ p.2.polls = s.polls) (s.pollInit call outcome)
      (t.pollInit call outcome) := by
  unfold Sys.pollInit OnceCell.Sys.pollInit
  rw [h.captured]
  cases call.kind with
  | insert =>
    cases t.captured call with
    | none => exact .error _ _
    | some value => exact .ok ⟨⟨rfl, h.cell, h.fresh, h.running, rfl, h.calls⟩, rfl⟩
  | getOrInit => exact .ok ⟨⟨rfl, h⟩, rfl⟩
  | getOrTryInit => exact .ok ⟨⟨rfl, h⟩, rfl⟩

private theorem Models.drive (h : Models place s t) (call : Call) (outcome : Outcome V E) :
    Follows (Agree (Models place)) (s.drive call outcome) (t.drive call outcome) := by
  apply Follows.bind (h.pollInit call outcome)
  rintro ⟨outcome', s'⟩ ⟨outcome'', t'⟩ ⟨⟨rfl, h'⟩, -⟩
  apply Follows.bind (h'.cell.awaitInit outcome' (Nat.lt_succ_self _))
  rintro ⟨progress, c⟩ ⟨progress', d⟩ ⟨rfl, hc⟩
  have hm : Models place { s' with cell := c } { t'.credit call outcome' with cell := d } := by
    cases outcome' <;> exact ⟨hc, h'.fresh, h'.running, h'.captured, h'.calls⟩
  cases progress with
  | running =>
    exact .ok ⟨rfl, hm.cell, hm.fresh, congrArg (· ++ [call]) hm.running, hm.captured, hm.calls⟩
  | ok reference => exact .ok (hm.finish call reference)
  | err error => exact .ok ⟨rfl, hm.cell, hm.fresh, hm.running, hm.captured, hm.calls⟩
  | panicked => exact .ok ⟨rfl, hm⟩

private theorem Models.proceed (h : Models place s t) (call : Call) (entry : Entry V)
    (outcome : Outcome V E) :
    Follows (Agree (Models place)) (s.proceed call entry outcome)
      (t.proceed call entry outcome) := by
  cases entry with
  | wait => exact .ok ⟨rfl, h⟩
  | ready reference => exact .ok (h.finish call reference)
  | invoke =>
    have hm : Models place s { t with
        invoked := t.invoked ++ [call], clashed := t.clashed ++ t.running } :=
      ⟨h.cell, h.fresh, h.running, h.captured, h.calls⟩
    exact hm.drive call outcome

/-- A poll follows the one on the queue. -/
theorem Models.poll [Waker W] (h : Models place s t) (hi : OnceCell.Inv t) (call : Call)
    (outcome : Outcome V E) (cx : W) :
    Follows (Agree (Models place)) (s.poll place call outcome cx) (t.poll call outcome) := by
  have hfresh : call ∈ s.fresh ↔ call ∈ t.fresh := by rw [h.fresh]
  have hrunning : call ∈ s.running ↔ call ∈ t.running := by rw [h.running]
  have hgrow : Models place { s with polls := s.polls + 1 } t :=
    ⟨h.cell.grow, h.fresh, h.running, h.captured, h.calls⟩
  apply Follows.ite Iff.rfl
  · intro _
    exact .ok ⟨rfl, hgrow⟩
  · intro _
    apply Follows.ite hfresh
    · intro hf
      have haway : ¬ t.cell.waiters.Holds call := by
        intro hold
        have hd := (List.nodup_append.mp hi.ledger.distinct).1
        rw [OnceCell.Sys.pending, List.append_assoc, List.nodup_append] at hd
        exact hd.2.2 call hf call (List.mem_append.mpr hold) rfl
      apply Follows.bind (h.cell.enter haway cx)
      rintro ⟨entry, c⟩ ⟨entry', d⟩ ⟨rfl, hc⟩
      have hm : Models place
          { s with cell := c, fresh := s.fresh.erase call, polls := s.polls + 1 }
          { t with cell := d, fresh := t.fresh.erase call } :=
        ⟨hc, congrArg (·.erase call) h.fresh, h.running, h.captured, h.calls⟩
      exact hm.proceed call entry outcome
    · intro _
      apply Follows.ite (h.waiting call)
      · intro hold
        apply Follows.bind (h.cell.resume hold cx)
        rintro ⟨entry, c⟩ ⟨entry', d⟩ ⟨rfl, hc⟩
        have hm : Models place { s with cell := c, polls := s.polls + 1 } { t with cell := d } :=
          ⟨hc.grow, h.fresh, h.running, h.captured, h.calls⟩
        exact hm.proceed call entry outcome
      · intro _
        apply Follows.ite hrunning
        · intro _
          have hm : Models place
              { s with running := s.running.erase call, polls := s.polls + 1 }
              { t with running := t.running.erase call } :=
            ⟨h.cell.grow, h.fresh, congrArg (·.erase call) h.running, h.captured, h.calls⟩
          exact hm.drive call outcome
        · intro _
          exact .ok ⟨rfl, hgrow⟩

private theorem Models.cancel (h : Models place s t) (call : Call) :
    Follows (Agree (Models place)) (s.cancel place call) (t.cancel call) := by
  have hfresh : call ∈ s.fresh ↔ call ∈ t.fresh := by rw [h.fresh]
  have hrunning : call ∈ s.running ↔ call ∈ t.running := by rw [h.running]
  apply Follows.ite hfresh
  · intro _
    exact .ok ⟨rfl, h.cell, congrArg (·.erase call) h.fresh, h.running, h.captured, h.calls⟩
  · intro _
    apply Follows.ite (h.waiting call)
    · intro hold
      apply Follows.bind (h.cell.dropWaiting hold)
      intro c d hc
      exact .ok ⟨rfl, hc, h.fresh, h.running, h.captured, h.calls⟩
    · intro _
      apply Follows.ite hrunning
      · intro _
        apply Follows.bind h.cell.dropBaton
        intro c d hc
        exact .ok ⟨rfl, hc, h.fresh, congrArg (·.erase call) h.running, h.captured, h.calls⟩
      · intro _
        exact .ok ⟨rfl, h⟩

private theorem Models.create (h : Models place s t) (kind : Kind) (value : Option V) :
    Agree (Models place) (s.create kind value) (t.create kind value) := by
  unfold Sys.create OnceCell.Sys.create
  simp only [h.fresh, h.captured, h.calls]
  exact ⟨rfl, h.cell, rfl, h.running, rfl, rfl⟩

/-- An operation follows the one on the queue. -/
theorem Models.step [Waker W] (h : Models place s t) (hi : OnceCell.Inv t) (op : Op V E) (cx : W) :
    Follows (Agree (Models place)) (s.step place (op, cx)) (t.step op) := by
  cases op with
  | getOrTryInit => exact .ok (h.create _ _)
  | getOrInit => exact .ok (h.create _ _)
  | insert value => exact .ok (h.create _ _)
  | poll call outcome => exact h.poll hi call outcome cx
  | cancel call => exact h.cancel call
  | set value =>
    apply Follows.bind (h.cell.set value)
    rintro ⟨result, c⟩ ⟨result', d⟩ ⟨rfl, hc⟩
    cases result <;> exact .ok ⟨rfl, hc, h.fresh, h.running, h.captured, h.calls⟩
  | get => exact .ok ⟨by rw [h.cell.get], h⟩

/-- Whatever callers do, the cell in memory returns what the one on the queue returns. -/
theorem run_models [Waker W] (place : Call ↪ Addr) (ops : List (Op V E × W)) :
    ∃ outs s t, run (Sys.step place) Sys.new ops = .ok (outs, s) ∧
      run OnceCell.Sys.step OnceCell.Sys.new (ops.map Prod.fst) = .ok (outs, t) ∧
      Models place s t ∧ OnceCell.Inv t := by
  have hstep : ∀ (s : Sys V W) (t : OnceCell.Sys V E) (i : Op V E × W),
      Models place s t ∧ OnceCell.Inv t →
      Follows (Agree fun s t => Models place s t ∧ OnceCell.Inv t) (s.step place i)
        (t.step i.1) := by
    rintro s t i ⟨h, hi⟩ ⟨out, t'⟩ ht
    obtain ⟨⟨out', s'⟩, hs, hout, h'⟩ := h.step hi i.1 i.2 _ ht
    obtain ⟨o, u, hu, hi', -⟩ := hi.step i.1
    rw [ht] at hu
    cases hu
    exact ⟨_, hs, hout, h', hi'⟩
  obtain ⟨outs, t, ht, -⟩ := OnceCell.run_inv (ops.map Prod.fst)
  rw [← run_map] at ht
  obtain ⟨⟨outs', s⟩, hs, rfl, h, hi⟩ := run_follows_always hstep ops
    ⟨.new place, .new⟩ _ ht
  rw [run_map] at ht
  exact ⟨_, s, t, hs, ht, h, hi⟩

end Steps
end LinkedCell
end Unsync
