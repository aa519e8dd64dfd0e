import Unsync.Semaphore.Handoff
import Unsync.WaitList.Places

/-!
# The semaphore on the intrusive list

`src/semaphore.rs` on the wait list as it lies in memory, with the waiter of each call at a
place of its own. A waiter is enqueued by a poll, so that a release loop is over after one
round more than there were polls. Whatever callers do, this semaphore returns what the one
on the queue returns.
-/

namespace Unsync

open Runs

/-- The semaphore, `src/semaphore.rs:47–58`. -/
structure LinkedSemaphore (W : Type) where
  waiters : WaitList Nat WakeUp W
  permits : Nat
  totalPermits : Nat

namespace LinkedSemaphore

open Semaphore (Op Out Added wakeUp)

variable {W : Type}

/-- `Semaphore::new`, `src/semaphore.rs:115–121`. -/
def new (permits : Nat) : LinkedSemaphore W := ⟨.new, permits, permits⟩

/-- The loop of `release_permits`, `src/semaphore.rs:395–420`. -/
def releaseLoop (fairness : Fairness) :
    Nat → LinkedSemaphore W → Nat → Except Fault (LinkedSemaphore W)
  | 0, _, _ => .error .outOfFuel
  | rounds + 1, s, permits => do
    let head ← s.waiters.headInput
    match head with
    | none => .ok s
    | some wantedPermits =>
      match checkedSub permits wantedPermits with
      | none => .ok s
      | some permits =>
        let s := match fairness with
          | .fair => { s with permits := permits }
          | .unfair => s
        let (woken, waiters) ← s.waiters.wakeOne (wakeUp fairness wantedPermits)
        match woken with
        | .error _ => .error .unreachable
        | .ok _ => releaseLoop fairness rounds { s with waiters := waiters } permits

/-- `Semaphore::release_permits`, `src/semaphore.rs:389–421`. -/
def releasePermits [Target] (s : LinkedSemaphore W) (rounds permits : Nat) (fairness : Fairness) :
    Except Fault (LinkedSemaphore W) := do
  let permits ← addUsize s.permits permits
  let waiters ← s.waiters.borrow
  let s := { s with permits := permits, waiters := waiters }
  let s ← releaseLoop fairness rounds s permits
  let waiters ← s.waiters.unborrow
  .ok { s with waiters := waiters }

/-- The destructors of `UnfairWoken` and `FairGrant`, `src/semaphore.rs:87–93,104–110`. -/
def dropWakeUp [Target] (s : LinkedSemaphore W) (rounds : Nat) :
    WakeUp → Except Fault (LinkedSemaphore W)
  | .unfair => s.releasePermits rounds 0 .unfair
  | .fair permits => s.releasePermits rounds permits .unfair

/-- `Semaphore::add_permits` and `Semaphore::add_permits_fair`,
`src/semaphore.rs:185–194,216–220`. -/
def addPermits [Target] (s : LinkedSemaphore W) (rounds newPermits : Nat) (fairness : Fairness) :
    Except Fault (Added × LinkedSemaphore W) :=
  match checkedAdd s.totalPermits newPermits with
  | none => .ok (.panicked, s)
  | some total => do
    let s ← { s with totalPermits := total }.releasePermits rounds newPermits fairness
    .ok (.done, s)

/-- `Semaphore::try_acquire_unfair`, `src/semaphore.rs:275–283`. -/
def tryAcquireUnfair (s : LinkedSemaphore W) (toAcquire : Nat) :
    Option Permit × LinkedSemaphore W :=
  match checkedSub s.permits toAcquire with
  | none => (none, s)
  | some newPermits => (some ⟨toAcquire⟩, { s with permits := newPermits })

/-- `Semaphore::try_acquire`, `src/semaphore.rs:239–246`. -/
def tryAcquire (s : LinkedSemaphore W) (toAcquire : Nat) :
    Except Fault (Option Permit × LinkedSemaphore W) := do
  let waiters ← s.waiters.borrow
  let isEmpty := waiters.isEmpty
  let waiters ← waiters.unborrow
  let s := { s with waiters := waiters }
  .ok (if isEmpty then s.tryAcquireUnfair toAcquire else (none, s))

/-- The attempt that starts each turn of the loops of `acquire` and `acquire_unfair`,
`src/semaphore.rs:302–304,361–363`. -/
def attempt (s : LinkedSemaphore W) (call : Acquire) :
    Except Fault (Option Permit × LinkedSemaphore W) :=
  if call.unfair then .ok (s.tryAcquireUnfair call.toAcquire) else s.tryAcquire call.toAcquire

/-- What a woken call does with its wake-up, `src/semaphore.rs:306–328,365–386`. -/
def takeWakeUp [Target] (s : LinkedSemaphore W) (rounds : Nat) (call : Acquire) :
    WakeUp → Except Fault (Option Permit × LinkedSemaphore W)
  | .unfair =>
    match s.tryAcquireUnfair call.toAcquire with
    | (some guard, s) => .ok (some guard, s)
    | (none, s) => do
      let s ← s.dropWakeUp rounds .unfair
      .ok (none, s)
  | .fair _ => .ok (some ⟨call.toAcquire⟩, s)

section Futures

variable [Target] [Waker W] (place : Acquire ↪ Addr)

/-- The loop of `acquire` and of `acquire_unfair`, `src/semaphore.rs:301–329,360–387`, up to
where it returns or is suspended. The first poll of `wait` is never ready, so that one turn is
enough. -/
def acquireLoop (rounds : Nat) (call : Acquire) (cx : W) :
    Nat → LinkedSemaphore W → Except Fault (Option Permit × LinkedSemaphore W)
  | 0, _ => .error .outOfFuel
  | turns + 1, s => do
    let (guard, s) ← s.attempt call
    match guard with
    | some guard => .ok (some guard, s)
    | none => do
      let (wake, waiters) ← s.waiters.waitFirst (place call) call.toAcquire cx
      let s := { s with waiters := waiters }
      match wake with
      | none => .ok (none, s)
      | some wake => do
        let (guard, s) ← s.takeWakeUp rounds call wake
        match guard with
        | some guard => .ok (some guard, s)
        | none => acquireLoop rounds call cx turns s

/-- A poll of a suspended future, `src/semaphore.rs:301–329,360–387`. -/
def acquireResume (s : LinkedSemaphore W) (rounds : Nat) (call : Acquire) (cx : W) :
    Except Fault (Option Permit × LinkedSemaphore W) := do
  let (wake, waiters) ← s.waiters.waitAgain (place call) cx
  let s := { s with waiters := waiters }
  match wake with
  | none => .ok (none, s)
  | some wake => do
    let (guard, s) ← s.takeWakeUp rounds call wake
    match guard with
    | some guard => .ok (some guard, s)
    | none => acquireLoop place rounds call cx 1 s

omit [Waker W] in
/-- Drop of a suspended future: its wait future is dropped, and with the waiter what it was
handed. -/
def acquireDrop (s : LinkedSemaphore W) (rounds : Nat) (call : Acquire) :
    Except Fault (LinkedSemaphore W) := do
  let (owned, waiters) ← s.waiters.waitDrop (place call)
  let s := { s with waiters := waiters }
  match owned with
  | .input _ => .ok s
  | .output wake => s.dropWakeUp rounds wake

end Futures

/-- `Permit::leak`, `src/semaphore.rs:501–505`. -/
def leak (s : LinkedSemaphore W) (permit : Permit) : Except Fault (LinkedSemaphore W) := do
  let reducedPermits ← subUsize s.totalPermits permit.permits
  .ok { s with totalPermits := reducedPermits }

/-- `Permit::release_fair`, `src/semaphore.rs:537–540`. -/
def releaseFair [Target] (s : LinkedSemaphore W) (rounds : Nat) (permit : Permit) :
    Except Fault (LinkedSemaphore W) := s.releasePermits rounds permit.permits .fair

/-- Drop of a `Permit`, `src/semaphore.rs:543–548`. -/
def dropPermit [Target] (s : LinkedSemaphore W) (rounds : Nat) (permit : Permit) :
    Except Fault (LinkedSemaphore W) := s.releasePermits rounds permit.permits .unfair

/-- A semaphore and its callers: the futures that were not polled, the guards held, and the
numbers of calls and of polls. -/
structure Sys (W : Type) where
  semaphore : LinkedSemaphore W
  fresh : List Acquire
  live : List Permit
  calls : Nat
  polls : Nat

namespace Sys

/-- A new semaphore that nobody uses yet. -/
def new (permits : Nat) : Sys W := ⟨.new permits, [], [], 0, 0⟩

/-- Whether the future is suspended in `wait`, where its waiter lives. -/
def suspended (place : Acquire ↪ Addr) (s : Sys W) (call : Acquire) : Prop :=
  (s.semaphore.waiters.memory (place call)).isSome

instance (place : Acquire ↪ Addr) (s : Sys W) (call : Acquire) :
    Decidable (s.suspended place call) :=
  inferInstanceAs (Decidable (_ = _))

/-- Record the outcome of a poll. -/
def polled (s : Sys W) (guard : Option Permit) (semaphore : LinkedSemaphore W) : Out × Sys W :=
  match guard with
  | none => (.pending, { s with semaphore := semaphore })
  | some permit => (.ready permit, { s with semaphore := semaphore, live := s.live ++ [permit] })

/-- Record the outcome of an attempt without waiting. -/
def tried (s : Sys W) (guard : Option Permit) (semaphore : LinkedSemaphore W) : Out × Sys W :=
  (.tried guard, { s with semaphore := semaphore, live := s.live ++ guard.toList })

variable [Target] (place : Acquire ↪ Addr)

/-- Poll a future. -/
def poll [Waker W] (s : Sys W) (call : Acquire) (cx : W) : Except Fault (Out × Sys W) :=
  let s := { s with polls := s.polls + 1 }
  if call ∈ s.fresh then do
    let (guard, semaphore) ← acquireLoop place (s.polls + 1) call cx 1 s.semaphore
    .ok ({ s with fresh := s.fresh.erase call }.polled guard semaphore)
  else if s.suspended place call then do
    let (guard, semaphore) ← s.semaphore.acquireResume place (s.polls + 1) call cx
    .ok (s.polled guard semaphore)
  else .ok (.ignored, s)

/-- Drop a future. -/
def cancel (s : Sys W) (call : Acquire) : Except Fault (Out × Sys W) :=
  if call ∈ s.fresh then .ok (.done, { s with fresh := s.fresh.erase call })
  else if s.suspended place call then do
    let semaphore ← s.semaphore.acquireDrop place (s.polls + 1) call
    .ok (.done, { s with semaphore := semaphore })
  else .ok (.ignored, s)

/-- One operation, with the waker of the task that calls it. -/
def step [Waker W] (s : Sys W) : Op × W → Except Fault (Out × Sys W)
  | (.create unfair toAcquire, _) =>
    let call := ⟨s.calls, unfair, toAcquire⟩
    .ok (.created call, { s with fresh := s.fresh ++ [call], calls := s.calls + 1 })
  | (.poll call, cx) => s.poll place call cx
  | (.cancel call, _) => s.cancel place call
  | (.tryAcquire toAcquire, _) => do
    let (guard, semaphore) ← s.semaphore.tryAcquire toAcquire
    .ok (s.tried guard semaphore)
  | (.tryAcquireUnfair toAcquire, _) =>
    let (guard, semaphore) := s.semaphore.tryAcquireUnfair toAcquire
    .ok (s.tried guard semaphore)
  | (.release fairness permit, _) =>
    if permit ∈ s.live then do
      let semaphore ← match fairness with
        | .fair => s.semaphore.releaseFair (s.polls + 1) permit
        | .unfair => s.semaphore.dropPermit (s.polls + 1) permit
      .ok (.done, { s with semaphore := semaphore, live := s.live.erase permit })
    else .ok (.ignored, s)
  | (.leak permit, _) =>
    if permit ∈ s.live then do
      let semaphore ← s.semaphore.leak permit
      .ok (.done, { s with semaphore := semaphore, live := s.live.erase permit })
    else .ok (.ignored, s)
  | (.forget permit, _) =>
    if permit ∈ s.live then .ok (.done, { s with live := s.live.erase permit })
    else .ok (.ignored, s)
  | (.add fairness newPermits, _) => do
    let (result, semaphore) ← s.semaphore.addPermits (s.polls + 1) newPermits fairness
    .ok (.added result, { s with semaphore := semaphore })

end Sys

/-! ### The semaphore on the queue is followed -/

/-- A semaphore in memory matches one on a queue, of whose calls at most the given number are
parked. -/
structure Matches (place : Acquire ↪ Addr) (n : Nat) (s : LinkedSemaphore W) (t : Semaphore) :
    Prop where
  waiters : WaitList.Placed place n s.waiters t.waiters
  permits : s.permits = t.permits
  totalPermits : s.totalPermits = t.totalPermits

section Functions

variable {place : Acquire ↪ Addr} {n rounds : Nat} {s : LinkedSemaphore W} {t : Semaphore}

/-- The release loop follows the one on the queue. -/
theorem Matches.releaseLoop (h : Matches place n s t) (fairness : Fairness) (fuel permits : Nat)
    (hr : t.waiters.parked.length < rounds) :
    Follows (Matches place n) (releaseLoop fairness rounds s permits)
      (Semaphore.releaseLoop fairness fuel t permits) := by
  induction fuel generalizing rounds s t permits with
  | zero => exact .error _ _
  | succ fuel ih =>
    cases rounds with
    | zero => omega
    | succ rounds =>
      rw [LinkedSemaphore.releaseLoop, Semaphore.releaseLoop, h.waiters.headInput, ok_bind]
      cases hq : t.waiters.parked with
      | nil =>
        simp only [WaitQueue.headInput, hq]
        exact .ok h
      | cons p rest =>
        simp only [WaitQueue.headInput, hq, List.head?_cons, Option.map_some]
        cases checkedSub permits p.2 with
        | none => exact .ok h
        | some permits' =>
          rw [hq, List.length_cons] at hr
          have hr' : rest.length < rounds := Nat.lt_of_succ_lt_succ hr
          obtain ⟨l, hl, hw⟩ := h.waiters.wakeOne (wakeUp fairness p.2)
          simp only [WaitQueue.wakeOne, hq] at hl hw
          cases fairness with
          | fair =>
            simp only [hl, ok_bind, WaitQueue.wakeOne, hq]
            apply ih _ _ hr'
            exact ⟨hw, rfl, h.totalPermits⟩
          | unfair =>
            simp only [hl, ok_bind, WaitQueue.wakeOne, hq]
            apply ih _ _ hr'
            exact ⟨hw, h.permits, h.totalPermits⟩

variable [Target]

private theorem Matches.releasePermits (h : Matches place n s t) (permits : Nat)
    (fairness : Fairness) (hr : n < rounds) :
    Follows (Matches place n) (s.releasePermits rounds permits fairness)
      (t.releasePermits permits fairness) := by
  unfold LinkedSemaphore.releasePermits Semaphore.releasePermits
  rw [h.permits]
  cases addUsize t.permits permits with
  | error e => exact .error _ _
  | ok total =>
    simp only [ok_bind]
    apply Follows.bind h.waiters.borrow
    intro l q hq
    have hm : Matches place n { s with permits := total, waiters := l }
        { t with permits := total, waiters := q } := ⟨hq, rfl, h.totalPermits⟩
    apply Follows.bind (hm.releaseLoop fairness _ total (Nat.lt_of_le_of_lt hq.few hr))
    intro s' t' h'
    apply Follows.bind h'.waiters.unborrow
    intro l' q' hq'
    exact .ok ⟨hq', h'.permits, h'.totalPermits⟩

private theorem Matches.dropWakeUp (h : Matches place n s t) (wake : WakeUp) (hr : n < rounds) :
    Follows (Matches place n) (s.dropWakeUp rounds wake) (t.dropWakeUp wake) := by
  cases wake with
  | unfair => exact h.releasePermits 0 .unfair hr
  | fair permits => exact h.releasePermits permits .unfair hr

private theorem Matches.addPermits (h : Matches place n s t) (newPermits : Nat)
    (fairness : Fairness) (hr : n < rounds) :
    Follows (Agree (Matches place n)) (s.addPermits rounds newPermits fairness)
      (t.addPermits newPermits fairness) := by
  unfold LinkedSemaphore.addPermits Semaphore.addPermits
  rw [h.totalPermits]
  cases checkedAdd t.totalPermits newPermits with
  | none => exact .ok ⟨rfl, h⟩
  | some total =>
    have hm : Matches place n { s with totalPermits := total } { t with totalPermits := total } :=
      ⟨h.waiters, h.permits, rfl⟩
    apply Follows.bind (hm.releasePermits newPermits fairness hr)
    intro s' t' h'
    exact .ok ⟨rfl, h'⟩

omit [Target] in
private theorem Matches.tryAcquireUnfair (h : Matches place n s t) (toAcquire : Nat) :
    Agree (Matches place n) (s.tryAcquireUnfair toAcquire) (t.tryAcquireUnfair toAcquire) := by
  unfold LinkedSemaphore.tryAcquireUnfair Semaphore.tryAcquireUnfair
  rw [h.permits]
  cases checkedSub t.permits toAcquire with
  | none => exact ⟨rfl, h⟩
  | some newPermits => exact ⟨rfl, h.waiters, rfl, h.totalPermits⟩

omit [Target] in
private theorem Matches.tryAcquire (h : Matches place n s t) (toAcquire : Nat) :
    Follows (Agree (Matches place n)) (s.tryAcquire toAcquire) (t.tryAcquire toAcquire) := by
  unfold LinkedSemaphore.tryAcquire Semaphore.tryAcquire
  apply Follows.bind h.waiters.borrow
  intro l q hq
  apply Follows.bind hq.unborrow
  intro l' q' hq'
  have hm : Matches place n { s with waiters := l' } { t with waiters := q' } :=
    ⟨hq', h.permits, h.totalPermits⟩
  rw [hq.isEmpty]
  cases q.isEmpty with
  | false => exact .ok ⟨rfl, hm⟩
  | true => exact .ok (hm.tryAcquireUnfair toAcquire)

omit [Target] in
private theorem Matches.attempt (h : Matches place n s t) (call : Acquire) :
    Follows (Agree (Matches place n)) (s.attempt call) (t.attempt call) :=
  .ite Iff.rfl (fun _ => .ok (h.tryAcquireUnfair call.toAcquire))
    fun _ => h.tryAcquire call.toAcquire

omit [Target] in
private theorem Matches.grow (h : Matches place n s t) : Matches place (n + 1) s t :=
  ⟨h.waiters.grow, h.permits, h.totalPermits⟩

omit [Target] in
private theorem holds_released (t : Semaphore) (permits : Nat) (fairness : Fairness)
    (call : Acquire) : (t.released permits fairness).waiters.Holds call ↔ t.waiters.Holds call := by
  have hw : ∀ u : Semaphore, u.waiters.Holds call ↔ call ∈ Semaphore.waiting u := by
    intro u
    rw [Semaphore.waiting, List.mem_append]
    exact Or.comm
  rw [hw, hw, Semaphore.waiting_released]

private theorem Matches.takeWakeUp_some (h : Matches place n s t) (rounds : Nat) {call : Acquire}
    (hle : call.toAcquire ≤ t.permits) :
    ∃ s', s.takeWakeUp rounds call .unfair = .ok (some ⟨call.toAcquire⟩, s') ∧
      Matches place n s' (t.take call.toAcquire) := by
  have hu := h.tryAcquireUnfair call.toAcquire
  rw [Semaphore.tryAcquireUnfair_some hle] at hu
  cases hs : s.tryAcquireUnfair call.toAcquire with
  | mk guard s' =>
    rw [hs] at hu
    obtain ⟨rfl, hm⟩ := hu
    exact ⟨s', by simp only [takeWakeUp, hs], hm⟩

private theorem Matches.takeWakeUp_none (h : Matches place n s t) {call : Acquire}
    (hi : t.waiters.borrowed = false) (hlt : t.permits < call.toAcquire)
    (hb : t.permits ≤ usizeMax) (hr : n < rounds) :
    ∃ s', s.takeWakeUp rounds call .unfair = .ok (none, s') ∧
      Matches place n s' (t.released 0 .unfair) := by
  have hu := h.tryAcquireUnfair call.toAcquire
  rw [Semaphore.tryAcquireUnfair_none hlt] at hu
  cases hs : s.tryAcquireUnfair call.toAcquire with
  | mk guard s' =>
    rw [hs] at hu
    obtain ⟨rfl, hm⟩ := hu
    obtain ⟨s'', hd, hm'⟩ := hm.dropWakeUp .unfair hr _ (Semaphore.releasePermits_eq .unfair hi hb)
    exact ⟨s'', by simp only [takeWakeUp, hs, hd, ok_bind], hm'⟩

variable [Waker W] {call : Acquire}

omit [Target] in
private theorem Matches.park (h : Matches place n s t) (hi : t.waiters.borrowed = false)
    (hb : t.Blocked call) (hk : ¬ t.waiters.Holds call) (cx : W) :
    ∃ s', s.attempt call = .ok (none, s') ∧
      ∃ l, s'.waiters.waitFirst (place call) call.toAcquire cx = .ok (none, l) ∧
        Matches place (n + 1) { s' with waiters := l } (t.enqueue call) := by
  obtain ⟨⟨guard, s'⟩, hs, rfl, hm⟩ := h.attempt call _ (Semaphore.attempt_none hi hb)
  obtain ⟨⟨wake, l⟩, hl, rfl, hw⟩ := hm.waiters.waitFirst hk call.toAcquire cx _
    (WaitQueue.park_idle hi call call.toAcquire)
  exact ⟨s', hs, l, hl, hw, hm.permits, hm.totalPermits⟩

private theorem Matches.acquireLoop (h : Matches place n s t) (rounds : Nat)
    (hi : t.waiters.borrowed = false) (hk : ¬ t.waiters.Holds call) (cx : W) :
    Follows (Agree (Matches place (n + 1))) (acquireLoop place rounds call cx 1 s)
      (t.acquireRound call) := by
  by_cases hb : t.Blocked call
  · obtain ⟨s', hs, l, hl, hm⟩ := h.park hi hb hk cx
    rw [Semaphore.acquireRound_none hi hb]
    simp only [LinkedSemaphore.acquireLoop, hs, ok_bind, hl]
    exact .ok ⟨rfl, hm⟩
  · obtain ⟨⟨guard, s'⟩, hs, rfl, hm⟩ := h.attempt call _ (Semaphore.attempt_some hi hb)
    rw [Semaphore.acquireRound_some hi hb]
    simp only [LinkedSemaphore.acquireLoop, hs, ok_bind]
    exact .ok ⟨rfl, hm.grow⟩

/-- A poll of a suspended future follows the one on the queue. -/
theorem Matches.acquireResume (h : Matches place n s t) (hi : t.waiters.borrowed = false)
    (hp : t.permits ≤ usizeMax) (hk : t.waiters.Holds call) (cx : W) (hr : n < rounds) :
    Follows (Agree (Matches place (n + 1))) (s.acquireResume place rounds call cx)
      (t.acquireResume call) := by
  unfold LinkedSemaphore.acquireResume
  cases hw : t.waiters.woken.lookup call with
  | none =>
    obtain ⟨⟨wake, l⟩, hl, ⟨rfl, hm⟩, -⟩ :=
      h.waiters.waitAgain hk cx _ (WaitQueue.poll_idle_none hi hw)
    rw [Semaphore.acquireResume_parked hi hw]
    simp only [hl, ok_bind]
    exact .ok ⟨rfl, Matches.grow ⟨hm, h.permits, h.totalPermits⟩⟩
  | some wake =>
    obtain ⟨⟨_, l⟩, hl, ⟨rfl, hw'⟩, hk'⟩ :=
      h.waiters.waitAgain hk cx _ (WaitQueue.poll_idle_some hi hw)
    have hm : Matches place n { s with waiters := l } (t.collect call) :=
      ⟨hw', h.permits, h.totalPermits⟩
    simp only [hl, ok_bind]
    cases wake with
    | fair permits =>
      rw [Semaphore.acquireResume_fair hi hw]
      exact .ok ⟨rfl, hm.grow⟩
    | unfair =>
      by_cases hle : call.toAcquire ≤ t.permits
      · obtain ⟨s', hs, hm'⟩ := hm.takeWakeUp_some rounds hle
        rw [Semaphore.acquireResume_some hi hw hle]
        simp only [hs, ok_bind]
        exact .ok ⟨rfl, hm'.grow⟩
      · have hlt := Nat.lt_of_not_le hle
        have haway : ¬ ((t.collect call).released 0 .unfair).waiters.Holds call := by
          rw [holds_released]
          exact hk' (by simp)
        obtain ⟨s', hs, hm'⟩ := hm.takeWakeUp_none hi hlt hp hr
        have hround := hm'.acquireLoop rounds hi haway cx
        rw [Semaphore.acquireRound_none (s := (t.collect call).released 0 .unfair) hi
          (.inl hlt)] at hround
        rw [Semaphore.acquireResume_none hi hw hlt hp]
        simp only [hs, ok_bind]
        exact hround

omit [Waker W] in
private theorem Matches.acquireDrop (h : Matches place n s t) (hk : t.waiters.Holds call)
    (hr : n < rounds) :
    Follows (Matches place n) (s.acquireDrop place rounds call) (t.acquireDrop call) := by
  unfold LinkedSemaphore.acquireDrop Semaphore.acquireDrop
  apply Follows.bind (h.waiters.waitDrop hk)
  rintro ⟨owned, l⟩ ⟨owned', q⟩ ⟨rfl, hq⟩
  have hm : Matches place n { s with waiters := l } { t with waiters := q } :=
    ⟨hq, h.permits, h.totalPermits⟩
  cases owned with
  | input i => exact .ok hm
  | output wake => exact hm.dropWakeUp wake hr

end Functions

/-- A system in memory models one on a queue. -/
structure Models (place : Acquire ↪ Addr) (s : Sys W) (t : Semaphore.Sys) : Prop where
  semaphore : Matches place s.polls s.semaphore t.semaphore
  fresh : s.fresh = t.fresh
  live : s.live = t.live
  calls : s.calls = t.calls

section Steps

variable {place : Acquire ↪ Addr} {s : Sys W} {t : Semaphore.Sys}

/-- New semaphores model each other. -/
theorem Models.new (place : Acquire ↪ Addr) (permits : Nat) :
    Models place (Sys.new permits : Sys W) (Semaphore.Sys.new permits) :=
  ⟨⟨.new place, rfl, rfl⟩, rfl, rfl, rfl⟩

private theorem Models.suspended (h : Models place s t) (call : Acquire) :
    s.suspended place call ↔ t.suspended call := h.semaphore.waiters.inMemory call

private theorem Models.put (h : Models place s t) {r : LinkedSemaphore W} {u : Semaphore}
    (hm : Matches place s.polls r u) :
    Models place { s with semaphore := r } { t with semaphore := u } :=
  ⟨hm, h.fresh, h.live, h.calls⟩

private theorem Models.spend (h : Models place s t) (permit : Permit) :
    Models place { s with live := s.live.erase permit } { t with live := t.live.erase permit } :=
  ⟨h.semaphore, h.fresh, congrArg (·.erase permit) h.live, h.calls⟩

private theorem Models.tried (h : Models place s t) (guard : Option Permit) {r : LinkedSemaphore W}
    {u : Semaphore} (hm : Matches place s.polls r u) :
    Agree (Models place) (s.tried guard r) (t.tried guard u) :=
  ⟨rfl, hm, h.fresh, by simp only [Sys.tried, Semaphore.Sys.tried, h.live], h.calls⟩

private theorem Models.polled (h : Models place s t) (call : Acquire) (guard : Option Permit)
    {r : LinkedSemaphore W} {u : Semaphore} (hm : Matches place s.polls r u) :
    Agree (Models place) (s.polled guard r) (t.polled call guard u) := by
  cases guard with
  | none => exact ⟨rfl, h.put hm⟩
  | some permit =>
    exact ⟨rfl, hm, h.fresh, by simp only [Sys.polled, Semaphore.Sys.polled, h.live], h.calls⟩

variable [Target]

/-- A poll follows the one on the queue. -/
theorem Models.poll [Waker W] (h : Models place s t) (hi : Semaphore.Inv t)
    (hn : Semaphore.Numbered t) (call : Acquire) (cx : W) :
    Follows (Agree (Models place)) (s.poll place call cx) (t.poll call) := by
  have hb : t.semaphore.permits ≤ usizeMax := by
    have hc := hi.conserved
    have ht := hi.bounded
    omega
  have hm := h.semaphore
  have hgrow : Models place { s with polls := s.polls + 1 } t := ⟨hm.grow, h.fresh, h.live, h.calls⟩
  have hfresh : call ∈ s.fresh ↔ call ∈ t.fresh := by rw [h.fresh]
  unfold Sys.poll Semaphore.Sys.poll
  apply Follows.ite hfresh
  · intro hf
    have haway : ¬ t.semaphore.waiters.Holds call := by
      intro hold
      exact hn.fresh_not_waiting hf (List.mem_append.mpr hold.symm)
    apply Follows.bind (hm.acquireLoop (s.polls + 1 + 1) hi.idle haway cx)
    rintro ⟨guard, r⟩ ⟨guard', u⟩ ⟨rfl, hru⟩
    have harrive : Models place { s with polls := s.polls + 1, fresh := s.fresh.erase call }
        { t with fresh := t.fresh.erase call, arrived := t.arrived ++ [call] } :=
      ⟨hm.grow, congrArg (·.erase call) h.fresh, h.live, h.calls⟩
    exact .ok (harrive.polled call guard hru)
  · intro _
    apply Follows.ite (h.suspended call)
    · intro hold
      have hr : s.polls < s.polls + 1 + 1 := by omega
      apply Follows.bind (hm.acquireResume hi.idle hb hold cx hr)
      rintro ⟨guard, r⟩ ⟨guard', u⟩ ⟨rfl, hru⟩
      exact .ok (hgrow.polled call guard hru)
    · intro _
      exact .ok ⟨rfl, hgrow⟩

private theorem Models.cancel (h : Models place s t) (call : Acquire) :
    Follows (Agree (Models place)) (s.cancel place call) (t.cancel call) := by
  have hfresh : call ∈ s.fresh ↔ call ∈ t.fresh := by rw [h.fresh]
  apply Follows.ite hfresh
  · intro _
    exact .ok ⟨rfl, h.semaphore, congrArg (·.erase call) h.fresh, h.live, h.calls⟩
  · intro _
    apply Follows.ite (h.suspended call)
    · intro hold
      apply Follows.bind (h.semaphore.acquireDrop hold (Nat.lt_succ_self _))
      intro r u hru
      exact .ok ⟨rfl, h.put hru⟩
    · intro _
      exact .ok ⟨rfl, h⟩

/-- An operation follows the one on the queue. -/
theorem Models.step [Waker W] (h : Models place s t) (hi : Semaphore.Inv t)
    (hn : Semaphore.Numbered t) (op : Op) (cx : W) :
    Follows (Agree (Models place)) (s.step place (op, cx)) (t.step op) := by
  have hlive (permit : Permit) : permit ∈ s.live ↔ permit ∈ t.live := by rw [h.live]
  cases op with
  | create unfair toAcquire =>
    simp only [Sys.step, Semaphore.Sys.step, h.fresh, h.calls]
    exact .ok ⟨rfl, h.semaphore, rfl, h.live, rfl⟩
  | poll call => exact h.poll hi hn call cx
  | cancel call => exact h.cancel call
  | tryAcquire toAcquire =>
    apply Follows.bind (h.semaphore.tryAcquire toAcquire)
    rintro ⟨guard, r⟩ ⟨guard', u⟩ ⟨rfl, hru⟩
    exact .ok (h.tried guard hru)
  | tryAcquireUnfair toAcquire =>
    obtain ⟨hg, hru⟩ := h.semaphore.tryAcquireUnfair toAcquire
    simp only [Sys.step, Semaphore.Sys.step, hg]
    exact .ok (h.tried _ hru)
  | release fairness permit =>
    apply Follows.ite (hlive permit)
    · intro _
      have hr := h.semaphore.releasePermits permit.permits fairness (Nat.lt_succ_self _)
      cases fairness with
      | fair =>
        apply Follows.bind hr
        intro r u hru
        exact .ok ⟨rfl, (h.spend permit).put hru⟩
      | unfair =>
        apply Follows.bind hr
        intro r u hru
        exact .ok ⟨rfl, (h.spend permit).put hru⟩
    · intro _
      exact .ok ⟨rfl, h⟩
  | leak permit =>
    apply Follows.ite (hlive permit)
    · intro _
      simp only [LinkedSemaphore.leak, Semaphore.leak, h.semaphore.totalPermits]
      cases subUsize t.semaphore.totalPermits permit.permits with
      | error e => exact .error _ _
      | ok total =>
        exact .ok ⟨rfl, (h.spend permit).put ⟨h.semaphore.waiters, h.semaphore.permits, rfl⟩⟩
    · intro _
      exact .ok ⟨rfl, h⟩
  | forget permit =>
    apply Follows.ite (hlive permit)
    · intro _
      exact .ok ⟨rfl, h.semaphore, h.fresh, congrArg (·.erase permit) h.live, h.calls⟩
    · intro _
      exact .ok ⟨rfl, h⟩
  | add fairness newPermits =>
    apply Follows.bind (h.semaphore.addPermits newPermits fairness (Nat.lt_succ_self _))
    rintro ⟨result, r⟩ ⟨result', u⟩ ⟨rfl, hru⟩
    exact .ok ⟨rfl, h.put hru⟩

/-- Whatever callers do, the semaphore in memory returns what the one on the queue returns. -/
theorem run_models [Waker W] (place : Acquire ↪ Addr) (permits : Usize) (ops : List (Op × W)) :
    ∃ outs s t, run (Sys.step place) (Sys.new permits) ops = .ok (outs, s) ∧
      run Semaphore.Sys.step (Semaphore.Sys.new permits) (ops.map Prod.fst) = .ok (outs, t) ∧
      Models place s t ∧ Semaphore.Inv t := by
  have hstep : ∀ (s : Sys W) t (i : Op × W),
      Models place s t ∧ Semaphore.Inv t ∧ Semaphore.Numbered t →
      Follows (Agree fun s t => Models place s t ∧ Semaphore.Inv t ∧ Semaphore.Numbered t)
        (s.step place i) (t.step i.1) := by
    rintro s t i ⟨h, hi, hn⟩ ⟨out, t'⟩ ht
    obtain ⟨⟨out', s'⟩, hs, hout, h'⟩ := h.step hi hn i.1 i.2 _ ht
    obtain ⟨o, u, hu, m⟩ := hi.step_move i.1
    rw [ht] at hu
    cases hu
    exact ⟨_, hs, hout, h', hi.move m, hn.move m⟩
  obtain ⟨outs, t, ht, -⟩ := Semaphore.run_inv permits (ops.map Prod.fst)
  rw [← run_map] at ht
  have hnew : Semaphore.Numbered (Semaphore.Sys.new permits) :=
    ⟨List.nodup_nil, fun _ hc => absurd hc List.not_mem_nil⟩
  obtain ⟨⟨outs', s⟩, hs, rfl, h, hi, -⟩ := run_follows_always hstep ops
    ⟨.new place permits, .new permits, hnew⟩ _ ht
  rw [run_map] at ht
  exact ⟨_, s, t, hs, ht, h, hi⟩

end Steps
end LinkedSemaphore
end Unsync
