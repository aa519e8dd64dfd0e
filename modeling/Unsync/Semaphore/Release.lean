import Mathlib.Algebra.Order.Group.Nat
import Unsync.Lib.Greedy
import Unsync.Semaphore.Model

/-!
# What the semaphore's methods compute

Closed forms on a semaphore whose list is not borrowed. A release serves the longest prefix
of the queue that the pool covers; a fair release pays for it, an unfair one only tells.
-/

namespace Unsync
namespace Semaphore

open Runs Greedy

/-- What a queued waiter asks for. -/
def wanted (entry : Acquire × Nat) : Nat := entry.2

/-- The pool and the queue after the release loop has spent a budget on the queue. -/
def handOut (s : Semaphore) (permits : Nat) (fairness : Fairness) : Semaphore :=
  { s with
    permits := match fairness with
      | .fair => permits - total wanted (served wanted permits s.waiters.parked)
      | .unfair => s.permits
    waiters := { s.waiters with
      parked := unserved wanted permits s.waiters.parked
      woken := s.waiters.woken ++
        (served wanted permits s.waiters.parked).map fun p => (p.1, wakeUp fairness p.2) } }

/-- The semaphore after permits were released to it. -/
def released (s : Semaphore) (permits : Nat) (fairness : Fairness) : Semaphore :=
  { s with permits := s.permits + permits }.handOut (s.permits + permits) fairness

/-- A release leaves the total alone. -/
@[simp] theorem released_totalPermits (s : Semaphore) (permits : Nat) (fairness : Fairness) :
    (s.released permits fairness).totalPermits = s.totalPermits := rfl

private theorem handOut_nil {s : Semaphore} {permits : Nat} {fairness : Fairness}
    (hp : fairness = .fair → s.permits = permits) (h : s.waiters.parked = []) :
    s.handOut permits fairness = s := by
  obtain ⟨⟨b, parked, woken⟩, p, t⟩ := s
  subst h
  cases fairness with
  | fair =>
    have he : p = permits := hp rfl
    simp [handOut, served, unserved, he]
  | unfair => simp [handOut, served, unserved]

private theorem handOut_stop {s : Semaphore} {permits : Nat} {fairness : Fairness}
    {p : Acquire × Nat} {rest : List (Acquire × Nat)}
    (hp : fairness = .fair → s.permits = permits) (h : s.waiters.parked = p :: rest)
    (hlt : ¬ p.2 ≤ permits) : s.handOut permits fairness = s := by
  obtain ⟨⟨b, parked, woken⟩, q, t⟩ := s
  subst h
  cases fairness with
  | fair =>
    have he : q = permits := hp rfl
    simp [handOut, served, unserved, wanted, hlt, he]
  | unfair => simp [handOut, served, unserved, wanted, hlt]

/-- With a round for each waiter and one more, the loop ends as described. -/
theorem releaseLoop_eq (fairness : Fairness) (fuel : Nat) (s : Semaphore) (permits : Nat)
    (hp : fairness = .fair → s.permits = permits) (hf : s.waiters.parked.length < fuel) :
    releaseLoop fairness fuel s permits = .ok (s.handOut permits fairness) := by
  induction fuel generalizing s permits with
  | zero => omega
  | succ fuel ih =>
    cases hq : s.waiters.parked with
    | nil => simp [releaseLoop, WaitQueue.headInput, hq, handOut_nil hp hq]
    | cons p rest =>
      rw [hq, List.length_cons] at hf
      by_cases hle : p.2 ≤ permits
      · simp only [releaseLoop, WaitQueue.headInput, hq, List.head?_cons, Option.map_some,
          checkedSub, if_pos hle]
        cases fairness with
        | fair =>
          simp only [WaitQueue.wakeOne, hq]
          rw [ih _ _ (fun _ => rfl) (by simpa using hf)]
          simp [handOut, hq, served, unserved, wanted, hle, Nat.sub_sub]
        | unfair =>
          simp only [WaitQueue.wakeOne, hq]
          rw [ih _ _ (fun h => by cases h) (by simpa using hf)]
          simp [handOut, hq, served, unserved, wanted, hle]
      · simp [releaseLoop, WaitQueue.headInput, hq, checkedSub, hle, handOut_stop hp hq hle]

/-- A release on an idle semaphore whose pool does not overflow. -/
theorem releasePermits_eq [Target] {s : Semaphore} {permits : Nat} (fairness : Fairness)
    (hi : s.waiters.borrowed = false) (hb : s.permits + permits ≤ usizeMax) :
    s.releasePermits permits fairness = .ok (s.released permits fairness) := by
  have hloop := releaseLoop_eq fairness (s.waiters.parked.length + 1)
    { s with permits := s.permits + permits, waiters := { s.waiters with borrowed := true } }
    (s.permits + permits) (fun _ => rfl) (Nat.lt_succ_self _)
  simp only [releasePermits, addUsize, if_pos hb, ok_bind, WaitQueue.borrow_idle hi, hloop]
  simp [handOut, released, WaitQueue.unborrow, hi]

/-- Permits leave the pool. -/
def take (s : Semaphore) (permits : Nat) : Semaphore := { s with permits := s.permits - permits }

/-- A future joins the queue. -/
def enqueue (s : Semaphore) (call : Acquire) : Semaphore :=
  { s with waiters := { s.waiters with parked := s.waiters.parked ++ [(call, call.toAcquire)] } }

/-- A parked future leaves the queue. -/
def withdraw (s : Semaphore) (call : Acquire) : Semaphore :=
  { s with waiters := { s.waiters with parked := eraseKey call s.waiters.parked } }

/-- A woken future is rid of its wake-up. -/
def collect (s : Semaphore) (call : Acquire) : Semaphore :=
  { s with waiters := { s.waiters with woken := eraseKey call s.waiters.woken } }

/-- The permits that travel inside a wake-up. -/
def granted : WakeUp → Nat
  | .unfair => 0
  | .fair permits => permits

/-- The permits of all grants that were not collected. -/
def grants (woken : List (Acquire × WakeUp)) : Nat := total (fun p => granted p.2) woken

/-- Whether the attempt of a polled call fails: the pool is short, or the call is fair and
others wait. -/
def Blocked (s : Semaphore) (call : Acquire) : Prop :=
  s.permits < call.toAcquire ∨ call.unfair = false ∧ s.waiters.parked ≠ []

section Calls

variable {s : Semaphore} {call : Acquire}

/-- Enough permits are taken at once. -/
theorem tryAcquireUnfair_some {n : Nat} (h : n ≤ s.permits) :
    s.tryAcquireUnfair n = (some ⟨n⟩, s.take n) := by
  simp [tryAcquireUnfair, checkedSub, h, take]

/-- Too few permits leave the semaphore alone. -/
theorem tryAcquireUnfair_none {n : Nat} (h : s.permits < n) :
    s.tryAcquireUnfair n = (none, s) := by
  simp [tryAcquireUnfair, checkedSub, Nat.not_le.mpr h]

/-- A fair attempt defers to whoever is parked. -/
theorem tryAcquire_eq (hi : s.waiters.borrowed = false) (n : Nat) :
    s.tryAcquire n =
      .ok (if s.waiters.parked = [] then s.tryAcquireUnfair n else (none, s)) := by
  simp only [tryAcquire, WaitQueue.borrow_idle hi, ok_bind, WaitQueue.isEmpty,
    WaitQueue.unborrow, if_true, List.isEmpty_iff, WaitQueue.idle_eq hi]

/-- An attempt that is not blocked takes the permits. -/
theorem attempt_some (hi : s.waiters.borrowed = false) (h : ¬ s.Blocked call) :
    s.attempt call = .ok (some ⟨call.toAcquire⟩, s.take call.toAcquire) := by
  simp only [Blocked, not_or, not_lt, not_and, ne_eq, not_not] at h
  unfold attempt
  cases hu : call.unfair with
  | true => rw [if_pos rfl, tryAcquireUnfair_some h.1]
  | false =>
    rw [if_neg Bool.false_ne_true, tryAcquire_eq hi, if_pos (h.2 hu), tryAcquireUnfair_some h.1]

/-- A blocked attempt changes nothing. -/
theorem attempt_none (hi : s.waiters.borrowed = false) (h : s.Blocked call) :
    s.attempt call = .ok (none, s) := by
  unfold attempt
  cases hu : call.unfair with
  | true =>
    have hlt : s.permits < call.toAcquire := h.resolve_right (by simp [hu])
    rw [if_pos rfl, tryAcquireUnfair_none hlt]
  | false =>
    rw [if_neg Bool.false_ne_true, tryAcquire_eq hi]
    by_cases hp : s.waiters.parked = []
    · have hlt : s.permits < call.toAcquire := h.resolve_right (by simp [hp])
      rw [if_pos hp, tryAcquireUnfair_none hlt]
    · rw [if_neg hp]

/-- A round that is not blocked completes the future. -/
theorem acquireRound_some (hi : s.waiters.borrowed = false) (h : ¬ s.Blocked call) :
    s.acquireRound call = .ok (some ⟨call.toAcquire⟩, s.take call.toAcquire) := by
  simp [acquireRound, attempt_some hi h]

/-- A blocked round parks the future. -/
theorem acquireRound_none (hi : s.waiters.borrowed = false) (h : s.Blocked call) :
    s.acquireRound call = .ok (none, s.enqueue call) := by
  simp [acquireRound, attempt_none hi h, WaitQueue.park_idle hi, enqueue]

variable [Target]

/-- A suspended future that was not woken stays as it is. -/
theorem acquireResume_parked (hi : s.waiters.borrowed = false)
    (hw : s.waiters.woken.lookup call = none) : s.acquireResume call = .ok (none, s) := by
  simp [acquireResume, WaitQueue.poll_idle_none hi hw]

/-- A granted future completes with the permits it asked for. -/
theorem acquireResume_fair (hi : s.waiters.borrowed = false) {n : Nat}
    (hw : s.waiters.woken.lookup call = some (.fair n)) :
    s.acquireResume call = .ok (some ⟨call.toAcquire⟩, s.collect call) := by
  simp [acquireResume, WaitQueue.poll_idle_some hi hw, collect]

/-- A future with a token completes where the pool suffices. -/
theorem acquireResume_some (hi : s.waiters.borrowed = false)
    (hw : s.waiters.woken.lookup call = some .unfair) (hle : call.toAcquire ≤ s.permits) :
    s.acquireResume call =
      .ok (some ⟨call.toAcquire⟩, (s.collect call).take call.toAcquire) := by
  have ht := tryAcquireUnfair_some (s := s.collect call) hle
  simp only [acquireResume, WaitQueue.poll_idle_some hi hw, ok_bind]
  rw [← collect, ht]

/-- A future with a token that finds too few permits wakes others and queues again. -/
theorem acquireResume_none (hi : s.waiters.borrowed = false)
    (hw : s.waiters.woken.lookup call = some .unfair) (hlt : s.permits < call.toAcquire)
    (hb : s.permits ≤ usizeMax) :
    s.acquireResume call =
      .ok (none, ((s.collect call).released 0 .unfair).enqueue call) := by
  have ht := tryAcquireUnfair_none (s := s.collect call) hlt
  have hr : (s.collect call).releasePermits 0 .unfair = .ok ((s.collect call).released 0 .unfair) :=
    releasePermits_eq .unfair hi hb
  have hround := acquireRound_none (s := (s.collect call).released 0 .unfair) hi
    (Or.inl hlt)
  simp only [acquireResume, WaitQueue.poll_idle_some hi hw, ok_bind]
  rw [← collect, ht]
  simp only [dropWakeUp, hr, ok_bind, hround]

/-- Dropping a parked future takes its waiter out of the queue. -/
theorem acquireDrop_parked (hi : s.waiters.borrowed = false) {n : Nat}
    (hp : s.waiters.parked.lookup call = some n) :
    s.acquireDrop call = .ok (s.withdraw call) := by
  simp [acquireDrop, WaitQueue.drop_idle_parked hi hp, withdraw]

/-- Dropping a woken future releases what it was granted and passes the wake-up on. -/
theorem acquireDrop_woken (hi : s.waiters.borrowed = false) {w : WakeUp}
    (hp : s.waiters.parked.lookup call = none) (hw : s.waiters.woken.lookup call = some w)
    (hb : s.permits + granted w ≤ usizeMax) :
    s.acquireDrop call = .ok ((s.collect call).released (granted w) .unfair) := by
  have hr := releasePermits_eq (s := s.collect call) .unfair hi hb
  simp only [acquireDrop, WaitQueue.drop_idle_woken hi hp hw, ok_bind]
  cases w with
  | unfair => exact hr
  | fair n => exact hr

end Calls

/-! ### What a release keeps -/

/-- A woken future takes its grant with it. -/
theorem grants_eraseKey {call : Acquire} {w : WakeUp} {woken : List (Acquire × WakeUp)}
    (hw : woken.lookup call = some w) :
    granted w + grants (eraseKey call woken) = grants woken := by
  obtain ⟨l, r, rfl, -, he⟩ := lookup_split hw
  simp only [grants, he, total_append, total_cons]
  omega

private theorem grants_wakeUp (fairness : Fairness) (entries : List (Acquire × Nat)) :
    grants (entries.map fun p => (p.1, wakeUp fairness p.2)) =
      match fairness with
      | .fair => total wanted entries
      | .unfair => 0 := by
  induction entries with
  | nil => cases fairness <;> rfl
  | cons p rest ih =>
    unfold grants at ih ⊢
    rw [List.map_cons, total_cons, ih]
    cases fairness with
    | fair => rfl
    | unfair => rfl

/-- A release keeps permits in the pool or in the grants it makes. -/
theorem released_conserved (s : Semaphore) (permits : Nat) (fairness : Fairness) :
    (s.released permits fairness).permits + grants (s.released permits fairness).waiters.woken =
      s.permits + permits + grants s.waiters.woken := by
  have hle := total_served_le wanted (s.permits + permits) s.waiters.parked
  have hg := grants_wakeUp fairness (served wanted (s.permits + permits) s.waiters.parked)
  have ha : grants (s.released permits fairness).waiters.woken = grants s.waiters.woken +
      grants ((served wanted (s.permits + permits) s.waiters.parked).map
        fun p => (p.1, wakeUp fairness p.2)) := total_append _ _ _
  rw [ha, hg]
  cases fairness with
  | fair =>
    simp only [released, handOut]
    omega
  | unfair =>
    simp only [released, handOut]
    omega

/-- A release leaves waiters queued as they were. -/
theorem released_asked {s : Semaphore} (permits : Nat) (fairness : Fairness)
    (h : ∀ p ∈ s.waiters.parked, p.2 = p.1.toAcquire) :
    ∀ p ∈ (s.released permits fairness).waiters.parked, p.2 = p.1.toAcquire := by
  intro p hp
  apply h
  rw [← served_append_unserved wanted (s.permits + permits) s.waiters.parked]
  exact List.mem_append_right _ hp

/-- A fair release grants what the waiter asked for. -/
theorem released_sized {s : Semaphore} (permits : Nat) (fairness : Fairness)
    (ha : ∀ p ∈ s.waiters.parked, p.2 = p.1.toAcquire)
    (h : ∀ p ∈ s.waiters.woken, ∀ n, p.2 = .fair n → n = p.1.toAcquire) :
    ∀ p ∈ (s.released permits fairness).waiters.woken, ∀ n, p.2 = .fair n →
      n = p.1.toAcquire := by
  intro p hp n hn
  rcases List.mem_append.mp hp with hw | hs
  · exact h p hw n hn
  · obtain ⟨c, hc, rfl⟩ := List.mem_map.mp hs
    have hm : c ∈ s.waiters.parked := by
      rw [← served_append_unserved wanted (s.permits + permits) s.waiters.parked]
      exact List.mem_append_left _ hc
    cases fairness with
    | fair =>
      simp only [wakeUp, WakeUp.fair.injEq] at hn
      rw [← hn]
      exact ha c hm
    | unfair => cases hn

end Semaphore
end Unsync
