import Unsync.Semaphore.Release

/-!
# Runs of a semaphore

A semaphore with its callers as a transition system. `Move` lists what one operation can
do, `Sys.step_move` proves that the code does one of these, and permits are conserved
along the way: without conservation the additions of `release_permits` could overflow.
-/

namespace Unsync
namespace Semaphore

open Runs Greedy

/-- A semaphore and its callers: the futures that were not polled, the guards held and
those passed to `mem::forget`, and the number of calls of `acquire`. The last two fields
record which futures were polled and which obtained their permits, in order. -/
structure Sys where
  semaphore : Semaphore
  fresh : List Acquire
  live : List Permit
  forgotten : List Permit
  calls : Nat
  arrived : List Acquire
  obtained : List Acquire
  deriving DecidableEq, Repr

/-- What callers can do between two polls of the executor. -/
inductive Op where
  /-- Call `acquire` or `acquire_unfair`. -/
  | create (unfair : Bool) (toAcquire : Nat)
  | poll (call : Acquire)
  /-- Drop a future at any stage. -/
  | cancel (call : Acquire)
  | tryAcquire (toAcquire : Nat)
  | tryAcquireUnfair (toAcquire : Nat)
  /-- Drop a guard, or pass it to `release_fair`. -/
  | release (fairness : Fairness) (permit : Permit)
  | leak (permit : Permit)
  | forget (permit : Permit)
  /-- Call `add_permits` or `add_permits_fair`. -/
  | add (fairness : Fairness) (newPermits : Nat)
  deriving DecidableEq, Repr

/-- What an operation returns. Operations on futures or guards that do not exist are
ignored. -/
inductive Out where
  | ignored
  | created (call : Acquire)
  | pending
  | ready (permit : Permit)
  | tried (permit : Option Permit)
  | added (result : Added)
  | done
  deriving DecidableEq, Repr

namespace Sys

/-- A new semaphore that nobody uses yet. -/
def new (permits : Nat) : Sys := ⟨Semaphore.new permits, [], [], [], 0, [], []⟩

/-- Whether the future is suspended in `wait`. -/
def suspended (s : Sys) (call : Acquire) : Prop :=
  call ∈ s.semaphore.waiters.parked.map Prod.fst ∨ call ∈ s.semaphore.waiters.woken.map Prod.fst

instance (s : Sys) (call : Acquire) : Decidable (s.suspended call) :=
  inferInstanceAs (Decidable (_ ∨ _))

/-- Record the outcome of a poll. -/
def polled (s : Sys) (call : Acquire) (guard : Option Permit) (semaphore : Semaphore) :
    Out × Sys :=
  match guard with
  | none => (.pending, { s with semaphore := semaphore })
  | some permit =>
    (.ready permit, { s with
      semaphore := semaphore, live := s.live ++ [permit], obtained := s.obtained ++ [call] })

/-- Record the outcome of an attempt without waiting. -/
def tried (s : Sys) (guard : Option Permit) (semaphore : Semaphore) : Out × Sys :=
  (.tried guard, { s with semaphore := semaphore, live := s.live ++ guard.toList })

variable [Target]

/-- Poll a future. -/
def poll (s : Sys) (call : Acquire) : Except Fault (Out × Sys) :=
  if call ∈ s.fresh then do
    let (guard, semaphore) ← s.semaphore.acquireRound call
    let s := { s with fresh := s.fresh.erase call, arrived := s.arrived ++ [call] }
    .ok (s.polled call guard semaphore)
  else if s.suspended call then do
    let (guard, semaphore) ← s.semaphore.acquireResume call
    .ok (s.polled call guard semaphore)
  else .ok (.ignored, s)

/-- Drop a future. -/
def cancel (s : Sys) (call : Acquire) : Except Fault (Out × Sys) :=
  if call ∈ s.fresh then .ok (.done, { s with fresh := s.fresh.erase call })
  else if s.suspended call then do
    let semaphore ← s.semaphore.acquireDrop call
    .ok (.done, { s with semaphore := semaphore })
  else .ok (.ignored, s)

/-- One operation. -/
def step (s : Sys) : Op → Except Fault (Out × Sys)
  | .create unfair toAcquire =>
    let call := ⟨s.calls, unfair, toAcquire⟩
    .ok (.created call, { s with fresh := s.fresh ++ [call], calls := s.calls + 1 })
  | .poll call => s.poll call
  | .cancel call => s.cancel call
  | .tryAcquire toAcquire => do
    let (guard, semaphore) ← s.semaphore.tryAcquire toAcquire
    .ok (s.tried guard semaphore)
  | .tryAcquireUnfair toAcquire =>
    let (guard, semaphore) := s.semaphore.tryAcquireUnfair toAcquire
    .ok (s.tried guard semaphore)
  | .release fairness permit =>
    if permit ∈ s.live then do
      let semaphore ← match fairness with
        | .fair => s.semaphore.releaseFair permit
        | .unfair => s.semaphore.dropPermit permit
      .ok (.done, { s with semaphore := semaphore, live := s.live.erase permit })
    else .ok (.ignored, s)
  | .leak permit =>
    if permit ∈ s.live then do
      let semaphore ← s.semaphore.leak permit
      .ok (.done, { s with semaphore := semaphore, live := s.live.erase permit })
    else .ok (.ignored, s)
  | .forget permit =>
    if permit ∈ s.live then
      .ok (.done, { s with
        live := s.live.erase permit, forgotten := s.forgotten ++ [permit] })
    else .ok (.ignored, s)
  | .add fairness newPermits => do
    let (result, semaphore) ← s.semaphore.addPermits newPermits fairness
    .ok (.added result, { s with semaphore := semaphore })

/-- The caller has a guard for permits taken by a completed future. -/
def complete (s : Sys) (call : Acquire) : Sys :=
  { s with live := s.live ++ [⟨call.toAcquire⟩], obtained := s.obtained ++ [call] }

/-- A future was polled for the first time. -/
def arrive (s : Sys) (call : Acquire) : Sys :=
  { s with fresh := s.fresh.erase call, arrived := s.arrived ++ [call] }

end Sys

/-! ### What one operation can do -/

/-- The moves of a semaphore and its callers, each with the condition that selects it. -/
inductive Move [Target] (s : Sys) : Op → Out → Sys → Prop where
  | ignored {op : Op} : Move s op .ignored s
  | create {unfair : Bool} {n : Nat} :
    Move s (.create unfair n) (.created ⟨s.calls, unfair, n⟩)
      { s with fresh := s.fresh ++ [⟨s.calls, unfair, n⟩], calls := s.calls + 1 }
  | obtain {call : Acquire} (hf : call ∈ s.fresh) (hb : ¬ s.semaphore.Blocked call) :
    Move s (.poll call) (.ready ⟨call.toAcquire⟩)
      (({ s with semaphore := s.semaphore.take call.toAcquire }.arrive call).complete call)
  | park {call : Acquire} (hf : call ∈ s.fresh) (hb : s.semaphore.Blocked call) :
    Move s (.poll call) .pending
      ({ s with semaphore := s.semaphore.enqueue call }.arrive call)
  | wait {call : Acquire} (hf : call ∉ s.fresh) (hs : s.suspended call)
    (hw : s.semaphore.waiters.woken.lookup call = none) : Move s (.poll call) .pending s
  | contend {call : Acquire} (hf : call ∉ s.fresh)
    (hw : s.semaphore.waiters.woken.lookup call = some .unfair)
    (hle : call.toAcquire ≤ s.semaphore.permits) :
    Move s (.poll call) (.ready ⟨call.toAcquire⟩)
      ({ s with semaphore := (s.semaphore.collect call).take call.toAcquire }.complete call)
  | requeue {call : Acquire} (hf : call ∉ s.fresh)
    (hw : s.semaphore.waiters.woken.lookup call = some .unfair)
    (hlt : s.semaphore.permits < call.toAcquire) :
    Move s (.poll call) .pending
      { s with semaphore := ((s.semaphore.collect call).released 0 .unfair).enqueue call }
  | claim {call : Acquire} {n : Nat} (hf : call ∉ s.fresh)
    (hw : s.semaphore.waiters.woken.lookup call = some (.fair n)) :
    Move s (.poll call) (.ready ⟨call.toAcquire⟩)
      ({ s with semaphore := s.semaphore.collect call }.complete call)
  | cancelFresh {call : Acquire} (hf : call ∈ s.fresh) :
    Move s (.cancel call) .done { s with fresh := s.fresh.erase call }
  | cancelParked {call : Acquire} {n : Nat} (hf : call ∉ s.fresh)
    (hp : s.semaphore.waiters.parked.lookup call = some n) :
    Move s (.cancel call) .done { s with semaphore := s.semaphore.withdraw call }
  | cancelWoken {call : Acquire} {w : WakeUp} (hf : call ∉ s.fresh)
    (hp : s.semaphore.waiters.parked.lookup call = none)
    (hw : s.semaphore.waiters.woken.lookup call = some w) :
    Move s (.cancel call) .done
      { s with semaphore := (s.semaphore.collect call).released (granted w) .unfair }
  | tried {n : Nat} (hp : s.semaphore.waiters.parked = []) (hle : n ≤ s.semaphore.permits) :
    Move s (.tryAcquire n) (.tried (some ⟨n⟩))
      { s with semaphore := s.semaphore.take n, live := s.live ++ [⟨n⟩] }
  | refused {n : Nat} (hb : s.semaphore.waiters.parked ≠ [] ∨ s.semaphore.permits < n) :
    Move s (.tryAcquire n) (.tried none) s
  | stolen {n : Nat} (hle : n ≤ s.semaphore.permits) :
    Move s (.tryAcquireUnfair n) (.tried (some ⟨n⟩))
      { s with semaphore := s.semaphore.take n, live := s.live ++ [⟨n⟩] }
  | short {n : Nat} (hlt : s.semaphore.permits < n) : Move s (.tryAcquireUnfair n) (.tried none) s
  | release {fairness : Fairness} {permit : Permit} (hl : permit ∈ s.live) :
    Move s (.release fairness permit) .done
      { s with
        semaphore := s.semaphore.released permit.permits fairness, live := s.live.erase permit }
  | leak {permit : Permit} (hl : permit ∈ s.live) :
    Move s (.leak permit) .done
      { s with
        semaphore := { s.semaphore with
          totalPermits := s.semaphore.totalPermits - permit.permits }
        live := s.live.erase permit }
  | forget {permit : Permit} (hl : permit ∈ s.live) :
    Move s (.forget permit) .done
      { s with live := s.live.erase permit, forgotten := s.forgotten ++ [permit] }
  | add {fairness : Fairness} {n : Nat} (hb : s.semaphore.totalPermits + n ≤ usizeMax) :
    Move s (.add fairness n) (.added .done)
      { s with
        semaphore := { s.semaphore with
          totalPermits := s.semaphore.totalPermits + n }.released n fairness }
  | panicked {fairness : Fairness} {n : Nat} (hb : usizeMax < s.semaphore.totalPermits + n) :
    Move s (.add fairness n) (.added .panicked) s

/-! ### Conservation -/

/-- Where the permits are. -/
structure Inv [Target] (s : Sys) : Prop where
  idle : s.semaphore.waiters.borrowed = false
  asked : ∀ p ∈ s.semaphore.waiters.parked, p.2 = p.1.toAcquire
  sized : ∀ p ∈ s.semaphore.waiters.woken, ∀ n, p.2 = .fair n → n = p.1.toAcquire
  conserved : s.semaphore.permits + total Permit.permits s.live +
    total Permit.permits s.forgotten + grants s.semaphore.waiters.woken =
      s.semaphore.totalPermits
  bounded : s.semaphore.totalPermits ≤ usizeMax

section Steps

variable [Target] {s : Sys}

/-- A new semaphore conserves its permits. -/
theorem Inv.new (permits : Usize) : Inv (Sys.new permits) := by
  refine ⟨rfl, ?_, ?_, ?_, permits.2⟩
  · intro p hp
    cases hp
  · intro p hp
    cases hp
  · simp [Sys.new, Semaphore.new, WaitQueue.empty, grants]

/-- Permits handed back never overflow the pool. -/
theorem Inv.release_fits (h : Inv s) {permit : Permit} (hl : permit ∈ s.live) :
    s.semaphore.permits + permit.permits ≤ usizeMax := by
  have hc := h.conserved
  have ht := h.bounded
  have he := total_erase Permit.permits hl
  omega

private theorem Inv.leak_fits (h : Inv s) {permit : Permit} (hl : permit ∈ s.live) :
    permit.permits ≤ s.semaphore.totalPermits := by
  have hc := h.conserved
  have he := total_erase Permit.permits hl
  omega

private theorem Inv.grant_fits (h : Inv s) {call : Acquire} {w : WakeUp}
    (hw : s.semaphore.waiters.woken.lookup call = some w) :
    s.semaphore.permits + granted w ≤ usizeMax := by
  have hc := h.conserved
  have ht := h.bounded
  have he := grants_eraseKey hw
  omega

private theorem Inv.add_fits (h : Inv s) {n : Nat} (hb : s.semaphore.totalPermits + n ≤ usizeMax) :
    s.semaphore.permits + n ≤ usizeMax := by
  have hc := h.conserved
  omega

private theorem Inv.addPermits_done (h : Inv s) {n : Nat}
    (hb : s.semaphore.totalPermits + n ≤ usizeMax) (fairness : Fairness) :
    s.semaphore.addPermits n fairness = .ok (.done,
      { s.semaphore with totalPermits := s.semaphore.totalPermits + n }.released n fairness) := by
  have hr := releasePermits_eq (s := { s.semaphore with
    totalPermits := s.semaphore.totalPermits + n }) fairness h.idle (h.add_fits hb)
  simp only [addPermits, checkedAdd, if_pos hb, hr, ok_bind]

private theorem addPermits_panicked {n : Nat} (hb : usizeMax < s.semaphore.totalPermits + n)
    (fairness : Fairness) : s.semaphore.addPermits n fairness = .ok (.panicked, s.semaphore) := by
  simp only [addPermits, checkedAdd, if_neg (Nat.not_le.mpr hb)]

/-- A poll is one of the moves. -/
theorem Inv.poll_move (h : Inv s) (call : Acquire) :
    ∃ out t, s.poll call = .ok (out, t) ∧ Move s (.poll call) out t := by
  unfold Sys.poll
  by_cases hf : call ∈ s.fresh
  · rw [if_pos hf]
    by_cases hb : s.semaphore.Blocked call
    · simp only [acquireRound_none h.idle hb, ok_bind]
      exact ⟨_, _, rfl, .park hf hb⟩
    · simp only [acquireRound_some h.idle hb, ok_bind]
      exact ⟨_, _, rfl, .obtain hf hb⟩
  · rw [if_neg hf]
    by_cases hs : s.suspended call
    · rw [if_pos hs]
      cases hw : s.semaphore.waiters.woken.lookup call with
      | none =>
        simp only [acquireResume_parked h.idle hw, ok_bind]
        exact ⟨_, _, rfl, .wait hf hs hw⟩
      | some w =>
        cases w with
        | fair n =>
          simp only [acquireResume_fair h.idle hw, ok_bind]
          exact ⟨_, _, rfl, .claim hf hw⟩
        | unfair =>
          by_cases hle : call.toAcquire ≤ s.semaphore.permits
          · simp only [acquireResume_some h.idle hw hle, ok_bind]
            exact ⟨_, _, rfl, .contend hf hw hle⟩
          · have hlt := Nat.lt_of_not_le hle
            simp only [acquireResume_none h.idle hw hlt (h.grant_fits hw), ok_bind]
            exact ⟨_, _, rfl, .requeue hf hw hlt⟩
    · rw [if_neg hs]
      exact ⟨_, _, rfl, .ignored⟩

/-- A cancellation is one of the moves. -/
theorem Inv.cancel_move (h : Inv s) (call : Acquire) :
    ∃ out t, s.cancel call = .ok (out, t) ∧ Move s (.cancel call) out t := by
  unfold Sys.cancel
  by_cases hf : call ∈ s.fresh
  · rw [if_pos hf]
    exact ⟨_, _, rfl, .cancelFresh hf⟩
  · rw [if_neg hf]
    by_cases hs : s.suspended call
    · rw [if_pos hs]
      cases hp : s.semaphore.waiters.parked.lookup call with
      | some n =>
        simp only [acquireDrop_parked h.idle hp, ok_bind]
        exact ⟨_, _, rfl, .cancelParked hf hp⟩
      | none =>
        cases hw : s.semaphore.waiters.woken.lookup call with
        | none => exact absurd hs (by simp [Sys.suspended, lookup_none.mp hp, lookup_none.mp hw])
        | some w =>
          simp only [acquireDrop_woken h.idle hp hw (h.grant_fits hw), ok_bind]
          exact ⟨_, _, rfl, .cancelWoken hf hp hw⟩
    · rw [if_neg hs]
      exact ⟨_, _, rfl, .ignored⟩

/-- Every operation succeeds and is one of the moves. -/
theorem Inv.step_move (h : Inv s) (op : Op) :
    ∃ out t, s.step op = .ok (out, t) ∧ Move s op out t := by
  cases op with
  | create unfair n => exact ⟨_, _, rfl, .create⟩
  | poll call => exact h.poll_move call
  | cancel call => exact h.cancel_move call
  | tryAcquire n =>
    simp only [Sys.step, tryAcquire_eq h.idle, ok_bind]
    by_cases hp : s.semaphore.waiters.parked = []
    · rw [if_pos hp]
      by_cases hle : n ≤ s.semaphore.permits
      · rw [tryAcquireUnfair_some hle]
        exact ⟨_, _, rfl, .tried hp hle⟩
      · rw [tryAcquireUnfair_none (Nat.lt_of_not_le hle), Sys.tried, Option.toList_none,
          List.append_nil]
        exact ⟨_, _, rfl, .refused (.inr (Nat.lt_of_not_le hle))⟩
    · rw [if_neg hp, Sys.tried, Option.toList_none, List.append_nil]
      exact ⟨_, _, rfl, .refused (.inl hp)⟩
  | tryAcquireUnfair n =>
    simp only [Sys.step]
    by_cases hle : n ≤ s.semaphore.permits
    · rw [tryAcquireUnfair_some hle]
      exact ⟨_, _, rfl, .stolen hle⟩
    · rw [tryAcquireUnfair_none (Nat.lt_of_not_le hle), Sys.tried, Option.toList_none,
        List.append_nil]
      exact ⟨_, _, rfl, .short (Nat.lt_of_not_le hle)⟩
  | release fairness permit =>
    by_cases hl : permit ∈ s.live
    · have hr := releasePermits_eq fairness h.idle (h.release_fits hl)
      refine ⟨_, _, ?_, .release hl⟩
      cases fairness with
      | fair => simp only [Sys.step, if_pos hl, releaseFair, hr, ok_bind]
      | unfair => simp only [Sys.step, if_pos hl, dropPermit, hr, ok_bind]
    · exact ⟨_, _, by rw [Sys.step, if_neg hl], .ignored⟩
  | leak permit =>
    by_cases hl : permit ∈ s.live
    · refine ⟨_, _, ?_, .leak hl⟩
      simp only [Sys.step, if_pos hl, Semaphore.leak, subUsize, if_pos (h.leak_fits hl), ok_bind]
    · exact ⟨_, _, by rw [Sys.step, if_neg hl], .ignored⟩
  | forget permit =>
    by_cases hl : permit ∈ s.live
    · exact ⟨_, _, by rw [Sys.step, if_pos hl], .forget hl⟩
    · exact ⟨_, _, by rw [Sys.step, if_neg hl], .ignored⟩
  | add fairness n =>
    by_cases hb : s.semaphore.totalPermits + n ≤ usizeMax
    · refine ⟨_, _, ?_, .add hb⟩
      simp only [Sys.step, h.addPermits_done hb, ok_bind]
    · have hlt := Nat.lt_of_not_le hb
      refine ⟨_, _, ?_, .panicked hlt⟩
      simp only [Sys.step, addPermits_panicked hlt, ok_bind]

omit [Target] in
private theorem asked_enqueue {s : Semaphore} (h : ∀ p ∈ s.waiters.parked, p.2 = p.1.toAcquire)
    (call : Acquire) : ∀ p ∈ (s.enqueue call).waiters.parked, p.2 = p.1.toAcquire := by
  intro p hp
  rcases List.mem_append.mp hp with hp | hp
  · exact h p hp
  · rw [List.mem_singleton.mp hp]

omit [Target] in
private theorem mem_eraseKey {V : Type} {call : Acquire} {xs : List (Acquire × V)}
    {p : Acquire × V} (h : p ∈ eraseKey call xs) : p ∈ xs := List.mem_of_mem_eraseP h

/-- Every move conserves the permits. -/
theorem Inv.move (h : Inv s) {op : Op} {out : Out} {t : Sys} (m : Move s op out t) : Inv t := by
  have hc := h.conserved
  have hb := h.bounded
  cases m with
  | ignored | wait | refused | short | panicked => exact h
  | create => exact ⟨h.idle, h.asked, h.sized, hc, hb⟩
  | @obtain call hf hn =>
    have hle : call.toAcquire ≤ s.semaphore.permits := Nat.le_of_not_lt fun hlt => hn (.inl hlt)
    refine ⟨h.idle, h.asked, h.sized, ?_, hb⟩
    simp only [Sys.complete, Sys.arrive, take, total_append, total_cons, total_nil]
    omega
  | park hf hn => exact ⟨h.idle, asked_enqueue h.asked _, h.sized, hc, hb⟩
  | contend hf hw hle =>
    have he : 0 + _ = _ := grants_eraseKey hw
    refine ⟨h.idle, h.asked, fun p hp => h.sized p (mem_eraseKey hp), ?_, hb⟩
    simp only [Sys.complete, collect, take, total_append, total_cons, total_nil]
    omega
  | @requeue call hf hw hlt =>
    have he : 0 + _ = _ := grants_eraseKey hw
    have hr := released_conserved (s.semaphore.collect call) 0 .unfair
    refine ⟨h.idle, asked_enqueue (released_asked 0 .unfair h.asked) _,
      released_sized 0 .unfair h.asked fun p hp => h.sized p (mem_eraseKey hp), ?_, hb⟩
    simp only [collect, enqueue, released_totalPermits] at hr ⊢
    omega
  | @claim call n hf hw =>
    have he : n + _ = _ := grants_eraseKey hw
    have hn : n = call.toAcquire := h.sized _ (mem_of_lookup hw) n rfl
    refine ⟨h.idle, h.asked, fun p hp => h.sized p (mem_eraseKey hp), ?_, hb⟩
    simp only [Sys.complete, collect, total_append, total_cons, total_nil]
    omega
  | cancelFresh => exact ⟨h.idle, h.asked, h.sized, hc, hb⟩
  | cancelParked => exact ⟨h.idle, fun p hp => h.asked p (mem_eraseKey hp), h.sized, hc, hb⟩
  | @cancelWoken call w hf hp hw =>
    have he := grants_eraseKey hw
    have hr := released_conserved (s.semaphore.collect call) (granted w) .unfair
    refine ⟨h.idle, released_asked _ .unfair h.asked,
      released_sized _ .unfair h.asked fun p hp => h.sized p (mem_eraseKey hp), ?_, hb⟩
    simp only [collect, released_totalPermits] at hr ⊢
    omega
  | tried hp hle | stolen hle =>
    refine ⟨h.idle, h.asked, h.sized, ?_, hb⟩
    simp only [take, total_append, total_cons, total_nil]
    omega
  | @release fairness permit hl =>
    have he := total_erase Permit.permits hl
    have hr := released_conserved s.semaphore permit.permits fairness
    refine ⟨h.idle, released_asked _ _ h.asked, released_sized _ _ h.asked h.sized, ?_, hb⟩
    simp only [released_totalPermits]
    omega
  | leak hl =>
    have he := total_erase Permit.permits hl
    have hle := h.leak_fits hl
    refine ⟨h.idle, h.asked, h.sized, ?_, (Nat.sub_le _ _).trans hb⟩
    simp only
    omega
  | forget hl =>
    have he := total_erase Permit.permits hl
    refine ⟨h.idle, h.asked, h.sized, ?_, hb⟩
    simp only [total_append, total_cons, total_nil]
    omega
  | @add fairness n hn =>
    have hr := released_conserved { s.semaphore with
      totalPermits := s.semaphore.totalPermits + n } n fairness
    refine ⟨h.idle, released_asked _ _ h.asked, released_sized _ _ h.asked h.sized, ?_, hn⟩
    simp only [released_totalPermits] at hr ⊢
    omega

/-- Every operation succeeds, is one of the moves and conserves the permits. -/
theorem Inv.step (h : Inv s) (op : Op) :
    ∃ out t, s.step op = .ok (out, t) ∧ Move s op out t ∧ Inv t := by
  obtain ⟨out, t, hs, m⟩ := h.step_move op
  exact ⟨out, t, hs, m, h.move m⟩

/-- Every run succeeds and conserves the permits. -/
theorem run_inv (permits : Usize) (ops : List Op) :
    ∃ outs s, run Sys.step (Sys.new permits) ops = .ok (outs, s) ∧ Inv s := by
  apply run_invariant _ (Inv.new permits)
  intro s op h
  obtain ⟨out, t, hs, -, ht⟩ := h.step op
  exact ⟨out, t, hs, ht⟩

/-- In every state that callers can reach, the pool, the guards and the grants not yet
collected add up to the total, every grant has the size its waiter asked for, and adding
permits panics exactly where the total would leave `usize`, without an effect. -/
theorem semaphore_conserves_permits (permits : Usize) (ops : List Op) :
    ∃ outs s, run Sys.step (Sys.new permits) ops = .ok (outs, s) ∧
      s.semaphore.permits + total Permit.permits s.live + total Permit.permits s.forgotten +
        grants s.semaphore.waiters.woken = s.semaphore.totalPermits ∧
      s.semaphore.totalPermits ≤ usizeMax ∧
      total Permit.permits s.live + total Permit.permits s.forgotten ≤ s.semaphore.totalPermits ∧
      (∀ call n, (call, .fair n) ∈ s.semaphore.waiters.woken → n = call.toAcquire) ∧
      ∀ fairness n, ∃ result after, s.semaphore.addPermits n fairness = .ok (result, after) ∧
        (result = .panicked ↔ usizeMax < s.semaphore.totalPermits + n) ∧
        (result = .panicked → after = s.semaphore) := by
  obtain ⟨outs, s, hr, h⟩ := run_inv permits ops
  have hc := h.conserved
  refine ⟨outs, s, hr, hc, h.bounded, by omega, fun call n hm => h.sized _ hm n rfl, ?_⟩
  intro fairness n
  by_cases hb : s.semaphore.totalPermits + n ≤ usizeMax
  · refine ⟨.done, _, h.addPermits_done hb fairness, ?_, fun hp => by cases hp⟩
    simp [Nat.not_lt.mpr hb]
  · refine ⟨.panicked, s.semaphore, addPermits_panicked (Nat.lt_of_not_le hb) fairness, ?_,
      fun _ => rfl⟩
    simpa using hb

end Steps

end Semaphore
end Unsync
