import Unsync.Lib.Executor
import Unsync.Semaphore.Handoff
import Unsync.Semaphore.Stranded
import Mathlib.Algebra.BigOperators.Fin

/-!
# Tasks that share a semaphore

What the documentation of `Semaphore` has in mind: a number of tasks share a resource that a
limited number of permits stands for. Each task works off its jobs. For a job it acquires
permits with `acquire` or `acquire_unfair`, goes on while it holds them, and gives them back
with `drop` or `release_fair`. No task keeps a guard while it acquires another one, and no
future is dropped before it is ready.
-/

namespace Unsync
namespace Semaphore

open Runs Executor

/-- How a job uses the semaphore, and how often it yields while it holds its permits. -/
structure Job where
  unfair : Bool
  permits : Nat
  yields : Nat
  fairness : Fairness
  deriving DecidableEq, Repr

/-- Where a task is. -/
inductive Stage where
  | idle
  /-- The task awaits the call. -/
  | acquiring (call : Acquire) (job : Job)
  /-- The task holds the guard and will yield that many times. -/
  | holding (permit : Permit) (yields : Nat) (job : Job)
  deriving DecidableEq, Repr

/-- A task: where it is, and the jobs that it has not begun. -/
structure Worker where
  stage : Stage
  jobs : List Job
  deriving DecidableEq, Repr

/-- The call that the task awaits. -/
def Worker.call (w : Worker) : Option Acquire :=
  match w.stage with
  | .acquiring call _ => some call
  | _ => none

/-- The guard that the task holds. -/
def Worker.guard (w : Worker) : Option Permit :=
  match w.stage with
  | .holding permit _ _ => some permit
  | _ => none

/-- A semaphore and the tasks that share it. -/
structure Session (k : Nat) where
  sys : Sys
  workers : Fin k → Worker

/-- The call is in the queue. -/
def Queued (s : Semaphore) (call : Acquire) : Prop := call ∈ s.waiters.parked.map Prod.fst

instance (s : Semaphore) (call : Acquire) : Decidable (s.Queued call) :=
  inferInstanceAs (Decidable (_ ∈ _))

namespace Session

variable {k : Nat}

/-- All tasks have been spawned. -/
def new (permits : Nat) (jobs : Fin k → List Job) : Session k :=
  ⟨.new permits, fun i => ⟨.idle, jobs i⟩⟩

/-- The task awaits a call that is in the queue. -/
def Parked (c : Session k) (i : Fin k) : Prop :=
  ∃ call ∈ (c.workers i).call, c.sys.semaphore.Queued call

instance (c : Session k) (i : Fin k) : Decidable (c.Parked i) :=
  inferInstanceAs (Decidable (∃ call ∈ (c.workers i).call, c.sys.semaphore.Queued call))

/-- The tasks and the semaphore after a turn. -/
def put (c : Session k) (i : Fin k) (sys : Sys) (worker : Worker) : Session k :=
  ⟨sys, Function.update c.workers i worker⟩

/-- The end of a turn. Nobody gives up, so whoever left the queue was woken. -/
def leave (c : Session k) (i : Fin k) (again : Bool) (sys : Sys) (worker : Worker) :
    Turn (Fin k) × Session k :=
  (⟨again, (List.finRange k).filter fun j => c.Parked j ∧ ¬ (c.put i sys worker).Parked j⟩,
    c.put i sys worker)

variable [Target]

/-- Poll the call that the task awaits, with the semaphore as the task left it. -/
def await (c : Session k) (i : Fin k) (sys : Sys) (call : Acquire) (job : Job)
    (jobs : List Job) : Except Fault (Turn (Fin k) × Session k) := do
  let (out, sys) ← sys.step (.poll call)
  match out with
  | .ready permit => .ok (c.leave i true sys ⟨.holding permit job.yields job, jobs⟩)
  | _ => .ok (c.leave i false sys ⟨.acquiring call job, jobs⟩)

/-- A turn of a task. -/
def turn (c : Session k) (i : Fin k) : Except Fault (Turn (Fin k) × Session k) :=
  match c.workers i with
  | ⟨.idle, []⟩ => .ok (c.leave i false c.sys ⟨.idle, []⟩)
  | ⟨.idle, job :: jobs⟩ => do
    let (out, sys) ← c.sys.step (.create job.unfair job.permits)
    match out with
    | .created call => c.await i sys call job jobs
    | _ => .error .unreachable
  | ⟨.acquiring call job, jobs⟩ => c.await i c.sys call job jobs
  | ⟨.holding permit (yields + 1) job, jobs⟩ =>
    .ok (c.leave i true c.sys ⟨.holding permit yields job, jobs⟩)
  | ⟨.holding permit 0 job, jobs⟩ => do
    let (_, sys) ← c.sys.step (.release job.fairness permit)
    .ok (c.leave i true sys ⟨.idle, jobs⟩)

/-- The tasks, which return when they are through with their jobs. -/
def tasks (k : Nat) : Tasks Fault (Session k) (Fin k) (Fin k) where
  task := id
  finished c i := decide (c.workers i = ⟨.idle, []⟩)
  turn := turn

end Session

/-! ### What tasks do to the semaphore -/

/-- What a semaphore with that many permits owes to its tasks. -/
structure Sys.Kept [Target] (permits : Nat) (s : Sys) : Prop where
  inv : Inv s
  covered : s.semaphore.Covered
  numbered : Numbered s
  forgotten : s.forgotten = []
  total : s.semaphore.totalPermits = permits

/-- What tasks do. -/
def used : Op → Bool
  | .create _ _ | .poll _ | .release _ _ => true
  | _ => false

/-- The call was woken, and the pool has what it will try to take. -/
def Ripe (s : Semaphore) (call : Acquire) : Prop :=
  ∃ p ∈ s.waiters.woken, p.1 = call ∧ (p.2 = .unfair → call.toAcquire ≤ s.permits)

instance (s : Semaphore) (call : Acquire) : Decidable (s.Ripe call) :=
  inferInstanceAs (Decidable (∃ p ∈ s.waiters.woken, _))

/-- Another call leaves the queue ripe, and stays ripe. -/
def Serves (s t : Semaphore) (other : Acquire) : Prop :=
  (s.Queued other → t.Queued other ∨ t.Ripe other) ∧ (s.Ripe other → t.Ripe other)

section Calls

variable {s : Semaphore} {call other : Acquire}

private theorem serves_released (permits : Nat) (ha : ∀ p ∈ s.waiters.parked, p.2 = p.1.toAcquire) :
    Serves s (s.released permits .unfair) other := by
  constructor
  · intro hq
    obtain ⟨p, hp, rfl⟩ := List.mem_map.mp hq
    have hasked := ha p hp
    rw [← Greedy.served_append_unserved wanted (s.permits + permits) s.waiters.parked] at hp
    rcases List.mem_append.mp hp with hp | hp
    · refine Or.inr ⟨(p.1, .unfair), ?_, rfl, fun _ => ?_⟩
      · exact List.mem_append_right _ (List.mem_map.mpr ⟨p, hp, rfl⟩)
      · have hle := Greedy.total_served_le wanted (s.permits + permits) s.waiters.parked
        have hpart := Greedy.total_erase wanted hp
        simp only [wanted] at hpart
        show p.1.toAcquire ≤ s.permits + permits
        omega
    · exact Or.inl (List.mem_map.mpr ⟨p, hp, rfl⟩)
  · rintro ⟨p, hp, he, hle⟩
    refine ⟨p, List.mem_append_left _ hp, he, fun hu => ?_⟩
    exact Nat.le_trans (hle hu) (Nat.le_add_right _ _)

private theorem serves_collect (hne : other ≠ call) : Serves s (s.collect call) other := by
  refine ⟨Or.inl, ?_⟩
  rintro ⟨p, hp, rfl, hle⟩
  exact ⟨p, (List.mem_eraseP_of_neg (by simpa using hne)).mpr hp, rfl, hle⟩

private theorem serves_enqueue : Serves s (s.enqueue call) other := by
  refine ⟨fun hq => Or.inl ?_, id⟩
  obtain ⟨p, hp, he⟩ := List.mem_map.mp hq
  exact List.mem_map.mpr ⟨p, List.mem_append_left _ hp, he⟩

private theorem Serves.trans {s t u : Semaphore} (h : Serves s t other) (h' : Serves t u other) :
    Serves s u other :=
  ⟨fun hq => (h.1 hq).elim h'.1 fun hr => Or.inr (h'.2 hr), fun hr => h'.2 (h.2 hr)⟩

private theorem queued_enqueue : (s.enqueue call).Queued call := by
  simp [Queued, enqueue]

end Calls

section Steps

variable [Target] {permits : Nat} {s t : Sys} {call : Acquire}

/-- A new semaphore owes nothing yet. -/
theorem Sys.Kept.new (permits : Usize) : (Sys.new permits).Kept permits := by
  refine ⟨.new permits, ?_, ⟨List.nodup_nil, ?_⟩, rfl, rfl⟩
  · intro p hp
    cases hp
  · intro c hc
    cases hc

/-- What tasks do succeeds, is one of the moves and keeps this. -/
theorem Sys.Kept.step (h : s.Kept permits) (op : Op) (hu : used op = true) :
    ∃ out t, s.step op = .ok (out, t) ∧ Move s op out t ∧ t.Kept permits := by
  obtain ⟨out, t, hs, m, hi⟩ := h.inv.step op
  have hg : strands s op = false := by
    cases op with
    | cancel call => cases hu
    | _ => rfl
  have hc := h.covered.move h.inv hg m
  have hn := h.numbered.move m
  have hf := h.forgotten
  have ht := h.total
  refine ⟨out, t, hs, m, hi, hc, hn, ?_, ?_⟩
  · cases m <;> first | exact hf | cases hu
  · cases m <;> first | exact ht | cases hu

/-- A poll of a future that exists is not ignored. -/
theorem poll_ne_ignored (hc : call ∈ s.pending) : s.step (.poll call) ≠ .ok (.ignored, t) := by
  intro h
  simp only [Sys.step, Sys.poll] at h
  split at h
  · cases hr : s.semaphore.acquireRound call with
    | error e =>
      rw [hr] at h
      cases h
    | ok r =>
      obtain ⟨guard, r⟩ := r
      rw [hr, ok_bind] at h
      cases guard <;> cases h
  · next hf =>
    have hw : call ∈ waiting s.semaphore := (List.mem_append.mp hc).resolve_left hf
    have hs : s.suspended call := (List.mem_append.mp hw).symm
    rw [if_pos hs] at h
    cases hr : s.semaphore.acquireResume call with
    | error e =>
      rw [hr] at h
      cases h
    | ok r =>
      obtain ⟨guard, r⟩ := r
      rw [hr, ok_bind] at h
      cases guard <;> cases h

/-- A poll either completes a call or leaves it in the queue. -/
theorem Sys.Kept.poll (h : s.Kept permits)
    (hc : s.fresh = [] ∧ call ∈ waiting s.semaphore ∨ s.fresh = [call]) :
    ∃ out t, s.step (.poll call) = .ok (out, t) ∧ t.Kept permits ∧ t.fresh = [] ∧
      (out = .ready ⟨call.toAcquire⟩ ∧ t.live = s.live ++ [⟨call.toAcquire⟩] ∧
          t.semaphore.waiters.parked = s.semaphore.waiters.parked ∧
          (call :: t.pending).Perm s.pending ∨
        out = .pending ∧ t.live = s.live ∧ t.semaphore.Queued call ∧ t.pending.Perm s.pending ∧
          ¬ s.semaphore.Ripe call ∧
          ∀ other, other ≠ call → Serves s.semaphore t.semaphore other) := by
  obtain ⟨out, t, hs, m, ht⟩ := h.step (.poll call) rfl
  have hmem : call ∈ s.pending := by
    rcases hc with ⟨-, hw⟩ | hf
    · exact List.mem_append_right _ hw
    · exact List.mem_append_left _ (by rw [hf]; exact List.mem_singleton_self call)
  have hnil : call ∉ s.fresh → s.fresh = [] := by
    intro hn
    refine (hc.resolve_right fun hf => hn ?_).1
    rw [hf]
    exact List.mem_singleton_self call
  have hone : call ∈ s.fresh → s.fresh = [call] := by
    intro hf
    refine hc.resolve_left fun he => ?_
    rw [he.1] at hf
    cases hf
  refine ⟨out, t, hs, ht, ?_⟩
  cases m with
  | ignored => exact absurd hs (poll_ne_ignored hmem)
  | obtain hf hb =>
    refine ⟨?_, Or.inl ⟨rfl, rfl, rfl, (List.perm_cons_erase hf).symm.append_right _⟩⟩
    show s.fresh.erase call = []
    rw [hone hf, List.erase_cons_head]
  | park hf hb =>
    refine ⟨?_, Or.inr ⟨rfl, rfl, queued_enqueue, ?_, ?_, fun other _ => serves_enqueue⟩⟩
    · show s.fresh.erase call = []
      rw [hone hf, List.erase_cons_head]
    · show (s.fresh.erase call ++ waiting (s.semaphore.enqueue call)).Perm s.pending
      rw [waiting_enqueue, Sys.pending, hone hf, List.erase_cons_head]
      exact List.perm_append_singleton _ _
    · rintro ⟨p, hp, rfl, -⟩
      refine h.numbered.fresh_not_waiting hf (List.mem_append_left _ ?_)
      exact List.mem_map_of_mem hp
  | wait hf hw hno =>
    have hwoken := lookup_none.mp hno
    refine ⟨hnil hf, Or.inr ⟨rfl, rfl, hw.resolve_right hwoken, List.Perm.refl _, ?_,
      fun other _ => ⟨Or.inl, id⟩⟩⟩
    rintro ⟨p, hp, rfl, -⟩
    exact hwoken (List.mem_map_of_mem hp)
  | contend hf hw hle =>
    exact ⟨hnil hf, Or.inl ⟨rfl, rfl, rfl,
      List.perm_middle.symm.trans ((waiting_collect hw).append_left s.fresh)⟩⟩
  | claim hf hw =>
    exact ⟨hnil hf, Or.inl ⟨rfl, rfl, rfl,
      List.perm_middle.symm.trans ((waiting_collect hw).append_left s.fresh)⟩⟩
  | requeue hf hw hlt =>
    refine ⟨hnil hf, Or.inr ⟨rfl, rfl, queued_enqueue, ?_, ?_, fun other hne => ?_⟩⟩
    · show (s.fresh ++ waiting (((s.semaphore.collect call).released 0 .unfair).enqueue call)).Perm
        s.pending
      rw [waiting_enqueue, waiting_released]
      exact ((List.perm_append_singleton _ _).trans (waiting_collect hw)).append_left s.fresh
    · rintro ⟨⟨c, w⟩, hp, rfl, hle⟩
      have hd := (List.nodup_append.mp (List.nodup_append.mp h.numbered.distinct).2.1).1
      have hsame := (lookup_of_mem hd hp).symm.trans hw
      cases hsame
      exact Nat.not_lt.mpr (hle rfl) hlt
    · exact ((serves_collect hne).trans (serves_released 0 h.inv.asked)).trans serves_enqueue

/-- A guard that is alive is released. -/
theorem Sys.Kept.release (h : s.Kept permits) {permit : Permit} (hl : permit ∈ s.live)
    (fairness : Fairness) :
    ∃ out t, s.step (.release fairness permit) = .ok (out, t) ∧ t.Kept permits ∧
      t.fresh = s.fresh ∧ t.live = s.live.erase permit ∧ t.pending = s.pending := by
  obtain ⟨out, t, hs, m, ht⟩ := h.step (.release fairness permit) rfl
  refine ⟨out, t, hs, ht, ?_⟩
  cases m with
  | ignored =>
    rw [Sys.step, if_pos hl] at hs
    cases fairness <;> simp only [releaseFair, dropPermit,
      releasePermits_eq _ h.inv.idle (h.inv.release_fits hl), ok_bind] at hs <;> cases hs
  | release hl =>
    refine ⟨rfl, rfl, ?_⟩
    show s.fresh ++ waiting (s.semaphore.released _ _) = s.pending
    rw [waiting_released, Sys.pending]

end Steps

/-! ### What tasks keep -/

/-- The turns that a job may take in each of its stages. A task gives up one for every other
task when it takes permits or returns them: the calls of others may be ripe no more. -/
def Worker.weight (k : Nat) (s : Semaphore) (w : Worker) : Nat :=
  (w.jobs.map fun job => 2 * k + 1 + job.yields).sum +
    match w.stage with
    | .idle => 0
    | .acquiring call job => 2 * k + job.yields + if s.Ripe call then 0 else 1
    | .holding _ yields _ => k + yields

/-- The jobs of a task ask for no more permits than there are, and the task asks for what its
job needs. -/
structure Worker.Fits (permits : Nat) (w : Worker) : Prop where
  jobs : ∀ job ∈ w.jobs, job.permits ≤ permits
  asks : ∀ call job, w.stage = .acquiring call job →
    call.toAcquire = job.permits ∧ job.permits ≤ permits
  holds : ∀ permit yields job, w.stage = .holding permit yields job →
    permit.permits = job.permits

/-- The permits that the job of a task needs and has. -/
def Worker.held (w : Worker) : Nat :=
  match w.stage with
  | .holding _ _ job => job.permits
  | _ => 0

namespace Session

variable {k : Nat}

/-- Calls and guards belong to tasks. -/
structure Sound [Target] (permits : Nat) (c : Session k) : Prop where
  kept : c.sys.Kept permits
  fresh : c.sys.fresh = []
  calls : Tasks.Divided c.sys.pending fun i => (c.workers i).call.toList
  guards : Tasks.Divided c.sys.live fun i => (c.workers i).guard.toList
  fits : ∀ i, (c.workers i).Fits permits

/-- A turn of a task exchanges its own call and guard. -/
structure Exchanges [Target] (permits : Nat) (c : Session k) (i : Fin k) (sys : Sys)
    (worker : Worker) : Prop where
  kept : sys.Kept permits
  fresh : sys.fresh = []
  calls : (sys.pending ++ (c.workers i).call.toList).Perm (c.sys.pending ++ worker.call.toList)
  guards : (sys.live ++ (c.workers i).guard.toList).Perm (c.sys.live ++ worker.guard.toList)
  fits : worker.Fits permits

/-- The weights of all tasks. -/
def potential (c : Session k) : Nat := ∑ i, (c.workers i).weight k c.sys.semaphore

section Keep

variable [Target] {permits : Nat} {c : Session k} {i : Fin k} {sys : Sys} {worker : Worker}

private theorem Exchanges.sound (h : Sound permits c) (e : Exchanges permits c i sys worker) :
    Sound permits (c.put i sys worker) := by
  refine ⟨e.kept, e.fresh, ?_, ?_, ?_⟩
  · exact h.calls.update (fun w : Worker => w.call.toList) e.calls
  · exact h.guards.update (fun w : Worker => w.guard.toList) e.guards
  · intro j
    show ((Function.update c.workers i worker) j).Fits permits
    by_cases hj : j = i
    · subst hj
      rw [Function.update_self]
      exact e.fits
    · rw [Function.update_of_ne hj]
      exact h.fits j

private theorem Sound.waits (h : Sound permits c) {call : Acquire}
    (hi : (c.workers i).call = some call) :
    call ∈ waiting c.sys.semaphore := by
  have hmem : call ∈ c.sys.pending := h.calls.mem_iff.mpr ⟨i, by simp [hi]⟩
  rwa [Sys.pending, h.fresh, List.nil_append] at hmem

private theorem Sound.awaited (h : Sound permits c) {call : Acquire}
    (hw : call ∈ waiting c.sys.semaphore) : ∃ j, (c.workers j).call = some call := by
  obtain ⟨j, hj⟩ := h.calls.mem_iff.mp (List.mem_append_right _ hw)
  exact ⟨j, by simpa using hj⟩

private theorem Sound.alive (h : Sound permits c) {permit : Permit}
    (hi : (c.workers i).guard = some permit) : permit ∈ c.sys.live :=
  h.guards.mem_iff.mpr ⟨i, by simp [hi]⟩

private theorem Sound.call_ne (h : Sound permits c) {j : Fin k} (hj : j ≠ i) {call other : Acquire}
    (hi : (c.workers i).call = some call) (ho : (c.workers j).call = some other) :
    other ≠ call :=
  h.calls.ne h.kept.numbered.distinct hj (by simp [hi]) (by simp [ho])

private theorem Sound.not_ripe (h : Sound permits c) {call : Acquire}
    (hq : c.sys.semaphore.Queued call) : ¬ c.sys.semaphore.Ripe call := by
  rintro ⟨p, hp, rfl, -⟩
  have hd := (List.nodup_append.mp h.kept.numbered.distinct).2.1
  exact (List.nodup_append.mp hd).2.2 p.1 (List.mem_map_of_mem hp) p.1 hq rfl

omit [Target] in
private theorem weight_of_call {w : Worker} {call : Acquire}
    (hw : w.call = some call) : ∃ n, ∀ t : Semaphore,
      w.weight k t = n + if t.Ripe call then 0 else 1 := by
  obtain ⟨stage, jobs⟩ := w
  cases stage with
  | acquiring c job =>
    cases hw
    exact ⟨_, fun t => (Nat.add_assoc _ _ _).symm⟩
  | _ => cases hw

omit [Target] in
private theorem weight_of_none {w : Worker} (hw : w.call = none) (s t : Semaphore) :
    w.weight k s = w.weight k t := by
  obtain ⟨stage, jobs⟩ := w
  cases stage with
  | acquiring c job => cases hw
  | _ => rfl

/-- Whatever a turn does, it puts at most one turn on another task, which pays for waking
it. -/
private theorem Sound.others_slack (h : Sound permits c) (j : Fin k) (t : Semaphore) {p : Prop}
    [Decidable p] (hp : p → c.Parked j) :
    (c.workers j).weight k t + (if p then 1 else 0) ≤
      (c.workers j).weight k c.sys.semaphore + 1 := by
  cases hcall : (c.workers j).call with
  | none =>
    rw [weight_of_none hcall t c.sys.semaphore]
    split <;> omega
  | some call =>
    obtain ⟨n, hn⟩ := weight_of_call (k := k) hcall
    rw [hn, hn]
    by_cases hw : p
    · obtain ⟨other, ho, hq⟩ := hp hw
      cases hcall.symm.trans ho
      rw [if_pos hw, if_neg (h.not_ripe hq)]
      split <;> omega
    · rw [if_neg hw]
      split <;> split <;> omega

/-- A turn that serves another task puts nothing on it. -/
theorem Sound.others_served (h : Sound permits c) {j : Fin k} {t : Semaphore} {p : Prop}
    [Decidable p] (hp : p → ∃ call ∈ (c.workers j).call, c.sys.semaphore.Queued call ∧
      ¬ t.Queued call)
    (hs : ∀ call ∈ (c.workers j).call, Serves c.sys.semaphore t call) :
    (c.workers j).weight k t + (if p then 1 else 0) ≤
      (c.workers j).weight k c.sys.semaphore := by
  cases hcall : (c.workers j).call with
  | none =>
    rw [if_neg, weight_of_none hcall t c.sys.semaphore]
    · exact Nat.le_refl _
    · intro hw
      obtain ⟨call, ho, -⟩ := hp hw
      cases hcall.symm.trans ho
  | some call =>
    obtain ⟨n, hn⟩ := weight_of_call (k := k) hcall
    obtain ⟨hqueued, hripe⟩ := hs call hcall
    rw [hn, hn]
    by_cases hw : p
    · obtain ⟨other, ho, hq, hno⟩ := hp hw
      cases hcall.symm.trans ho
      rw [if_pos hw, if_neg (h.not_ripe hq), if_pos ((hqueued hq).resolve_left hno)]
    · rw [if_neg hw]
      by_cases hr : c.sys.semaphore.Ripe call
      · rw [if_pos hr, if_pos (hripe hr)]
      · rw [if_neg hr]
        split <;> omega

omit [Target] in
private theorem put_of_ne {j : Fin k} (hj : j ≠ i) :
    (c.put i sys worker).workers j = c.workers j := Function.update_of_ne hj _ _

omit [Target] in
private theorem put_self : (c.put i sys worker).workers i = worker := Function.update_self _ _ _

/-- A turn advances when the task gives up what it puts on the others. -/
theorem leave_advances {again : Bool} (slack : Nat) (hf : (tasks k).finished c i = false)
    (hrests : again = false → (c.put i sys worker).Parked i)
    (hstays : c.Parked i → (c.put i sys worker).Parked i)
    (hself : worker.weight k sys.semaphore + (if again then 1 else 0) + slack * k ≤
      (c.workers i).weight k c.sys.semaphore + slack)
    (hothers : ∀ j, j ≠ i → (c.workers j).weight k sys.semaphore +
      (if c.Parked j ∧ ¬ (c.put i sys worker).Parked j then 1 else 0) ≤
        (c.workers j).weight k c.sys.semaphore + slack) :
    (tasks k).Advances Parked potential (fun _ => 1) c i (c.leave i again sys worker).1
      (c.leave i again sys worker).2 := by
  have hwoken : ∀ j,
      j ∈ (List.finRange k).filter (fun j => c.Parked j ∧ ¬ (c.put i sys worker).Parked j) ↔
        c.Parked j ∧ ¬ (c.put i sys worker).Parked j := by
    intro j
    simp
  refine Tasks.Advances.of_weights slack hf ?_ (fun ha _ => hrests ha) hstays
    ((List.nodup_finRange k).filter _) hwoken rfl rfl ?_ ?_
  · intro j hne hj
    simpa only [tasks, leave, put_of_ne hne] using hj
  · show ((c.put i sys worker).workers i).weight k sys.semaphore + _ + _ ≤ _
    rw [put_self, Fintype.card_fin]
    exact hself
  · intro j hj
    show ((c.put i sys worker).workers j).weight k sys.semaphore + _ ≤ _
    rw [put_of_ne hj, if_congr (hwoken j) rfl rfl]
    exact hothers j hj

end Keep

section Turns

variable [Target] {permits : Nat} {c : Session k} {i : Fin k}

/-- What a turn comes to. -/
def Goes (permits : Nat) (c : Session k) (i : Fin k)
    (r : Except Fault (Turn (Fin k) × Session k)) : Prop :=
  ∃ turn t, r = .ok (turn, t) ∧ Sound permits t ∧
    (tasks k).Advances Parked potential (fun _ => 1) c i turn t

private theorem Exchanges.goes {sys : Sys} {worker : Worker} (h : Sound permits c)
    (e : Exchanges permits c i sys worker) (hf : (tasks k).finished c i = false)
    (hcall : ¬ c.Parked i)
    (hself : worker.weight k sys.semaphore + 1 + k ≤
      (c.workers i).weight k c.sys.semaphore + 1) :
    Goes permits c i (.ok (c.leave i true sys worker)) := by
  refine ⟨_, _, rfl, e.sound h, leave_advances 1 hf ?_ ?_ ?_ ?_⟩
  · intro ha
    cases ha
  · intro hp
    exact absurd hp hcall
  · rw [if_pos rfl, Nat.one_mul]
    exact hself
  · intro j _
    exact h.others_slack j sys.semaphore fun hp => hp.1

private theorem Exchanges.sleeps {sys : Sys} {worker : Worker} (h : Sound permits c)
    (e : Exchanges permits c i sys worker) (hf : (tasks k).finished c i = false)
    {call : Acquire} (hcall : worker.call = some call) (hq : sys.semaphore.Queued call)
    (hs : ∀ j, j ≠ i → ∀ other ∈ (c.workers j).call, Serves c.sys.semaphore sys.semaphore other)
    (hself : worker.weight k sys.semaphore ≤ (c.workers i).weight k c.sys.semaphore) :
    Goes permits c i (.ok (c.leave i false sys worker)) := by
  have hparked : (c.put i sys worker).Parked i := ⟨call, by rw [put_self]; exact hcall, hq⟩
  refine ⟨_, _, rfl, e.sound h, leave_advances 0 hf ?_ ?_ ?_ ?_⟩
  · exact fun _ => hparked
  · exact fun _ => hparked
  · simpa using hself
  · intro j hj
    refine h.others_served ?_ (hs j hj)
    rintro ⟨⟨other, ho, hqueued⟩, hno⟩
    refine ⟨other, ho, hqueued, fun hq => hno ⟨other, ?_, hq⟩⟩
    rw [put_of_ne hj]
    exact ho

/-- The task awaits a call that it has just made, or made before. -/
structure Awaits (permits : Nat) (c : Session k) (i : Fin k) (sys : Sys) (call : Acquire)
    (job : Job) (jobs : List Job) : Prop where
  kept : sys.Kept permits
  there : sys.fresh = [] ∧ call ∈ waiting sys.semaphore ∨ sys.fresh = [call]
  semaphore : sys.semaphore = c.sys.semaphore
  live : sys.live = c.sys.live
  guard : (c.workers i).guard = none
  pending : (sys.pending ++ (c.workers i).call.toList).Perm (c.sys.pending ++ [call])
  mine : ∀ other ∈ (c.workers i).call, other = call
  others : ∀ j, j ≠ i → ∀ other ∈ (c.workers j).call, other ≠ call
  fits : Worker.Fits permits ⟨.acquiring call job, jobs⟩
  weight : Worker.weight k c.sys.semaphore ⟨.acquiring call job, jobs⟩ ≤
    (c.workers i).weight k c.sys.semaphore

/-- A call that is awaited is served, or the task sleeps. -/
theorem Awaits.await {sys : Sys} {call : Acquire} {job : Job} {jobs : List Job}
    (h : Sound permits c) (a : Awaits permits c i sys call job jobs)
    (hf : (tasks k).finished c i = false) : Goes permits c i (c.await i sys call job jobs) := by
  obtain ⟨out, t, hs, ht, hfresh, ⟨rfl, hlive, hparked, hp⟩ | ⟨rfl, hlive, hq, hp, hno, hserves⟩⟩ :=
    a.kept.poll a.there
  · have hgoes : c.await i sys call job jobs =
        .ok (c.leave i true t ⟨.holding ⟨call.toAcquire⟩ job.yields job, jobs⟩) := by
      rw [Session.await, hs]
      rfl
    rw [hgoes]
    refine Exchanges.goes h ⟨ht, hfresh, ?_, ?_, ⟨a.fits.jobs, ?_, ?_⟩⟩ hf ?_ ?_
    · have hcons := (hp.append_right (c.workers i).call.toList).trans a.pending
      have hend := hcons.trans (List.perm_append_singleton call c.sys.pending)
      simpa [Worker.call] using hend.cons_inv
    · rw [hlive, a.live, a.guard]
      simp [Worker.guard]
    · intro other job' he
      cases he
    · intro permit yields job' he
      cases he
      exact (a.fits.asks call job rfl).1
    · rintro ⟨other, ho, hqueued⟩
      cases a.mine other ho
      rw [← a.semaphore, Queued, ← hparked] at hqueued
      have hd := hp.nodup_iff.mpr a.kept.numbered.distinct
      exact (List.nodup_cons.mp hd).1 (List.mem_append_right _ (List.mem_append_right _ hqueued))
    · refine Nat.le_trans ?_ (Nat.add_le_add_right a.weight 1)
      simp only [Worker.weight]
      omega
  · have hgoes : c.await i sys call job jobs =
        .ok (c.leave i false t ⟨.acquiring call job, jobs⟩) := by
      rw [Session.await, hs]
      rfl
    rw [hgoes]
    refine Exchanges.sleeps h ⟨ht, hfresh, ?_, ?_, a.fits⟩ hf rfl hq ?_ ?_
    · exact (hp.append_right _).trans a.pending
    · rw [hlive, a.live, a.guard]
      simp [Worker.guard]
    · intro j hj other ho
      rw [← a.semaphore]
      exact hserves other (a.others j hj other ho)
    · refine Nat.le_trans ?_ a.weight
      rw [a.semaphore] at hno
      simp only [Worker.weight, if_neg hno]
      split <;> omega

/-- A task begins its next job. -/
theorem Sound.begin (h : Sound permits c) {job : Job} {jobs : List Job}
    (hw : c.workers i = ⟨.idle, job :: jobs⟩) (hf : (tasks k).finished c i = false) :
    Goes permits c i (c.turn i) := by
  obtain ⟨out, sys, hs, -, hk⟩ := h.kept.step (.create job.unfair job.permits) rfl
  cases hs
  have hturn : c.turn i = c.await i { c.sys with
      fresh := c.sys.fresh ++ [⟨c.sys.calls, job.unfair, job.permits⟩]
      calls := c.sys.calls + 1 } ⟨c.sys.calls, job.unfair, job.permits⟩ job jobs := by
    simp only [Session.turn, hw, Sys.step, ok_bind]
  have hfits := h.fits i
  rw [hw] at hfits
  rw [hturn]
  refine Awaits.await h ⟨hk, Or.inr ?_, rfl, rfl, ?_, ?_, ?_, ?_, ⟨?_, ?_, ?_⟩, ?_⟩ hf
  · simp [h.fresh]
  · rw [hw]
    rfl
  · rw [hw]
    show (c.sys.fresh ++ [_] ++ waiting c.sys.semaphore ++ []).Perm (c.sys.pending ++ [_])
    rw [Sys.pending, h.fresh, List.append_nil]
    exact (List.perm_append_singleton _ _).symm
  · intro other ho
    rw [hw] at ho
    cases ho
  · rintro j - other ho rfl
    have hmem : _ ∈ c.sys.pending := List.mem_append_right _ (h.waits ho)
    exact Nat.lt_irrefl _ (h.kept.numbered.bound _ hmem)
  · exact fun job' hj => hfits.jobs job' (List.mem_cons_of_mem _ hj)
  · intro call job' he
    cases he
    exact ⟨rfl, hfits.jobs job List.mem_cons_self⟩
  · intro permit yields job' he
    cases he
  · rw [hw]
    simp only [Worker.weight, List.map_cons, List.sum_cons]
    split <;> omega

/-- A task polls the call that it awaits. -/
theorem Sound.again (h : Sound permits c) {call : Acquire} {job : Job} {jobs : List Job}
    (hw : c.workers i = ⟨.acquiring call job, jobs⟩) (hf : (tasks k).finished c i = false) :
    Goes permits c i (c.turn i) := by
  have hturn : c.turn i = c.await i c.sys call job jobs := by simp only [Session.turn, hw]
  have hcall : (c.workers i).call = some call := by
    rw [hw]
    rfl
  rw [hturn]
  refine Awaits.await h ⟨h.kept, Or.inl ⟨h.fresh, h.waits hcall⟩, rfl, rfl, ?_, ?_, ?_, ?_, ?_, ?_⟩
    hf
  · rw [hw]
    rfl
  · rw [hcall]
    exact List.Perm.refl _
  · intro other ho
    rw [hcall] at ho
    cases ho
    rfl
  · intro j hj other ho
    exact h.call_ne hj hcall ho
  · exact hw ▸ h.fits i
  · rw [hw]

/-- A task yields with its guard. -/
theorem Sound.yield (h : Sound permits c) {permit : Permit} {yields : Nat} {job : Job}
    {jobs : List Job} (hw : c.workers i = ⟨.holding permit (yields + 1) job, jobs⟩)
    (hf : (tasks k).finished c i = false) : Goes permits c i (c.turn i) := by
  have hturn : c.turn i = .ok (c.leave i true c.sys ⟨.holding permit yields job, jobs⟩) := by
    simp only [Session.turn, hw]
  have hfits := h.fits i
  rw [hw] at hfits
  have e : Exchanges permits c i c.sys ⟨.holding permit yields job, jobs⟩ := by
    refine ⟨h.kept, h.fresh, ?_, ?_, ⟨hfits.jobs, ?_, ?_⟩⟩
    · rw [hw]
      exact List.Perm.refl _
    · rw [hw]
      exact List.Perm.refl _
    · intro call job' he
      cases he
    · intro permit' yields' job' he
      cases he
      exact hfits.holds _ _ _ rfl
  rw [hturn]
  refine ⟨_, _, rfl, e.sound h, leave_advances 0 hf ?_ ?_ ?_ ?_⟩
  · intro ha
    cases ha
  · rintro ⟨other, ho, -⟩
    rw [hw] at ho
    cases ho
  · rw [hw]
    simp only [Worker.weight, if_true]
    omega
  · intro j hj
    refine h.others_served ?_ fun other _ => ⟨Or.inl, id⟩
    rintro ⟨hparked, hno⟩
    refine absurd ?_ hno
    rw [Parked, put_of_ne hj]
    exact hparked

/-- A task gives its permits back. -/
theorem Sound.giveBack (h : Sound permits c) {permit : Permit} {job : Job} {jobs : List Job}
    (hw : c.workers i = ⟨.holding permit 0 job, jobs⟩)
    (hf : (tasks k).finished c i = false) : Goes permits c i (c.turn i) := by
  have hguard : (c.workers i).guard = some permit := by
    rw [hw]
    rfl
  have hl := h.alive hguard
  obtain ⟨out, sys, hs, hk, hfresh, hlive, hp⟩ := h.kept.release hl job.fairness
  have hturn : c.turn i = .ok (c.leave i true sys ⟨.idle, jobs⟩) := by
    simp only [Session.turn, hw, hs, ok_bind]
  have hfits := h.fits i
  rw [hw] at hfits
  rw [hturn]
  refine Exchanges.goes h ⟨hk, hfresh.trans h.fresh, ?_, ?_, ⟨hfits.jobs, ?_, ?_⟩⟩ hf ?_ ?_
  · rw [hp, hw]
    exact List.Perm.refl _
  · rw [hguard, hlive]
    show (c.sys.live.erase permit ++ [permit]).Perm (c.sys.live ++ [])
    rw [List.append_nil]
    exact (List.perm_append_singleton _ _).trans (List.perm_cons_erase hl).symm
  · intro call job' he
    cases he
  · intro permit' yields' job' he
    cases he
  · rintro ⟨other, ho, -⟩
    rw [hw] at ho
    cases ho
  · rw [hw]
    simp only [Worker.weight]
    omega

/-- A turn of a task that has not returned. -/
theorem Sound.turn (h : Sound permits c) (hf : (tasks k).finished c i = false) :
    Goes permits c i (c.turn i) := by
  cases hw : c.workers i with
  | mk stage jobs =>
    cases stage with
    | idle =>
      cases jobs with
      | nil => simp [tasks, hw] at hf
      | cons job jobs => exact h.begin hw hf
    | acquiring call job => exact h.again hw hf
    | holding permit yields job =>
      cases yields with
      | zero => exact h.giveBack hw hf
      | succ yields => exact h.yield hw hf

end Turns

section Runs

variable [Target] {permits : Nat} {c : Session k}

/-- Where no task is but in the queue or has returned, all permits are in the pool. -/
theorem Sound.rest (h : Sound permits c)
    (hp : ∀ i, (tasks k).finished c i = false → c.Parked i) :
    c.sys.semaphore.waiters.woken = [] ∧ c.sys.live = [] ∧ c.sys.semaphore.permits = permits := by
  have hwoken : c.sys.semaphore.waiters.woken = [] := by
    rw [List.eq_nil_iff_forall_not_mem]
    intro p hw
    obtain ⟨j, hj⟩ := h.awaited (List.mem_append_left _ (List.mem_map_of_mem hw))
    have hf : (tasks k).finished c j = false := by
      simp only [tasks, decide_eq_false_iff_not]
      intro hidle
      rw [hidle] at hj
      cases hj
    obtain ⟨other, ho, hq⟩ := hp j hf
    cases hj.symm.trans ho
    have hd := (List.nodup_append.mp h.kept.numbered.distinct).2.1
    exact (List.nodup_append.mp hd).2.2 p.1 (List.mem_map_of_mem hw) p.1 hq rfl
  have hlive : c.sys.live = [] := by
    rw [List.eq_nil_iff_forall_not_mem]
    intro permit hl
    obtain ⟨j, hj⟩ := h.guards.mem_iff.mp hl
    have hguard : (c.workers j).guard = some permit := by simpa using hj
    have hf : (tasks k).finished c j = false := by
      simp only [tasks, decide_eq_false_iff_not]
      intro hidle
      rw [hidle] at hguard
      cases hguard
    obtain ⟨other, ho, -⟩ := hp j hf
    obtain ⟨⟨stage, jobs⟩, hw⟩ : ∃ w, c.workers j = w := ⟨_, rfl⟩
    rw [hw] at ho hguard
    cases stage with
    | acquiring call job => cases hguard
    | _ => cases ho
  refine ⟨hwoken, hlive, ?_⟩
  have hc := h.kept.inv.conserved
  rw [hwoken, hlive, h.kept.forgotten, h.kept.total] at hc
  simpa [grants] using hc

/-- Tasks do not wait for each other in the queue for ever. -/
theorem Sound.awake (h : Sound permits c)
    (hp : ∀ i, (tasks k).finished c i = false → c.Parked i) (i : Fin k) :
    (tasks k).finished c i = true := by
  by_contra hf
  obtain ⟨hwoken, -, hpool⟩ := h.rest hp
  obtain ⟨call, -, hq⟩ := hp i (by simpa using hf)
  cases hparked : c.sys.semaphore.waiters.parked with
  | nil =>
    rw [Queued, hparked] at hq
    cases hq
  | cons head rest =>
    have hhead : head ∈ c.sys.semaphore.waiters.parked := by
      rw [hparked]
      exact List.mem_cons_self
    have hlt := h.kept.covered head (by rw [hparked, List.head?_cons])
    obtain ⟨j, hj⟩ := h.awaited (List.mem_append_right _ (List.mem_map_of_mem hhead))
    have hasked := h.kept.inv.asked head hhead
    have hfits := h.fits j
    obtain ⟨⟨stage, jobs⟩, hw⟩ : ∃ w, c.workers j = w := ⟨_, rfl⟩
    rw [hw] at hj hfits
    cases stage with
    | acquiring call' job =>
      cases hj
      obtain ⟨hasks, hjob⟩ := hfits.asks _ _ rfl
      simp only [wanted, hwoken, promised, Greedy.total_nil] at hlt
      omega
    | _ => cases hj

/-- The tasks cooperate. -/
theorem cooperates (k permits : Nat) :
    (tasks k).Cooperates (Sound permits) Parked potential fun _ => 1 :=
  ⟨fun _ _ h hf => h.turn hf, fun _ h hp => h.awake hp⟩

/-- The jobs under way have what they need, and no more than there is. -/
theorem Sound.held_le (h : Sound permits c) :
    c.sys.semaphore.permits + ∑ i, (c.workers i).held ≤ permits := by
  have hsum := congrArg (Multiset.sumAddMonoidHom.comp
    (Multiset.mapAddMonoidHom Permit.permits)) h.guards
  rw [map_sum] at hsum
  have hheld : ∀ i, (Multiset.sumAddMonoidHom.comp (Multiset.mapAddMonoidHom Permit.permits))
      ((c.workers i).guard.toList : Multiset Permit) = (c.workers i).held := by
    intro i
    have hfits := h.fits i
    obtain ⟨⟨stage, jobs⟩, hw⟩ : ∃ w, c.workers i = w := ⟨_, rfl⟩
    rw [hw] at hfits ⊢
    cases stage with
    | holding permit yields job => simp [Worker.guard, Worker.held, hfits.holds _ _ _ rfl]
    | _ => rfl
  rw [Finset.sum_congr rfl fun i _ => hheld i] at hsum
  have hlive : Greedy.total Permit.permits c.sys.live = ∑ i, (c.workers i).held := hsum
  have hc := h.kept.inv.conserved
  rw [h.kept.total] at hc
  omega

/-- Nothing belongs to a task that was just spawned. -/
theorem Sound.new (permits : Usize) {jobs : Fin k → List Job}
    (hfit : ∀ i, ∀ job ∈ jobs i, job.permits ≤ permits) : Sound permits (.new permits jobs) := by
  refine ⟨.new permits, rfl, ?_, ?_, fun i => ⟨hfit i, ?_, ?_⟩⟩
  · exact (Finset.sum_eq_zero fun i _ => rfl).symm
  · exact (Finset.sum_eq_zero fun i _ => rfl).symm
  · intro call job he
    cases he
  · intro permit yields job he
    cases he

/-- Tasks that share a semaphore, each with its jobs, none of which asks for more permits than
there are: however the executor schedules them, and whichever jobs are fair, no turn panics,
the jobs under way never hold more permits than there are, there is a bound on the number of
turns, and as long as not all tasks have returned one of them is scheduled. When they have,
all permits are back and nobody is waiting. -/
theorem all_jobs_get_done (permits : Usize) (jobs : Fin k → List Job)
    (hfit : ∀ i, ∀ job ∈ jobs i, job.permits ≤ permits) (schedule : List (Fin k))
    (hs : (tasks k).Schedule (.start (.new permits jobs)) schedule) :
    ∃ outs m, run (tasks k).poll (.start (.new permits jobs)) schedule = .ok (outs, m) ∧
      m.shared.sys.semaphore.permits + ∑ i, (m.shared.workers i).held ≤ permits ∧
      schedule.length ≤ ∑ i, ((jobs i).map fun job => 2 * k + 1 + job.yields).sum + k ∧
      ((∃ i, (tasks k).Ready m i) ∨
        (∀ i, (tasks k).finished m.shared i = true) ∧
          m.shared.sys.semaphore.availablePermits = permits ∧
          m.shared.sys.live = [] ∧ waiting m.shared.sys.semaphore = []) := by
  obtain ⟨outs, m, hrun, h, hlen, hend⟩ := (cooperates k permits).run
    (Tasks.Sound.start (Sound.new permits hfit)) hs
  have hrank : (tasks k).rank potential (fun _ => 1) (.start (.new permits jobs)) ≤
      ∑ i, ((jobs i).map fun job => 2 * k + 1 + job.yields).sum + k := by
    refine (Tasks.rank_start_le _).trans ?_
    simp [potential, Session.new, Worker.weight]
  refine ⟨outs, m, hrun, h.held_le, by omega, hend.imp_right fun hf => ⟨hf, ?_⟩⟩
  have hnone : ∀ i, (tasks k).finished m.shared i = false → m.shared.Parked i := by
    intro i hn
    cases (hf i).symm.trans hn
  obtain ⟨-, hlive, hpool⟩ := h.rest hnone
  refine ⟨hpool, hlive, ?_⟩
  rw [List.eq_nil_iff_forall_not_mem]
  intro call hw
  obtain ⟨j, hj⟩ := h.awaited hw
  have hidle : m.shared.workers j = ⟨.idle, []⟩ := by simpa [tasks] using hf j
  rw [hidle] at hj
  cases hj

end Runs

/-- One task holds both permits, yields and hands one of them to a task that is waiting. -/
theorem all_jobs_get_done_two_tasks :
    ∃ outs m, run (@tasks ⟨64, by decide⟩ 2).poll
        (.start (.new 2 ![[⟨false, 2, 1, .fair⟩], [⟨true, 1, 0, .unfair⟩]]))
        [0, 1, 0, 0, 1, 1] = .ok (outs, m) ∧
      m.shared.sys.semaphore.permits + ∑ i, (m.shared.workers i).held ≤ 2 ∧
      6 ≤ ∑ i : Fin 2, (((![[⟨false, 2, 1, .fair⟩], [⟨true, 1, 0, .unfair⟩]] :
        Fin 2 → List Job) i).map fun job => 2 * 2 + 1 + job.yields).sum + 2 ∧
      ((∃ i, (@tasks ⟨64, by decide⟩ 2).Ready m i) ∨
        (∀ i, (@tasks ⟨64, by decide⟩ 2).finished m.shared i = true) ∧
          m.shared.sys.semaphore.availablePermits = 2 ∧
          m.shared.sys.live = [] ∧ waiting m.shared.sys.semaphore = []) :=
  @all_jobs_get_done 2 ⟨64, by decide⟩ ⟨2, by decide⟩
    ![[⟨false, 2, 1, .fair⟩], [⟨true, 1, 0, .unfair⟩]] (by decide) [0, 1, 0, 0, 1, 1] (by decide)

end Session

end Semaphore
end Unsync
