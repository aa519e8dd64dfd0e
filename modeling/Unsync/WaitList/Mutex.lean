import Unsync.Lib.Executor
import Unsync.WaitList.Queue
import Mathlib.Algebra.BigOperators.Fin

/-!
# The mutex of the documentation

The mutex that the documentation of the wait list builds, `src/wait_list.rs:22–82`, and
tasks that lock it. A task reads the data when it has the guard, may yield, writes what it
made of the data and drops the guard. No future of `lock` is dropped before it is ready.
-/

namespace Unsync

open Runs Executor

/-- `Mutex`, `src/wait_list.rs:35–39`. -/
structure Mutex (K T : Type) where
  data : T
  locked : Bool
  waiters : WaitQueue K Unit Unit

namespace Mutex

variable {K T : Type}

/-- `Mutex::new`, `src/wait_list.rs:42–48`. -/
def new (data : T) : Mutex K T := ⟨data, false, .empty⟩

/-- A round of the loop of `Mutex::lock`, `src/wait_list.rs:50–53`. The flag says whether
the guard is made. -/
def lockRound (m : Mutex K T) (call : K) : Except Fault (Bool × Mutex K T) :=
  let old := m.locked
  let m := { m with locked := true }
  if old then do
    let waiters ← m.waiters.park call ()
    .ok (false, { m with waiters := waiters })
  else .ok (true, m)

/-- A poll of `Mutex::lock` that is suspended in `wait`, `src/wait_list.rs:50–53`. -/
def lockResume [DecidableEq K] (m : Mutex K T) (call : K) :
    Except Fault (Bool × Mutex K T) := do
  let (woken, waiters) ← m.waiters.poll call
  let m := { m with waiters := waiters }
  match woken with
  | none => .ok (false, m)
  | some _ => m.lockRound call

/-- Drop of a `MutexGuard`, `src/wait_list.rs:76–81`. -/
def unlock (m : Mutex K T) : Except Fault (Mutex K T) := do
  let m := { m with locked := false }
  let waiters ← m.waiters.borrow
  let (_, waiters) := waiters.wakeOne ()
  let waiters ← waiters.unborrow
  .ok { m with waiters := waiters }

/-- What a task does with the data, and how often it yields before it writes. -/
structure Job (T : Type) where
  yields : Nat
  change : T → T

/-- Where a task is. -/
inductive Stage (T : Type) where
  | idle
  /-- The task awaits `lock`. -/
  | locking (job : Job T)
  /-- The task has the guard and will yield that many times before it writes what it makes
  of the data that it read. -/
  | holding (yields : Nat) (read : T) (job : Job T)

/-- A task: where it is, and the jobs that it has not begun. -/
structure Worker (T : Type) where
  stage : Stage T
  jobs : List (Job T)

/-- The task has the guard. -/
def Worker.Holding (w : Worker T) : Prop := ∃ yields read job, w.stage = .holding yields read job

/-- The task awaits `lock`. -/
def Worker.Locking (w : Worker T) : Prop := ∃ job, w.stage = .locking job

/-- The jobs that are not done. -/
def Worker.left (w : Worker T) : List (Job T) :=
  match w.stage with
  | .idle => w.jobs
  | .locking job | .holding _ _ job => job :: w.jobs

/-- A mutex, the tasks that lock it, and a record of what was written. -/
structure Session (k : Nat) (T : Type) where
  mutex : Mutex (Fin k) T
  workers : Fin k → Worker T
  written : List (Fin k × (T → T))

namespace Session

variable {k : Nat}

/-- All tasks have been spawned. -/
def new (data : T) (jobs : Fin k → List (Job T)) : Session k T :=
  ⟨.new data, fun i => ⟨.idle, jobs i⟩, []⟩

/-- The future of the task is in the queue. -/
def Parked (c : Session k T) (i : Fin k) : Prop := i ∈ c.mutex.waiters.parked.map Prod.fst

instance (c : Session k T) (i : Fin k) : Decidable (c.Parked i) :=
  inferInstanceAs (Decidable (_ ∈ _))

/-- The mutex and the tasks after a turn. -/
def put (c : Session k T) (i : Fin k) (mutex : Mutex (Fin k) T) (worker : Worker T)
    (written : List (Fin k × (T → T))) : Session k T :=
  ⟨mutex, Function.update c.workers i worker, written⟩

/-- The end of a turn. Nobody gives up, so whoever left the queue was woken. -/
def leave (c : Session k T) (i : Fin k) (again : Bool) (mutex : Mutex (Fin k) T)
    (worker : Worker T) (written : List (Fin k × (T → T))) : Turn (Fin k) × Session k T :=
  let t := c.put i mutex worker written
  (⟨again, (List.finRange k).filter fun j => c.Parked j ∧ ¬ t.Parked j⟩, t)

/-- The task has the guard and reads the data, or it is suspended in `lock`. -/
def enter (c : Session k T) (i : Fin k) (job : Job T) (jobs : List (Job T)) :
    Bool × Mutex (Fin k) T → Turn (Fin k) × Session k T
  | (true, m) => c.leave i true m ⟨.holding job.yields m.data job, jobs⟩ c.written
  | (false, m) => c.leave i false m ⟨.locking job, jobs⟩ c.written

/-- A turn of a task. -/
def turn (c : Session k T) (i : Fin k) : Except Fault (Turn (Fin k) × Session k T) :=
  match c.workers i with
  | ⟨.idle, []⟩ => .ok (c.leave i false c.mutex ⟨.idle, []⟩ c.written)
  | ⟨.idle, job :: jobs⟩ => do
    let r ← c.mutex.lockRound i
    .ok (c.enter i job jobs r)
  | ⟨.locking job, jobs⟩ => do
    let r ← c.mutex.lockResume i
    .ok (c.enter i job jobs r)
  | ⟨.holding (yields + 1) read job, jobs⟩ =>
    .ok (c.leave i true c.mutex ⟨.holding yields read job, jobs⟩ c.written)
  | ⟨.holding 0 read job, jobs⟩ => do
    let m ← { c.mutex with data := job.change read }.unlock
    .ok (c.leave i true m ⟨.idle, jobs⟩ (c.written ++ [(i, job.change)]))

/-- Whether the task is through with its jobs. -/
def Finished (c : Session k T) (i : Fin k) : Bool :=
  match c.workers i with
  | ⟨.idle, []⟩ => true
  | _ => false

/-- The tasks. -/
def tasks (k : Nat) (T : Type) : Tasks Fault (Session k T) (Fin k) (Fin k) where
  task := id
  finished := Finished
  turn := turn

end Session

/-! ### What the methods compute -/

section Methods

variable {m : Mutex K T} {call : K}

/-- A lock that is free is taken. -/
theorem lockRound_free (hl : m.locked = false) :
    m.lockRound call = .ok (true, { m with locked := true }) := by
  simp [lockRound, hl]

/-- The future joins the queue of a lock that is taken. -/
theorem lockRound_taken (hi : m.waiters.borrowed = false) (hl : m.locked = true) :
    m.lockRound call = .ok (false, { m with
      waiters := { m.waiters with parked := m.waiters.parked ++ [(call, ())] } }) := by
  obtain ⟨data, locked, waiters⟩ := m
  cases hl
  simp [lockRound, WaitQueue.park_idle hi]

/-- The guard is dropped, and the head of the queue is woken. -/
theorem unlock_eq (hi : m.waiters.borrowed = false) :
    m.unlock = .ok { m with locked := false, waiters := (m.waiters.wakeOne ()).2 } := by
  obtain ⟨data, locked, borrowed, parked, woken⟩ := m
  cases hi
  cases parked <;> rfl

/-- Whoever is woken was in the queue. -/
theorem queue_wakeOne (q : WaitQueue K Unit Unit) :
    (q.wakeOne ()).2.woken.map Prod.fst ++ (q.wakeOne ()).2.parked.map Prod.fst =
      q.woken.map Prod.fst ++ q.parked.map Prod.fst := by
  obtain ⟨borrowed, parked, woken⟩ := q
  cases parked with
  | nil => rfl
  | cons p parked => simp [WaitQueue.wakeOne]

/-- Somebody is woken if there is a queue. -/
theorem woken_wakeOne (q : WaitQueue K Unit Unit) (h : (q.wakeOne ()).2.woken = []) :
    (q.wakeOne ()).2.parked = [] := by
  obtain ⟨borrowed, parked, woken⟩ := q
  cases parked with
  | nil => rfl
  | cons p parked => simp [WaitQueue.wakeOne] at h

/-- A wake-up does not borrow the queue. -/
theorem idle_wakeOne {q : WaitQueue K Unit Unit} (h : q.borrowed = false) :
    (q.wakeOne ()).2.borrowed = false := by
  obtain ⟨borrowed, parked, woken⟩ := q
  cases parked with
  | nil => exact h
  | cons p parked => exact h

variable [DecidableEq K]

/-- A future that was not woken stays as it is. -/
theorem lockResume_parked (hi : m.waiters.borrowed = false)
    (hw : m.waiters.woken.lookup call = none) : m.lockResume call = .ok (false, m) := by
  simp [lockResume, WaitQueue.poll_idle_none hi hw]

/-- A future that was woken tries again. -/
theorem lockResume_woken (hi : m.waiters.borrowed = false) {u : Unit}
    (hw : m.waiters.woken.lookup call = some u) :
    m.lockResume call = { m with waiters := { m.waiters with
      woken := eraseKey call m.waiters.woken } }.lockRound call := by
  simp [lockResume, WaitQueue.poll_idle_some hi hw]

end Methods

/-! ### What tasks keep -/

/-- The futures of `lock`, those that were woken before those that are parked. -/
def queue (m : Mutex K T) : List K :=
  m.waiters.woken.map Prod.fst ++ m.waiters.parked.map Prod.fst

/-- What was written by one task. -/
def writtenBy {k : Nat} (written : List (Fin k × (T → T))) (i : Fin k) : List (T → T) :=
  (written.filter fun p => p.1 = i).map Prod.snd

/-- The data after writes. -/
def replay {k : Nat} (data : T) (written : List (Fin k × (T → T))) : T :=
  written.foldl (fun data p => p.2 data) data

/-- The turns that the jobs of a task may take. -/
def Worker.weight (w : Worker T) : Nat :=
  (w.jobs.map fun job => job.yields + 3).sum +
    match w.stage with
    | .idle => 0
    | .locking job => job.yields + 3
    | .holding yields _ _ => yields + 2

namespace Session

variable {k : Nat}

/-- One task at a time has the guard, and reads what it will make something of. If somebody
waits for a lock that is free, somebody was woken. -/
structure Sound (data : T) (jobs : Fin k → List (Job T)) (c : Session k T) : Prop where
  idle : c.mutex.waiters.borrowed = false
  distinct : c.mutex.queue.Nodup
  queue : ∀ i, i ∈ c.mutex.queue ↔ (c.workers i).Locking
  locked : c.mutex.locked = true ↔ ∃ i, (c.workers i).Holding
  alone : ∀ i j, (c.workers i).Holding → (c.workers j).Holding → i = j
  read : ∀ i yields read job, (c.workers i).stage = .holding yields read job →
    read = c.mutex.data
  woken : c.mutex.locked = false → c.mutex.waiters.woken = [] → c.mutex.waiters.parked = []
  data : c.mutex.data = replay data c.written
  order : ∀ i, writtenBy c.written i ++ (c.workers i).left.map Job.change =
    (jobs i).map Job.change

/-- What a turn of a task may change. -/
structure Changes (data : T) (c : Session k T) (i : Fin k) (m : Mutex (Fin k) T)
    (worker : Worker T) (written : List (Fin k × (T → T))) : Prop where
  idle : m.waiters.borrowed = false
  distinct : m.queue.Nodup
  mine : i ∈ m.queue ↔ worker.Locking
  others : ∀ j, j ≠ i → (j ∈ m.queue ↔ j ∈ c.mutex.queue)
  locked : m.locked = true ↔ worker.Holding ∨ ∃ j, j ≠ i ∧ (c.workers j).Holding
  alone : worker.Holding ∨ m.data ≠ c.mutex.data → ∀ j, j ≠ i → ¬ (c.workers j).Holding
  read : ∀ yields read job, worker.stage = .holding yields read job → read = m.data
  woken : m.locked = false → m.waiters.woken = [] → m.waiters.parked = []
  data : m.data = replay data written
  order : writtenBy written i ++ worker.left.map Job.change =
    writtenBy c.written i ++ (c.workers i).left.map Job.change
  rest : ∀ j, j ≠ i → writtenBy written j = writtenBy c.written j

/-- The weights of all tasks. -/
def potential (c : Session k T) : Nat := ∑ i, (c.workers i).weight

section Keep

variable {data : T} {jobs : Fin k → List (Job T)} {c : Session k T} {i : Fin k}
  {m : Mutex (Fin k) T} {worker : Worker T} {written : List (Fin k × (T → T))}

private theorem put_of_ne {j : Fin k} (hj : j ≠ i) :
    (c.put i m worker written).workers j = c.workers j := Function.update_of_ne hj _ _

private theorem put_self :
    (c.put i m worker written).workers i = worker := Function.update_self _ _ _

/-- A turn keeps what tasks keep. -/
theorem Changes.sound (h : Sound data jobs c) (e : Changes data c i m worker written) :
    Sound data jobs (c.put i m worker written) := by
  refine ⟨e.idle, e.distinct, ?_, ?_, ?_, ?_, e.woken, e.data, ?_⟩
  · intro j
    by_cases hj : j = i
    · subst hj
      rw [put_self]
      exact e.mine
    · rw [put_of_ne hj, ← h.queue j]
      exact e.others j hj
  · refine e.locked.trans ⟨?_, ?_⟩
    · rintro (hw | ⟨j, hj, hh⟩)
      · exact ⟨i, by rwa [put_self]⟩
      · exact ⟨j, by rwa [put_of_ne hj]⟩
    · rintro ⟨j, hh⟩
      by_cases hj : j = i
      · subst hj
        rw [put_self] at hh
        exact Or.inl hh
      · rw [put_of_ne hj] at hh
        exact Or.inr ⟨j, hj, hh⟩
  · intro a b ha hb
    by_cases hai : a = i
    · by_cases hbi : b = i
      · rw [hai, hbi]
      · subst hai
        rw [put_self] at ha
        rw [put_of_ne hbi] at hb
        exact absurd hb (e.alone (Or.inl ha) b hbi)
    · rw [put_of_ne hai] at ha
      by_cases hbi : b = i
      · subst hbi
        rw [put_self] at hb
        exact absurd ha (e.alone (Or.inl hb) a hai)
      · rw [put_of_ne hbi] at hb
        exact h.alone a b ha hb
  · intro j yields read job hs
    by_cases hj : j = i
    · subst hj
      rw [put_self] at hs
      exact e.read yields read job hs
    · rw [put_of_ne hj] at hs
      by_cases hd : m.data = c.mutex.data
      · exact (h.read j yields read job hs).trans hd.symm
      · exact absurd ⟨yields, read, job, hs⟩ (e.alone (Or.inr hd) j hj)
  · intro j
    by_cases hj : j = i
    · subst hj
      rw [put_self]
      exact e.order.trans (h.order j)
    · rw [put_of_ne hj]
      show writtenBy written j ++ _ = _
      rw [e.rest j hj]
      exact h.order j

/-- A turn advances when the task pays for going on and for whom it wakes. -/
theorem leave_advances {again : Bool} (hf : (tasks k T).finished c i = false)
    (hrests : again = false → (c.put i m worker written).Parked i)
    (hpays : worker.weight + (if again then 1 else 0) +
      (c.leave i again m worker written).1.woken.length ≤ (c.workers i).weight) :
    (tasks k T).Advances Parked potential (fun _ => 1) c i (c.leave i again m worker written).1
      (c.leave i again m worker written).2 := by
  refine ⟨?_, fun ha _ => hrests ha, ?_, ?_⟩
  · intro j hj
    have hne : j ≠ i := by
      rintro rfl
      rw [hf] at hj
      cases hj
    simpa only [tasks, leave, Finished, put_of_ne hne] using hj
  · intro j _ hno hparked
    by_contra hn
    refine hno (List.mem_filter.mpr ⟨List.mem_finRange j, ?_⟩)
    simpa using ⟨hparked, hn⟩
  · have hsum := Tasks.sum_update_add (fun j => (c.workers j).weight) i worker.weight
    have hput : potential (c.leave i again m worker written).2 =
        ∑ j, Function.update (fun j => (c.workers j).weight) i worker.weight j := by
      refine Finset.sum_congr rfl fun j _ => ?_
      show ((c.put i m worker written).workers j).weight = _
      by_cases hj : j = i
      · subst hj
        rw [put_self, Function.update_self]
      · rw [put_of_ne hj, Function.update_of_ne hj]
    rw [List.map_const', List.sum_replicate, Nat.nsmul_eq_mul, Nat.mul_one, hput]
    have hagain : (c.leave i again m worker written).1.again = again := rfl
    rw [hagain]
    simp only [potential]
    omega

private theorem woken_nil {again : Bool}
    (h : ∀ j, c.Parked j → (c.put i m worker written).Parked j) :
    (c.leave i again m worker written).1.woken = [] := by
  rw [leave, List.filter_eq_nil_iff]
  intro j _
  simp only [decide_eq_true_eq, not_and, not_not]
  exact h j

private theorem woken_length_le {again : Bool} {leaving : List (Fin k)}
    (h : ∀ j, c.Parked j → ¬ (c.put i m worker written).Parked j → j ∈ leaving) :
    (c.leave i again m worker written).1.woken.length ≤ leaving.length := by
  have hnodup : (c.leave i again m worker written).1.woken.Nodup :=
    (List.nodup_finRange k).filter _
  refine (hnodup.subperm fun j hj => ?_).length_le
  have hj' := (List.mem_filter.mp hj).2
  simp only [decide_eq_true_eq] at hj'
  exact h j hj'.1 hj'.2

/-- What a turn comes to. -/
def Goes (data : T) (jobs : Fin k → List (Job T)) (c : Session k T) (i : Fin k)
    (r : Except Fault (Turn (Fin k) × Session k T)) : Prop :=
  ∃ turn t, r = .ok (turn, t) ∧ Sound data jobs t ∧
    (tasks k T).Advances Parked potential (fun _ => 1) c i turn t

/-- A task has a mutex before it and is not in the queue. -/
structure Enters (c : Session k T) (i : Fin k) (m : Mutex (Fin k) T) (job : Job T)
    (rest : List (Job T)) : Prop where
  idle : m.waiters.borrowed = false
  distinct : m.queue.Nodup
  out : i ∉ m.queue
  others : ∀ j, j ≠ i → (j ∈ m.queue ↔ j ∈ c.mutex.queue)
  parked : m.waiters.parked = c.mutex.waiters.parked
  locked : m.locked = c.mutex.locked
  data : m.data = c.mutex.data
  left : (c.workers i).left = job :: rest
  free : ¬ (c.workers i).Holding
  weight : (c.workers i).weight = (rest.map fun job => job.yields + 3).sum + (job.yields + 3)

/-- A task takes the lock or joins the queue. -/
theorem Enters.goes {job : Job T} {rest : List (Job T)} (e : Enters c i m job rest)
    (h : Sound data jobs c) (hf : (tasks k T).finished c i = false) :
    Goes data jobs c i (do let r ← m.lockRound i; .ok (c.enter i job rest r)) := by
  have hheld : ∀ j, (c.workers j).Holding → j ≠ i := by
    rintro j hj rfl
    exact e.free hj
  cases hl : m.locked with
  | false =>
    have hnone : ∀ j, ¬ (c.workers j).Holding := by
      intro j hj
      have htrue := h.locked.mpr ⟨j, hj⟩
      rw [← e.locked, hl] at htrue
      cases htrue
    have hparked : ∀ j, c.Parked j → (c.put i { m with locked := true }
        ⟨.holding job.yields m.data job, rest⟩ c.written).Parked j := by
      intro j hj
      show j ∈ m.waiters.parked.map Prod.fst
      rw [e.parked]
      exact hj
    have hchange : Changes data c i { m with locked := true }
        ⟨.holding job.yields m.data job, rest⟩ c.written := by
      refine ⟨e.idle, e.distinct, iff_of_false e.out ?_, e.others,
        iff_of_true rfl (Or.inl ⟨_, _, _, rfl⟩), fun _ j _ => hnone j, ?_, ?_,
        e.data.trans h.data, ?_, fun _ _ => rfl⟩
      · rintro ⟨job', hs⟩
        cases hs
      · intro yields read job' hs
        cases hs
        rfl
      · intro hfree
        cases hfree
      · rw [e.left]
        rfl
    have hpays : Worker.weight ⟨.holding job.yields m.data job, rest⟩ + (if true then 1 else 0) +
        (c.leave i true { m with locked := true } ⟨.holding job.yields m.data job, rest⟩
          c.written).1.woken.length ≤ (c.workers i).weight := by
      rw [woken_nil hparked, e.weight]
      simp only [Worker.weight, List.length_nil, if_true]
      omega
    refine ⟨_, _, ?_, hchange.sound h, leave_advances hf (fun ha => by cases ha) hpays⟩
    rw [lockRound_free hl]
    rfl
  | true =>
    have hqueue : ∀ j, j ∈ m.queue ++ [i] ↔ j ∈ m.queue ∨ j = i := by
      intro j
      rw [List.mem_append, List.mem_singleton]
    have happend : Mutex.queue { m with waiters := { m.waiters with
        parked := m.waiters.parked ++ [(i, ())] } } = m.queue ++ [i] := by
      simp [Mutex.queue]
    have hchange : Changes data c i { m with waiters := { m.waiters with
        parked := m.waiters.parked ++ [(i, ())] } } ⟨.locking job, rest⟩ c.written := by
      refine ⟨e.idle, ?_, ?_, ?_, iff_of_true hl ?_, ?_, ?_, ?_, e.data.trans h.data, ?_,
        fun _ _ => rfl⟩
      · rw [happend, List.nodup_append]
        refine ⟨e.distinct, List.nodup_singleton i, ?_⟩
        rintro a ha b hb rfl
        exact e.out (List.mem_singleton.mp hb ▸ ha)
      · rw [happend, hqueue]
        exact iff_of_true (Or.inr rfl) ⟨job, rfl⟩
      · intro j hj
        rw [happend, hqueue, e.others j hj]
        simp [hj]
      · rw [e.locked] at hl
        obtain ⟨j, hj⟩ := h.locked.mp hl
        exact Or.inr ⟨j, hheld j hj, hj⟩
      · rintro (⟨yields, read, job', hs⟩ | hd)
        · cases hs
        · exact absurd e.data hd
      · intro yields read job' hs
        cases hs
      · intro hfree
        cases hfree.symm.trans hl
      · rw [e.left]
        rfl
    have hparked : ∀ j, c.Parked j ∨ j = i → (c.put i { m with waiters := { m.waiters with
        parked := m.waiters.parked ++ [(i, ())] } } ⟨.locking job, rest⟩ c.written).Parked j := by
      intro j hj
      show j ∈ (m.waiters.parked ++ [(i, ())]).map Prod.fst
      rw [List.map_append, List.mem_append, e.parked]
      exact hj.imp_right fun he => by simp [he]
    have hpays : Worker.weight ⟨.locking job, rest⟩ + (if false then 1 else 0) +
        (c.leave i false { m with waiters := { m.waiters with
          parked := m.waiters.parked ++ [(i, ())] } } ⟨.locking job, rest⟩
          c.written).1.woken.length ≤ (c.workers i).weight := by
      rw [woken_nil fun j hj => hparked j (Or.inl hj), e.weight]
      exact Nat.le_refl _
    refine ⟨_, _, ?_, hchange.sound h, leave_advances hf (fun _ => hparked i (Or.inr rfl)) hpays⟩
    rw [lockRound_taken e.idle hl]
    rfl

private theorem Sound.stay (h : Sound data jobs c)
    (hl : worker.Locking ↔ (c.workers i).Locking) (hh : worker.Holding ↔ (c.workers i).Holding)
    (hread : ∀ yields read job, worker.stage = .holding yields read job → read = c.mutex.data)
    (hleft : worker.left = (c.workers i).left) :
    Changes data c i c.mutex worker c.written := by
  refine ⟨h.idle, h.distinct, (h.queue i).trans hl.symm, fun _ _ => Iff.rfl, ?_, ?_, hread,
    h.woken, h.data, by rw [hleft], fun _ _ => rfl⟩
  · rw [h.locked, hh]
    constructor
    · rintro ⟨j, hj⟩
      by_cases hji : j = i
      · exact Or.inl (hji ▸ hj)
      · exact Or.inr ⟨j, hji, hj⟩
    · rintro (hi | ⟨j, -, hj⟩)
      · exact ⟨i, hi⟩
      · exact ⟨j, hj⟩
  · rintro (hi | hd) j hj hheld
    · exact hj (h.alone j i hheld (hh.mp hi))
    · exact hd rfl

end Keep

section Turns

variable {data : T} {jobs : Fin k → List (Job T)} {c : Session k T} {i : Fin k}

private theorem Sound.begin (h : Sound data jobs c) {job : Job T} {rest : List (Job T)}
    (hw : c.workers i = ⟨.idle, job :: rest⟩) (hf : (tasks k T).finished c i = false) :
    Goes data jobs c i (c.turn i) := by
  have hturn : c.turn i = (do let r ← c.mutex.lockRound i; .ok (c.enter i job rest r)) := by
    simp only [Session.turn, hw]
  have hout : i ∉ c.mutex.queue := by
    rw [h.queue i, hw]
    rintro ⟨job', hs⟩
    cases hs
  have e : Enters c i c.mutex job rest := by
    refine ⟨h.idle, h.distinct, hout, fun _ _ => Iff.rfl, rfl, rfl, rfl, ?_, ?_, ?_⟩
    · rw [hw]
      rfl
    · rw [hw]
      rintro ⟨yields, read, job', hs⟩
      cases hs
    · rw [hw]
      simp only [Worker.weight, List.map_cons, List.sum_cons]
      omega
  rw [hturn]
  exact e.goes h hf

private theorem queue_collect {m : Mutex (Fin k) T} {u : Unit}
    (hl : m.waiters.woken.lookup i = some u) :
    m.queue.Perm (i :: Mutex.queue { m with waiters := { m.waiters with
      woken := eraseKey i m.waiters.woken } }) :=
  ((perm_eraseKey hl).map Prod.fst).append_right (m.waiters.parked.map Prod.fst)

/-- A task polls the future of `lock` that it awaits. -/
theorem Sound.again (h : Sound data jobs c) {job : Job T} {rest : List (Job T)}
    (hw : c.workers i = ⟨.locking job, rest⟩) (hf : (tasks k T).finished c i = false) :
    Goes data jobs c i (c.turn i) := by
  have hmem : i ∈ c.mutex.queue := (h.queue i).mpr ⟨job, by rw [hw]⟩
  have hturn : c.turn i = (do let r ← c.mutex.lockResume i; .ok (c.enter i job rest r)) := by
    simp only [Session.turn, hw]
  rw [hturn]
  cases hl : c.mutex.waiters.woken.lookup i with
  | none =>
    have hparked : c.Parked i :=
      (List.mem_append.mp hmem).resolve_left (lookup_none.mp hl)
    have hchange : Changes data c i c.mutex ⟨.locking job, rest⟩ c.written := by
      rw [← hw]
      exact h.stay Iff.rfl Iff.rfl (h.read i) rfl
    have hpays : Worker.weight ⟨.locking job, rest⟩ + (if false then 1 else 0) +
        (c.leave i false c.mutex ⟨.locking job, rest⟩ c.written).1.woken.length ≤
          (c.workers i).weight := by
      rw [woken_nil fun j hj => hj, hw]
      exact Nat.le_refl _
    refine ⟨_, _, ?_, hchange.sound h, leave_advances hf (fun _ => hparked) hpays⟩
    rw [lockResume_parked h.idle hl]
    rfl
  | some u =>
    have hperm := queue_collect hl
    obtain ⟨hout, hrest⟩ := List.nodup_cons.mp (hperm.nodup_iff.mp h.distinct)
    rw [lockResume_woken h.idle hl]
    refine Enters.goes ⟨h.idle, hrest, hout, ?_, rfl, rfl, rfl, ?_, ?_, ?_⟩ h hf
    · intro j hj
      rw [hperm.mem_iff, List.mem_cons]
      exact (or_iff_right hj).symm
    · rw [hw]
      rfl
    · rw [hw]
      rintro ⟨yields, read, job', hs⟩
      cases hs
    · rw [hw]
      rfl

/-- A task yields with the guard. -/
theorem Sound.yield (h : Sound data jobs c) {yields : Nat} {read : T} {job : Job T}
    {rest : List (Job T)} (hw : c.workers i = ⟨.holding (yields + 1) read job, rest⟩)
    (hf : (tasks k T).finished c i = false) : Goes data jobs c i (c.turn i) := by
  have hturn : c.turn i = .ok (c.leave i true c.mutex ⟨.holding yields read job, rest⟩
      c.written) := by
    simp only [Session.turn, hw]
  have hchange : Changes data c i c.mutex ⟨.holding yields read job, rest⟩ c.written := by
    refine h.stay (iff_of_false ?_ ?_) (iff_of_true ⟨_, _, _, rfl⟩ ⟨_, _, _, by rw [hw]⟩) ?_ ?_
    · rintro ⟨job', hs⟩
      cases hs
    · rw [hw]
      rintro ⟨job', hs⟩
      cases hs
    · intro yields' read' job' hs
      cases hs
      exact h.read i (yields + 1) read job (by rw [hw])
    · rw [hw]
      rfl
  have hpays : Worker.weight ⟨.holding yields read job, rest⟩ + (if true then 1 else 0) +
      (c.leave i true c.mutex ⟨.holding yields read job, rest⟩ c.written).1.woken.length ≤
        (c.workers i).weight := by
    rw [woken_nil fun j hj => hj, hw]
    simp only [Worker.weight, List.length_nil, if_true]
    omega
  rw [hturn]
  exact ⟨_, _, rfl, hchange.sound h, leave_advances hf (fun ha => by cases ha) hpays⟩

private theorem parked_wakeOne (q : WaitQueue (Fin k) Unit Unit) :
    ∃ head : List (Fin k), head.length ≤ 1 ∧
      q.parked.map Prod.fst = head ++ (q.wakeOne ()).2.parked.map Prod.fst := by
  obtain ⟨borrowed, parked, woken⟩ := q
  cases parked with
  | nil => exact ⟨[], Nat.zero_le 1, rfl⟩
  | cons p parked => exact ⟨[p.1], Nat.le_refl 1, rfl⟩

private theorem writtenBy_append (written : List (Fin k × (T → T))) (i j : Fin k) (change : T → T) :
    writtenBy (written ++ [(i, change)]) j =
      writtenBy written j ++ if i = j then [change] else [] := by
  simp only [writtenBy, List.filter_append, List.map_append]
  by_cases hij : i = j
  · simp [hij]
  · simp [hij]

private theorem replay_append (data : T) (written : List (Fin k × (T → T))) (i : Fin k)
    (change : T → T) :
    replay data (written ++ [(i, change)]) = change (replay data written) := by
  rw [replay, List.foldl_append]
  rfl

/-- A task writes what it made of the data and drops the guard. -/
theorem Sound.write (h : Sound data jobs c) {read : T} {job : Job T} {rest : List (Job T)}
    (hw : c.workers i = ⟨.holding 0 read job, rest⟩) (hf : (tasks k T).finished c i = false) :
    Goes data jobs c i (c.turn i) := by
  have hholds : (c.workers i).Holding := ⟨0, read, job, by rw [hw]⟩
  have hread : read = c.mutex.data := h.read i 0 read job (by rw [hw])
  have hidle := idle_wakeOne h.idle
  have hothers : ∀ j, j ≠ i → ¬ (c.workers j).Holding :=
    fun j hj hheld => hj (h.alone j i hheld hholds)
  have hturn : c.turn i = .ok (c.leave i true ⟨job.change read, false,
      (c.mutex.waiters.wakeOne ()).2⟩ ⟨.idle, rest⟩ (c.written ++ [(i, job.change)])) := by
    have hunlock := unlock_eq (m := { c.mutex with data := job.change read }) h.idle
    simp only [Session.turn, hw, hunlock, ok_bind]
  have hqueue : Mutex.queue ⟨job.change read, false, (c.mutex.waiters.wakeOne ()).2⟩ =
      c.mutex.queue := queue_wakeOne c.mutex.waiters
  have hchange : Changes data c i ⟨job.change read, false, (c.mutex.waiters.wakeOne ()).2⟩
      ⟨.idle, rest⟩ (c.written ++ [(i, job.change)]) := by
    refine ⟨hidle, hqueue ▸ h.distinct, ?_, fun j _ => by rw [hqueue], iff_of_false ?_ ?_,
      fun _ => hothers, ?_, fun _ => woken_wakeOne c.mutex.waiters, ?_, ?_, ?_⟩
    · rw [hqueue, h.queue i, hw]
      refine iff_of_false ?_ ?_
      · rintro ⟨job', hs⟩
        cases hs
      · rintro ⟨job', hs⟩
        cases hs
    · exact Bool.false_ne_true
    · rintro (⟨yields, read', job', hs⟩ | ⟨j, hj, hheld⟩)
      · cases hs
      · exact hothers j hj hheld
    · intro yields read' job' hs
      cases hs
    · rw [replay_append, ← h.data, ← hread]
    · rw [writtenBy_append, if_pos rfl, hw, List.append_assoc]
      rfl
    · intro j hj
      rw [writtenBy_append, if_neg hj.symm, List.append_nil]
  obtain ⟨head, hlen, hhead⟩ := parked_wakeOne c.mutex.waiters
  have hwoken : (c.leave i true ⟨job.change read, false, (c.mutex.waiters.wakeOne ()).2⟩
      ⟨.idle, rest⟩ (c.written ++ [(i, job.change)])).1.woken.length ≤ 1 := by
    refine Nat.le_trans (woken_length_le fun j hj hno => ?_) hlen
    rw [Parked, hhead, List.mem_append] at hj
    exact hj.resolve_right hno
  have hpays : Worker.weight ⟨.idle, rest⟩ + (if true then 1 else 0) +
      (c.leave i true ⟨job.change read, false, (c.mutex.waiters.wakeOne ()).2⟩ ⟨.idle, rest⟩
        (c.written ++ [(i, job.change)])).1.woken.length ≤ (c.workers i).weight := by
    rw [hw]
    simp only [Worker.weight, if_true]
    omega
  rw [hturn]
  exact ⟨_, _, rfl, hchange.sound h, leave_advances hf (fun ha => by cases ha) hpays⟩

/-- A turn of a task that is not through with its jobs. -/
theorem Sound.turn (h : Sound data jobs c) (hf : (tasks k T).finished c i = false) :
    Goes data jobs c i (c.turn i) := by
  cases hw : c.workers i with
  | mk stage rest =>
    cases stage with
    | idle =>
      cases rest with
      | nil => simp [tasks, Finished, hw] at hf
      | cons job rest => exact h.begin hw hf
    | locking job => exact h.again hw hf
    | holding yields read job =>
      cases yields with
      | zero => exact h.write hw hf
      | succ yields => exact h.yield hw hf

end Turns

section Runs

variable {data : T} {jobs : Fin k → List (Job T)} {c : Session k T}

/-- Tasks do not wait for a guard that nobody has. -/
theorem Sound.awake (h : Sound data jobs c)
    (hp : ∀ i, (tasks k T).finished c i = false → c.Parked i) (i : Fin k) :
    (tasks k T).finished c i = true := by
  have hbusy : ∀ j, (c.workers j).stage ≠ .idle → c.Parked j := by
    intro j hs
    refine hp j ?_
    simp only [tasks, Finished]
    split
    · next hw => exact absurd (by rw [hw]) hs
    · rfl
  have hdisjoint := (List.nodup_append.mp h.distinct).2.2
  have hfree : c.mutex.locked = false := by
    by_contra hl
    obtain ⟨j, yields, read, job, hs⟩ := h.locked.mp (by simpa using hl)
    have hparked := hbusy j (by rw [hs]; rintro ⟨⟩)
    obtain ⟨job', hs'⟩ := (h.queue j).mp (List.mem_append_right _ hparked)
    rw [hs] at hs'
    cases hs'
  have hwoken : c.mutex.waiters.woken = [] := by
    rw [List.eq_nil_iff_forall_not_mem]
    intro p hw
    have hmem : p.1 ∈ c.mutex.waiters.woken.map Prod.fst := List.mem_map_of_mem hw
    obtain ⟨job, hs⟩ := (h.queue p.1).mp (List.mem_append_left _ hmem)
    have hparked := hbusy p.1 (by rw [hs]; rintro ⟨⟩)
    exact hdisjoint p.1 hmem p.1 hparked rfl
  by_contra hf
  have hparked := hp i (by simpa using hf)
  rw [Parked, h.woken hfree hwoken] at hparked
  cases hparked

/-- The tasks cooperate. -/
theorem cooperates (data : T) (jobs : Fin k → List (Job T)) :
    (tasks k T).Cooperates (Sound data jobs) Parked potential fun _ => 1 :=
  ⟨fun _ _ h hf => h.turn hf, fun _ h hp => h.awake hp⟩

/-- Nobody has the guard when the tasks have just been spawned. -/
theorem Sound.new (data : T) (jobs : Fin k → List (Job T)) :
    Sound data jobs (.new data jobs) := by
  have hholding : ∀ i, ¬ ((Session.new data jobs).workers i).Holding := by
    rintro i ⟨yields, read, job, hs⟩
    cases hs
  refine ⟨rfl, List.nodup_nil, fun i => iff_of_false List.not_mem_nil ?_, iff_of_false ?_ ?_, ?_,
    ?_, fun _ _ => rfl, rfl, fun _ => rfl⟩
  · rintro ⟨job, hs⟩
    cases hs
  · exact Bool.false_ne_true
  · rintro ⟨i, hi⟩
    exact hholding i hi
  · intro i j hi
    exact absurd hi (hholding i)
  · intro i yields read job hs
    cases hs

/-- What a task has written is what its first jobs say, in their order. -/
theorem Sound.written_prefix (h : Sound data jobs c) (i : Fin k) :
    writtenBy c.written i <+: (jobs i).map Job.change :=
  ⟨_, h.order i⟩

/-- A task that is through has written what its jobs say. -/
theorem Sound.written_all (h : Sound data jobs c) {i : Fin k}
    (hf : (tasks k T).finished c i = true) : writtenBy c.written i = (jobs i).map Job.change := by
  have horder := h.order i
  simp only [tasks, Finished] at hf
  split at hf
  · next hw =>
    rw [hw] at horder
    simpa [Worker.left] using horder
  · cases hf

/-- Tasks that share a mutex, each with jobs that read the data, yield with the guard and write
what they make of the data they read: however the executor schedules them, no turn panics,
no two tasks have a guard at the same time, and the data is what one job after the other
makes of it, where the jobs of a task come in their order. There is a bound on the number of
turns, as long as not all tasks have returned one of them is scheduled, and when they have,
all jobs were done. -/
theorem updates_are_serialized (data : T) (jobs : Fin k → List (Job T)) (schedule : List (Fin k))
    (hs : (tasks k T).Schedule (.start (.new data jobs)) schedule) :
    ∃ outs m, run (tasks k T).poll (.start (.new data jobs)) schedule = .ok (outs, m) ∧
      (∀ i j, (m.shared.workers i).Holding → (m.shared.workers j).Holding → i = j) ∧
      m.shared.mutex.data = replay data m.shared.written ∧
      (∀ i, writtenBy m.shared.written i <+: (jobs i).map Job.change) ∧
      schedule.length ≤ ∑ i, ((jobs i).map fun job => job.yields + 3).sum + k ∧
      ((∃ i, (tasks k T).Ready m i) ∨
        (∀ i, (tasks k T).finished m.shared i = true) ∧
          ∀ i, writtenBy m.shared.written i = (jobs i).map Job.change) := by
  obtain ⟨outs, m, hrun, h, hlen, hend⟩ := (cooperates data jobs).run
    (Tasks.Sound.start (Sound.new data jobs)) hs
  have hrank : (tasks k T).rank potential (fun _ => 1) (.start (.new data jobs)) ≤
      ∑ i, ((jobs i).map fun job => job.yields + 3).sum + k := by
    refine (Tasks.rank_start_le _).trans ?_
    simp [potential, Session.new, Worker.weight]
  exact ⟨outs, m, hrun, h.alone, h.data, h.written_prefix, by omega,
    hend.imp_right fun hf => ⟨hf, fun i => h.written_all (hf i)⟩⟩

end Runs

/-- One task yields with the guard, another one waits for it. -/
theorem updates_are_serialized_two_tasks :
    ∃ outs m, run (tasks 2 Nat).poll
        (.start (.new 5 ![[⟨1, fun n => n + 1⟩], [⟨0, fun n => 2 * n⟩]]))
        [0, 1, 0, 0, 1, 1] = .ok (outs, m) ∧
      (∀ i j, (m.shared.workers i).Holding → (m.shared.workers j).Holding → i = j) ∧
      m.shared.mutex.data = replay 5 m.shared.written ∧
      (∀ i, writtenBy m.shared.written i <+:
        ((![[⟨1, fun n => n + 1⟩], [⟨0, fun n => 2 * n⟩]] : Fin 2 → List (Job Nat)) i).map
          Job.change) ∧
      6 ≤ ∑ i : Fin 2, (((![[⟨1, fun n => n + 1⟩], [⟨0, fun n => 2 * n⟩]] :
        Fin 2 → List (Job Nat)) i).map fun job => job.yields + 3).sum + 2 ∧
      ((∃ i, (tasks 2 Nat).Ready m i) ∨
        (∀ i, (tasks 2 Nat).finished m.shared i = true) ∧
          ∀ i, writtenBy m.shared.written i =
            ((![[⟨1, fun n => n + 1⟩], [⟨0, fun n => 2 * n⟩]] : Fin 2 → List (Job Nat)) i).map
              Job.change) :=
  updates_are_serialized 5 ![[⟨1, fun n => n + 1⟩], [⟨0, fun n => 2 * n⟩]]
    [0, 1, 0, 0, 1, 1] (by decide)

end Session

end Mutex
end Unsync
