import Unsync.WaitList.Mutex

/-!
# Lockers that give up

The mutex of the documentation, `src/wait_list.rs:22–82`, for callers that also drop futures
of `lock` before they are ready. The guard stays exclusive. A wake-up is lost with the future
that it was for: dropping the only woken future of a free lock strands those who are parked,
and nothing else does.
-/

namespace Unsync
namespace Mutex

open Runs

variable {T : Type}

/-- A mutex, the futures of `lock` that were not polled, the calls whose guards are alive, and
the number of calls. -/
structure Sys (T : Type) where
  mutex : Mutex Nat T
  fresh : List Nat
  guards : List Nat
  calls : Nat

/-- What callers can do. -/
inductive Op (T : Type) where
  | lock
  | poll (call : Nat)
  /-- Drop a future that is not ready. -/
  | cancel (call : Nat)
  /-- Read and write through the guard of a call. -/
  | write (call : Nat) (change : T → T)
  /-- Drop the guard of a call. -/
  | unlock (call : Nat)

/-- What an operation returns. -/
inductive Out (T : Type) where
  | ignored
  | created (call : Nat)
  | pending
  | locked
  | dropped
  | wrote (old : T)
  | unlocked

namespace Sys

/-- A mutex that nobody uses yet. -/
def new (data : T) : Sys T := ⟨.new data, [], [], 0⟩

/-- Whether the future is suspended in `wait`. -/
def waiting (s : Sys T) (call : Nat) : Prop :=
  call ∈ s.mutex.waiters.parked.map Prod.fst ∨ call ∈ s.mutex.waiters.woken.map Prod.fst

instance (s : Sys T) (call : Nat) : Decidable (s.waiting call) :=
  inferInstanceAs (Decidable (_ ∨ _))

/-- The future of a call is ready with the guard, or it is suspended. -/
def settle (s : Sys T) (call : Nat) : Bool × Mutex Nat T → Out T × Sys T
  | (true, m) => (.locked, { s with mutex := m, guards := s.guards ++ [call] })
  | (false, m) => (.pending, { s with mutex := m })

/-- Poll a future. -/
def poll (s : Sys T) (call : Nat) : Except Fault (Out T × Sys T) :=
  if call ∈ s.fresh then do
    let r ← s.mutex.lockRound call
    .ok ({ s with fresh := s.fresh.erase call }.settle call r)
  else if s.waiting call then do
    let r ← s.mutex.lockResume call
    .ok (s.settle call r)
  else .ok (.ignored, s)

/-- Drop a future. What a woken one was handed is lost. -/
def cancel (s : Sys T) (call : Nat) : Except Fault (Out T × Sys T) :=
  if call ∈ s.fresh then .ok (.dropped, { s with fresh := s.fresh.erase call })
  else if s.waiting call then do
    let (_, waiters) ← s.mutex.waiters.drop call
    .ok (.dropped, { s with mutex := { s.mutex with waiters := waiters } })
  else .ok (.ignored, s)

/-- One operation. -/
def step (s : Sys T) : Op T → Except Fault (Out T × Sys T)
  | .lock => .ok (.created s.calls, { s with fresh := s.fresh ++ [s.calls], calls := s.calls + 1 })
  | .poll call => s.poll call
  | .cancel call => s.cancel call
  | .write call change =>
    if call ∈ s.guards then
      .ok (.wrote s.mutex.data, { s with mutex := { s.mutex with data := change s.mutex.data } })
    else .ok (.ignored, s)
  | .unlock call =>
    if call ∈ s.guards then do
      let m ← s.mutex.unlock
      .ok (.unlocked, { s with mutex := m, guards := s.guards.erase call })
    else .ok (.ignored, s)

/-- The calls that are not over. -/
def alive (s : Sys T) : List Nat := s.fresh ++ s.mutex.queue ++ s.guards

/-- If somebody is parked while the lock is free, somebody was woken. -/
def Served (s : Sys T) : Prop :=
  s.mutex.locked = false → s.mutex.waiters.woken = [] → s.mutex.waiters.parked = []

/-- The operation drops the only woken future of a free lock that others are parked for. -/
def Strands (s : Sys T) : Op T → Prop
  | .cancel call => s.mutex.locked = false ∧ s.mutex.waiters.woken = [(call, ())] ∧
    s.mutex.waiters.parked ≠ []
  | _ => False

/-- The operation ends that somebody is stranded: a new call takes the lock, or the last one
that was parked gives up. -/
def Recovers (s : Sys T) : Op T → Prop
  | .poll call => call ∈ s.fresh
  | .cancel call => s.mutex.waiters.parked = [(call, ())]
  | _ => False

end Sys

/-- What callers keep. -/
structure Inv (s : Sys T) : Prop where
  idle : s.mutex.waiters.borrowed = false
  guards : s.guards.length = if s.mutex.locked then 1 else 0
  distinct : s.alive.Nodup
  numbered : ∀ c ∈ s.alive, c < s.calls

section Keep

variable {s t u : Sys T} {call : Nat}

private theorem alive_count (s : Sys T) (c : Nat) : s.alive.count c = s.fresh.count c +
    (s.mutex.waiters.woken.map Prod.fst).count c +
      (s.mutex.waiters.parked.map Prod.fst).count c + s.guards.count c := by
  simp only [Sys.alive, queue, List.count_append]
  omega

private theorem Inv.fewer (h : Inv s) (hi : t.mutex.waiters.borrowed = false)
    (hg : t.guards.length = if t.mutex.locked then 1 else 0) (hn : t.calls = s.calls)
    (hc : ∀ c, t.alive.count c ≤ s.alive.count c) : Inv t := by
  refine ⟨hi, hg, ?_, ?_⟩
  · exact List.nodup_iff_count_le_one.mpr fun c =>
      Nat.le_trans (hc c) (List.nodup_iff_count_le_one.mp h.distinct c)
  · intro c hm
    rw [hn]
    exact h.numbered c (List.count_pos_iff.mp
      (Nat.lt_of_lt_of_le (List.count_pos_iff.mpr hm) (hc c)))

/-- A round of the loop for a call in the state `u` leads to the state `t`. The lock is taken
then, by the call or by somebody else. -/
structure Enters (u : Sys T) (call : Nat) (t : Sys T) : Prop where
  idle : t.mutex.waiters.borrowed = false
  guards : t.guards.length = if t.mutex.locked then 1 else 0
  calls : t.calls = u.calls
  count : ∀ c, t.alive.count c = u.alive.count c + [call].count c
  locked : t.mutex.locked = true

private theorem enters (hi : u.mutex.waiters.borrowed = false)
    (hg : u.guards.length = if u.mutex.locked then 1 else 0) (call : Nat) :
    ∃ r out t, u.mutex.lockRound call = .ok r ∧ u.settle call r = (out, t) ∧
      Enters u call t := by
  cases hl : u.mutex.locked with
  | false =>
    rw [hl] at hg
    refine ⟨_, _, _, lockRound_free hl, rfl, hi, ?_, rfl, fun c => ?_, rfl⟩
    · simpa using hg
    · rw [alive_count, alive_count]
      simp only [List.count_append]
      omega
  | true =>
    rw [hl] at hg
    refine ⟨_, _, _, lockRound_taken hi hl, rfl, hi, ?_, rfl, fun c => ?_, hl⟩
    · simpa [hl] using hg
    · rw [alive_count, alive_count]
      simp only [List.map_append, List.map_cons, List.map_nil, List.count_append]
      omega

private theorem Inv.entered (h : Inv s) (e : Enters u call t) (hn : u.calls = s.calls)
    (hc : ∀ c, s.alive.count c = u.alive.count c + [call].count c) : Inv t :=
  h.fewer e.idle e.guards (e.calls.trans hn) fun c => Nat.le_of_eq ((e.count c).trans (hc c).symm)

/-- What a step comes to: callers keep what they keep, and the step strands somebody, or ends
that somebody is stranded, as predicted. -/
structure Comes (s : Sys T) (op : Op T) (t : Sys T) : Prop where
  inv : Inv t
  strands : s.Served → (t.Served ↔ ¬ s.Strands op)
  recovers : ¬ s.Served → (t.Served ↔ s.Recovers op)

private theorem not_served : ¬ s.Served ↔ s.mutex.locked = false ∧ s.mutex.waiters.woken = [] ∧
    s.mutex.waiters.parked ≠ [] := by
  simp only [Sys.Served, Classical.not_imp, ne_eq]

private theorem Inv.one_place (h : Inv s) (c : Nat) : s.fresh.count c +
    (s.mutex.waiters.woken.map Prod.fst).count c +
      (s.mutex.waiters.parked.map Prod.fst).count c + s.guards.count c ≤ 1 := by
  rw [← alive_count]
  exact List.nodup_iff_count_le_one.mp h.distinct c

/-- The step leaves the lock and the queue as they are. -/
theorem Inv.stays {op : Op T} (ht : Inv t) (hs : ¬ s.Strands op) (hr : ¬ s.Recovers op)
    (hm : t.mutex.locked = s.mutex.locked) (hw : t.mutex.waiters = s.mutex.waiters) :
    Comes s op t := by
  have hsame : t.Served ↔ s.Served := by rw [Sys.Served, Sys.Served, hm, hw]
  exact ⟨ht, fun h => iff_of_true (hsame.mpr h) hs, fun h => iff_of_false (mt hsame.mp h) hr⟩

private theorem Inv.serves {op : Op T} (ht : Inv t) (hserved : t.Served) (hs : ¬ s.Strands op)
    (hr : ¬ s.Served → s.Recovers op) : Comes s op t :=
  ⟨ht, fun _ => iff_of_true hserved hs, fun h => iff_of_true hserved (hr h)⟩

private theorem eraseKey_eq_nil {xs : List (Nat × Unit)} {u : Unit}
    (h : xs.lookup call = some u) : eraseKey call xs = [] ↔ xs = [(call, ())] := by
  have hp := perm_eraseKey h
  constructor
  · intro hn
    rw [hn] at hp
    exact List.perm_singleton.mp hp
  · rintro rfl
    exact eraseKey_head call () []

/-- A poll of a future. -/
theorem Inv.poll (h : Inv s) (call : Nat) :
    ∃ out t, s.poll call = .ok (out, t) ∧ Comes s (.poll call) t := by
  by_cases hf : call ∈ s.fresh
  · obtain ⟨r, out, t, hr, ht, he⟩ :=
      enters (u := { s with fresh := s.fresh.erase call }) h.idle h.guards call
    refine ⟨out, t, ?_, ?_⟩
    · simp only [Sys.poll, hf, if_true, hr, ok_bind, ht]
    · refine (h.entered he rfl fun c => ?_).serves (fun hl => ?_) not_false fun _ => hf
      · rw [alive_count, alive_count, count_of_mem hf c]
        dsimp only
        omega
      · rw [he.locked] at hl
        cases hl
  · by_cases hwait : s.waiting call
    · cases hw : s.mutex.waiters.woken.lookup call with
      | none =>
        refine ⟨.pending, s, ?_, h.stays not_false hf rfl rfl⟩
        simp only [Sys.poll, hf, hwait, if_false, if_true, lockResume_parked h.idle hw, ok_bind,
          Sys.settle]
      | some w =>
        obtain ⟨r, out, t, hr, ht, he⟩ := enters (u := { s with
          mutex := { s.mutex with waiters := { s.mutex.waiters with
            woken := eraseKey call s.mutex.waiters.woken } } }) h.idle h.guards call
        refine ⟨out, t, ?_, ?_⟩
        · simp only [Sys.poll, hf, hwait, if_false, if_true, lockResume_woken h.idle hw, hr,
            ok_bind]
          exact congrArg Except.ok ht
        · refine (h.entered he rfl fun c => ?_).serves (fun hl => ?_) not_false fun hn => ?_
          · rw [alive_count, alive_count, count_eraseKey hw c]
            dsimp only
            omega
          · rw [he.locked] at hl
            cases hl
          · rw [(not_served.mp hn).2.1] at hw
            cases hw
    · refine ⟨.ignored, s, ?_, h.stays not_false hf rfl rfl⟩
      simp only [Sys.poll, hf, hwait, if_false]

private theorem Inv.cancel_fresh (h : Inv s) (hf : call ∈ s.fresh) :
    Comes s (.cancel call) { s with fresh := s.fresh.erase call } := by
  have hplace := h.one_place call
  have hfresh := List.count_pos_iff.mpr hf
  have ht : Inv { s with fresh := s.fresh.erase call } := by
    refine h.fewer h.idle h.guards rfl fun c => ?_
    rw [alive_count, alive_count, count_of_mem hf c]
    dsimp only
    omega
  refine ht.stays ?_ ?_ rfl rfl
  · rintro ⟨-, hw, -⟩
    rw [hw, List.map_singleton, List.count_singleton_self] at hplace
    omega
  · intro hp
    rw [Sys.Recovers] at hp
    rw [hp, List.map_singleton, List.count_singleton_self] at hplace
    omega

private theorem Inv.cancel_parked (h : Inv s) {w : Unit}
    (hp : s.mutex.waiters.parked.lookup call = some w) :
    Comes s (.cancel call) { s with mutex := { s.mutex with waiters := { s.mutex.waiters with
      parked := eraseKey call s.mutex.waiters.parked } } } := by
  have hplace := h.one_place call
  have hparked : 0 < (s.mutex.waiters.parked.map Prod.fst).count call :=
    List.count_pos_iff.mpr (List.mem_map.mpr ⟨_, mem_of_lookup hp, rfl⟩)
  refine ⟨?_, fun hserved => ?_, fun hn => ?_⟩
  · refine h.fewer h.idle h.guards rfl fun c => ?_
    rw [alive_count, alive_count, count_eraseKey hp c]
    dsimp only
    omega
  · refine iff_of_true (fun hl hw => ?_) ?_
    · rw [hserved hl hw] at hp
      cases hp
    · rintro ⟨-, hw, -⟩
      rw [hw, List.map_singleton, List.count_singleton_self] at hplace
      omega
  · obtain ⟨hl, hw, -⟩ := not_served.mp hn
    rw [Sys.Recovers, ← eraseKey_eq_nil hp]
    exact ⟨fun ht => ht hl hw, fun he _ _ => he⟩

private theorem Inv.cancel_woken (h : Inv s) {w : Unit}
    (hw : s.mutex.waiters.woken.lookup call = some w) :
    Comes s (.cancel call) { s with mutex := { s.mutex with waiters := { s.mutex.waiters with
      woken := eraseKey call s.mutex.waiters.woken } } } := by
  refine ⟨?_, fun _ => ?_, fun hn => ?_⟩
  · refine h.fewer h.idle h.guards rfl fun c => ?_
    rw [alive_count, alive_count, count_eraseKey hw c]
    dsimp only
    omega
  · rw [Sys.Strands, ← eraseKey_eq_nil hw]
    exact (not_iff_comm.mp not_served).symm
  · rw [(not_served.mp hn).2.1] at hw
    cases hw

/-- A future is dropped. -/
theorem Inv.cancel (h : Inv s) (call : Nat) :
    ∃ out t, s.cancel call = .ok (out, t) ∧ Comes s (.cancel call) t := by
  by_cases hf : call ∈ s.fresh
  · refine ⟨.dropped, _, ?_, h.cancel_fresh hf⟩
    simp only [Sys.cancel, hf, if_true]
  · by_cases hwait : s.waiting call
    · cases hp : s.mutex.waiters.parked.lookup call with
      | some w =>
        refine ⟨.dropped, _, ?_, h.cancel_parked hp⟩
        simp only [Sys.cancel, hf, hwait, if_false, if_true,
          WaitQueue.drop_idle_parked h.idle hp, ok_bind]
      | none =>
        cases hw : s.mutex.waiters.woken.lookup call with
        | none => exact absurd hwait (by simp [Sys.waiting, lookup_none.mp hp, lookup_none.mp hw])
        | some w =>
          refine ⟨.dropped, _, ?_, h.cancel_woken hw⟩
          simp only [Sys.cancel, hf, hwait, if_false, if_true,
            WaitQueue.drop_idle_woken h.idle hp hw, ok_bind]
    · simp only [Sys.waiting, not_or] at hwait
      refine ⟨.ignored, s, ?_, h.stays ?_ ?_ rfl rfl⟩
      · simp only [Sys.cancel, Sys.waiting, hf, hwait, or_self, if_false]
      · rintro ⟨-, hw, -⟩
        simp [hw] at hwait
      · intro hp
        rw [Sys.Recovers] at hp
        simp [hp] at hwait

/-- The guard is dropped, and somebody is woken if there is a queue. -/
theorem Inv.unlock (h : Inv s) (hg : call ∈ s.guards) :
    ∃ m, s.mutex.unlock = .ok m ∧
      Comes s (.unlock call) { s with mutex := m, guards := s.guards.erase call } := by
  have hlen := h.guards
  have hpos := List.length_pos_of_mem hg
  have hlocked : s.mutex.locked = true := by
    by_contra hl
    rw [if_neg hl] at hlen
    omega
  rw [if_pos hlocked] at hlen
  refine ⟨_, unlock_eq h.idle, ?_⟩
  have ht : Inv { s with
      mutex := { s.mutex with locked := false, waiters := (s.mutex.waiters.wakeOne ()).2 }
      guards := s.guards.erase call } := by
    refine h.fewer (idle_wakeOne h.idle) ?_ rfl fun c => ?_
    · rw [List.length_erase_of_mem hg, hlen]
      rfl
    · have hq := congrArg (List.count c) (queue_wakeOne s.mutex.waiters)
      rw [List.count_append, List.count_append] at hq
      rw [alive_count, alive_count, count_of_mem hg c]
      dsimp only
      omega
  refine ht.serves (fun _ => woken_wakeOne s.mutex.waiters) not_false fun hn => ?_
  rw [(not_served.mp hn).1] at hlocked
  cases hlocked

/-- Every step succeeds and keeps what callers keep. -/
theorem Inv.step (h : Inv s) (op : Op T) :
    ∃ out t, s.step op = .ok (out, t) ∧ Comes s op t := by
  cases op with
  | lock =>
    refine ⟨_, _, rfl, Inv.stays ?_ not_false not_false rfl rfl⟩
    have hp : (Sys.alive { s with fresh := s.fresh ++ [s.calls], calls := s.calls + 1 }).Perm
        (s.calls :: s.alive) := by
      rw [List.perm_iff_count]
      intro c
      show _ = ([s.calls] ++ s.alive).count c
      rw [List.count_append, alive_count, alive_count]
      simp only [List.count_append]
      omega
    refine ⟨h.idle, h.guards, ?_, fun c hc => ?_⟩
    · refine hp.nodup_iff.mpr (List.nodup_cons.mpr ⟨fun hm => ?_, h.distinct⟩)
      exact Nat.lt_irrefl _ (h.numbered _ hm)
    · rcases List.mem_cons.mp (hp.mem_iff.mp hc) with rfl | hc
      · exact Nat.lt_succ_self _
      · exact Nat.lt_succ_of_lt (h.numbered c hc)
  | poll call => exact h.poll call
  | cancel call => exact h.cancel call
  | write call change =>
    by_cases hg : call ∈ s.guards
    · have ht : Inv { s with mutex := { s.mutex with data := change s.mutex.data } } :=
        ⟨h.idle, h.guards, h.distinct, h.numbered⟩
      exact ⟨.wrote s.mutex.data, _, by simp only [Sys.step, hg, if_true],
        ht.stays not_false not_false rfl rfl⟩
    · exact ⟨.ignored, s, by simp only [Sys.step, hg, if_false],
        h.stays not_false not_false rfl rfl⟩
  | unlock call =>
    by_cases hg : call ∈ s.guards
    · obtain ⟨m, hm, hc⟩ := h.unlock hg
      exact ⟨.unlocked, _, by simp only [Sys.step, hg, if_true, hm, ok_bind], hc⟩
    · exact ⟨.ignored, s, by simp only [Sys.step, hg, if_false],
        h.stays not_false not_false rfl rfl⟩

/-- A new mutex. -/
theorem Inv.new (data : T) : Inv (Sys.new data) :=
  ⟨rfl, rfl, List.nodup_nil, fun _ hc => (List.not_mem_nil hc).elim⟩

/-- A stranded future is suspended for good: polls of it do nothing. -/
theorem Inv.stranded (h : Inv s) (hn : ¬ s.Served) (hwait : s.waiting call) :
    s.poll call = .ok (.pending, s) := by
  obtain ⟨-, hw, -⟩ := not_served.mp hn
  have hplace := h.one_place call
  have hp : call ∈ s.mutex.waiters.parked.map Prod.fst := by
    refine hwait.resolve_right fun hm => ?_
    rw [hw] at hm
    cases hm
  have hf : call ∉ s.fresh := by
    intro hf
    have hfresh := List.count_pos_iff.mpr hf
    have hparked := List.count_pos_iff.mpr hp
    omega
  have hnone : s.mutex.waiters.woken.lookup call = none := by rw [hw]; rfl
  simp only [Sys.poll, hf, hwait, if_false, if_true, lockResume_parked h.idle hnone, ok_bind,
    Sys.settle]

end Keep

/-- In every run of callers that lock, give up, write and unlock in any order, nothing faults
and at most one guard is alive. As long as no step drops the only woken future of a free lock
that others are parked for, somebody was woken whenever somebody is parked and the lock is
free. Such a step always strands them, whatever polls them, until a new call takes the lock
or the last of them gives up. -/
theorem lockers_strand_by_giving_up (data : T) (ops : List (Op T)) :
    ∃ outs s, run Sys.step (Sys.new data) ops = .ok (outs, s) ∧
      (s.guards.length = if s.mutex.locked then 1 else 0) ∧
      (Along Sys.step (fun s op => ¬ s.Strands op) (Sys.new data) ops → s.Served) ∧
      (∀ op, ∃ out t, s.step op = .ok (out, t) ∧
        (s.Served → (t.Served ↔ ¬ s.Strands op)) ∧
        (¬ s.Served → (t.Served ↔ s.Recovers op))) ∧
      (¬ s.Served → ∀ call, s.waiting call → s.poll call = .ok (.pending, s)) := by
  obtain ⟨outs, s, hr, h⟩ : ∃ outs s, run Sys.step (Sys.new data) ops = .ok (outs, s) ∧ Inv s := by
    refine run_invariant (fun s op h => ?_) (Inv.new data) ops
    obtain ⟨out, t, hs, hc⟩ := h.step op
    exact ⟨out, t, hs, hc.inv⟩
  refine ⟨outs, s, hr, h.guards, fun ha => ?_, fun op => ?_, fun hn call => h.stranded hn⟩
  · have hstep (s : Sys T) (op : Op T) (hI : Inv s ∧ s.Served) (hG : ¬ s.Strands op) :
        ∃ out t, s.step op = .ok (out, t) ∧ Inv t ∧ t.Served := by
      obtain ⟨out, t, hs, hc⟩ := hI.1.step op
      exact ⟨out, t, hs, hc.inv, (hc.strands hI.2).mpr hG⟩
    obtain ⟨outs', s', hr', -, hserved⟩ :=
      run_guarded hstep ⟨Inv.new data, fun _ _ => rfl⟩ ha
    cases (Except.ok.inj (hr.symm.trans hr'))
    exact hserved
  · obtain ⟨out, t, hs, hc⟩ := h.step op
    exact ⟨out, t, hs, hc.strands, hc.recovers⟩

end Mutex
end Unsync
