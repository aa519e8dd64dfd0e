import Unsync.OnceCell.Runs

/-!
# One owner, one value

The guarantees of the cell in every state that its callers can reach: who owns the job of
initializing it and where the job goes, and which value all callers agree on.
-/

namespace Unsync
namespace OnceCell

open Runs

variable {V E : Type} {s : Sys V E}

/-- In every reachable state nobody owns the job of an empty cell, exactly one caller owns
that of a cell being initialized, and nobody is parked or running once it holds a value. An
owner that gives up passes the job to the longest parked caller, or else empties the cell. -/
theorem job_has_one_owner (ops : List (Op V E)) :
    ∃ outs s, run Sys.step (Sys.new : Sys V E) ops = .ok (outs, s) ∧
      (s.cell.state = .uninit →
        s.cell.waiters.parked = [] ∧ s.cell.waiters.woken = [] ∧ s.running = []) ∧
      (s.cell.state = .initializing →
        (∃ call, s.running = [call] ∧ s.cell.waiters.woken = []) ∨
        ∃ call, s.running = [] ∧ s.cell.waiters.woken = [(call, .baton)]) ∧
      (∀ v, s.cell.state = .initialized v → s.cell.waiters.parked = [] ∧ s.running = []) ∧
      ∀ op, ∃ out t, s.step op = .ok (out, t) ∧
        (GivesUp s op out → Passed s.cell.waiters.parked t) := by
  obtain ⟨outs, s, hr, h⟩ := run_inv ops
  have hj := h.job
  refine ⟨outs, s, hr, fun hs => ?_, fun hs => ?_, fun v hs => ?_, fun op => ?_⟩
  · rwa [Job, hs] at hj
  · rw [Job, hs, List.length_append, List.length_map] at hj
    cases hrun : s.running with
    | nil =>
      rw [hrun, List.length_nil, Nat.zero_add] at hj
      obtain ⟨⟨call, b⟩, hw⟩ := List.length_eq_one_iff.mp hj
      exact .inr ⟨call, rfl, hw⟩
    | cons call rest =>
      rw [hrun, List.length_cons] at hj
      have hrest : rest = [] := List.eq_nil_of_length_eq_zero (by omega)
      exact .inl ⟨call, by rw [hrest], List.eq_nil_of_length_eq_zero (by omega)⟩
  · rwa [Job, hs] at hj
  · obtain ⟨out, t, hs, -, hp⟩ := h.step op
    exact ⟨out, t, hs, hp⟩

/-! ### After the value is stored -/

/-- The reference that an operation returned. -/
def Out.reference : Out V E → Option V
  | .ready (.ok reference) | .ready (.rejected reference _) => some reference
  | .set (.ok reference) | .set (.initialized reference _) => some reference
  | .got reference => reference
  | _ => none

/-- Nothing happens to a cell that holds a value: it keeps the value, no closure is called,
and references are to the value. -/
structure Kept (s : Sys V E) (value : V) (out : Out V E) (t : Sys V E) : Prop where
  state : t.cell.state = .initialized value
  invoked : t.invoked = s.invoked
  reference : ∀ r, out.reference = some r → r = value

private theorem kept_finish (call : Call) {v : V} (hs : s.cell.state = .initialized v) :
    Kept s v (s.finish call v).1 (s.finish call v).2 := by
  unfold Sys.finish
  split
  · exact ⟨hs, rfl, fun r hr => (Option.some.inj hr).symm⟩
  · exact ⟨hs, rfl, fun r hr => (Option.some.inj hr).symm⟩

private theorem kept_refl {out : Out V E} {v : V} (hs : s.cell.state = .initialized v)
    (ho : out.reference = none) : Kept s v out s :=
  ⟨hs, rfl, fun r hr => by rw [ho] at hr; cases hr⟩

/-- Polls keep the value. -/
theorem Inv.poll_kept (h : Inv s) {v : V} (hs : s.cell.state = .initialized v) (call : Call)
    (outcome : Outcome V E) :
    ∃ out t, s.poll call outcome = .ok (out, t) ∧ Kept s v out t := by
  have hi := h.ledger.idle
  unfold Sys.poll
  by_cases ha : Sys.admits call outcome = false
  · exact ⟨.ignored, s, by rw [if_pos ha], kept_refl hs rfl⟩
  · rw [if_neg ha]
    by_cases hf : call ∈ s.fresh
    · have hk := kept_finish (s := { s with fresh := s.fresh.erase call }) call hs
      refine ⟨_, _, ?_, hk.state, hk.invoked, hk.reference⟩
      simp only [hf, if_true, enter, hs, ok_bind, Sys.proceed]
    · by_cases hwait : s.waiting call
      · cases hw : s.cell.waiters.woken.lookup call with
        | none =>
          refine ⟨.pending, s, ?_, kept_refl hs rfl⟩
          simp only [hf, hwait, if_true, if_false, resume_parked hi hw, ok_bind, Sys.proceed]
        | some b =>
          have hk := kept_finish (s := { s with cell := s.cell.collect call }) call hs
          refine ⟨_, _, ?_, hk.state, hk.invoked, hk.reference⟩
          simp only [hf, hwait, if_true, if_false, resume_ready hi hw hs, ok_bind, Sys.proceed]
      · have hr : call ∉ s.running := by
          intro hr
          rw [(h.sole_running hr).1] at hs
          cases hs
        exact ⟨.ignored, s, by simp only [hf, hwait, hr, if_false], kept_refl hs rfl⟩

/-- Cancellations keep the value. -/
theorem Inv.cancel_kept (h : Inv s) {v : V} (hs : s.cell.state = .initialized v) (call : Call) :
    ∃ out t, s.cancel call = .ok (out, t) ∧ Kept s v out t := by
  have hi := h.ledger.idle
  have hj := h.job
  rw [Job, hs] at hj
  unfold Sys.cancel
  by_cases hf : call ∈ s.fresh
  · exact ⟨.dropped, { s with fresh := s.fresh.erase call }, by rw [if_pos hf], hs, rfl,
      fun r hr => by cases hr⟩
  · rw [if_neg hf]
    by_cases hwait : s.waiting call
    · have hp : s.cell.waiters.parked.lookup call = none := by rw [hj.1]; rfl
      cases hw : s.cell.waiters.woken.lookup call with
      | none => exact absurd hwait (by simp [Sys.waiting, lookup_none.mp hp, lookup_none.mp hw])
      | some b =>
        have hstay : (s.cell.collect call).passOn = s.cell.collect call := by
          simp [OnceCell.passOn, collect, hs]
        refine ⟨.dropped, { s with cell := (s.cell.collect call).passOn }, ?_, ?_, rfl,
          fun r hr => by cases hr⟩
        · simp only [hwait, if_true, dropWaiting_woken hi hp hw, ok_bind]
        · rw [hstay]
          exact hs
    · have hr : call ∉ s.running := by simp [hj.2]
      exact ⟨.ignored, s, by simp only [hwait, hr, if_false], kept_refl hs rfl⟩

/-- Every operation keeps the value. -/
theorem Inv.step_kept (h : Inv s) {v : V} (hs : s.cell.state = .initialized v) (op : Op V E) :
    ∃ out t, s.step op = .ok (out, t) ∧ Kept s v out t := by
  cases op with
  | getOrTryInit | getOrInit | insert =>
    exact ⟨_, _, rfl, hs, rfl, fun r hr => by cases hr⟩
  | poll call outcome => exact h.poll_kept hs call outcome
  | cancel call => exact h.cancel_kept hs call
  | set value =>
    refine ⟨.set (.initialized v value), { s with
      sets := s.sets ++ [(value, .initialized v value)] }, ?_, hs, rfl, ?_⟩
    · simp only [Sys.step, Sys.set, OnceCell.set, hs, ok_bind]
    · exact fun r hr => (Option.some.inj hr).symm
  | get =>
    refine ⟨_, _, rfl, hs, rfl, fun r hr => ?_⟩
    simp only [Out.reference, OnceCell.get, hs, Option.some.injEq] at hr
    exact hr.symm

/-- Every run keeps the value. -/
theorem Inv.run_kept (h : Inv s) {v : V} (hs : s.cell.state = .initialized v)
    (ops : List (Op V E)) {outs : List (Out V E)} {t : Sys V E}
    (hr : run Sys.step s ops = .ok (outs, t)) :
    t.cell.state = .initialized v ∧ t.invoked = s.invoked ∧
      ∀ out ∈ outs, ∀ r, out.reference = some r → r = v := by
  induction ops generalizing s outs with
  | nil =>
    simp only [run, Except.ok.injEq, Prod.mk.injEq] at hr
    rw [← hr.1, ← hr.2]
    exact ⟨hs, rfl, fun out hm => (List.not_mem_nil hm).elim⟩
  | cons op ops ih =>
    obtain ⟨out, s', hstep, hk⟩ := h.step_kept hs op
    obtain ⟨out', s'', hstep', hinv, -⟩ := h.step op
    rw [hstep, Except.ok.injEq, Prod.mk.injEq] at hstep'
    rw [← hstep'.2] at hinv
    cases hrest : run Sys.step s' ops with
    | error e => simp [run, hstep, hrest] at hr
    | ok p =>
      obtain ⟨outs', t'⟩ := p
      simp only [run, hstep, hrest, Except.ok.injEq, Prod.mk.injEq] at hr
      obtain ⟨ht, hi, hrefs⟩ := ih hinv hk.state (by rw [hrest, hr.2])
      refine ⟨ht, hi.trans hk.invoked, ?_⟩
      rw [← hr.1]
      intro o ho
      rcases List.mem_cons.mp ho with rfl | ho
      · exact hk.reference
      · exact hrefs o ho

/-- In every run of a cell at most one initializer is alive at a time, every closure is
called at most once, at most one value is ever produced, the cell keeps it, and the results
of all calls fit it: `insert` and `set` succeed exactly for the value that is stored, and
hand back any other. -/
theorem callers_agree_on_one_value (ops more : List (Op V E)) :
    ∃ outs s later t, run Sys.step (Sys.new : Sys V E) ops = .ok (outs, s) ∧
      run Sys.step s more = .ok (later, t) ∧
      s.running.length ≤ 1 ∧ s.clashed = [] ∧ s.invoked.Nodup ∧
      (∀ v, s.cell.state = .initialized v →
        (∃ source, s.produced = [(source, v)]) ∧ t.cell.state = .initialized v ∧
        t.invoked = s.invoked ∧ ∀ out ∈ later, ∀ r, out.reference = some r → r = v) ∧
      ((∀ v, s.cell.state ≠ .initialized v) → s.produced = []) ∧
      (∀ p ∈ s.resolved, Fits s p.1 p.2) ∧
      ∀ index value result, s.sets[index]? = some (value, result) →
        SetFits s index value result := by
  obtain ⟨outs, s, hr, h⟩ := run_inv ops
  obtain ⟨later, t, hmore, -⟩ : ∃ later t, run Sys.step s more = .ok (later, t) ∧ Inv t := by
    apply run_invariant _ h
    intro s op h
    obtain ⟨out, t, hs, ht, -⟩ := h.step op
    exact ⟨out, t, hs, ht⟩
  have hl := h.ledger
  refine ⟨outs, s, later, t, hr, hmore, ?_, hl.alone, (List.nodup_append.mp hl.distinct).2.1,
    fun v hs => ⟨?_, h.run_kept hs more hmore⟩, fun hs => ?_, hl.results, hl.setResults⟩
  · have hj := h.job
    cases hs : s.cell.state with
    | uninit =>
      rw [Job, hs] at hj
      simp [hj.2.2]
    | initializing =>
      rw [Job, hs, List.length_append] at hj
      omega
    | initialized v =>
      rw [Job, hs] at hj
      simp [hj.2]
  · have hst := hl.stored
    rwa [Stored, hs] at hst
  · have hst := hl.stored
    unfold Stored at hst
    split at hst
    · next v hv => exact absurd hv (hs v)
    · exact hst

end OnceCell
end Unsync
