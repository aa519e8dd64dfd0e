import Unsync.Lib.Executor
import Unsync.OnceCell.Polls
import Mathlib.Algebra.BigOperators.Fin

/-!
# Tasks that initialize one cell

A number of tasks each call one of the initializing methods of a cell, as those of the tests
in `src/once_cell.rs:432–571` do. An initializer yields a number of times before it succeeds,
fails or panics. No future is dropped before it is ready.
-/

namespace Unsync
namespace OnceCell

open Runs Executor

variable {V E : Type}

/-- What a task calls: how often its initializer yields, and what that comes to. Without a
result it panics, and only `get_or_try_init` takes an initializer that may fail. -/
inductive Request (V E : Type) where
  | getOrTryInit (yields : Nat) (result : Option (Except E V))
  | getOrInit (yields : Nat) (result : Option V)
  | insert (value : V)

namespace Request

/-- The call of the method. -/
def op : Request V E → Op V E
  | .getOrTryInit _ _ => .getOrTryInit
  | .getOrInit _ _ => .getOrInit
  | .insert value => .insert value

/-- How often the initializer yields. -/
def yields : Request V E → Nat
  | .getOrTryInit yields _ | .getOrInit yields _ => yields
  | .insert _ => 0

/-- What the initializer comes to in the end. -/
def last : Request V E → Outcome V E
  | .getOrTryInit _ (some (.ok value)) => .ok value
  | .getOrTryInit _ (some (.error error)) => .err error
  | .getOrInit _ (some value) => .ok value
  | .getOrTryInit _ none | .getOrInit _ none => .panic
  | .insert value => .ok value

/-- The value that the caller passes. -/
def given : Request V E → Option V
  | .insert value => some value
  | _ => none

/-- Which method is called. -/
def kind : Request V E → Kind
  | .getOrTryInit _ _ => .getOrTryInit
  | .getOrInit _ _ => .getOrInit
  | .insert _ => .insert

/-- What a poll of the initializer comes to when it will yield that many times. -/
def outcome (r : Request V E) (left : Nat) : Outcome V E :=
  match left with
  | 0 => r.last
  | _ + 1 => .pending

end Request

/-- Where a task is. -/
inductive Stage (V E : Type) where
  | unborn
  /-- The task awaits the call, whose initializer will yield that many times. -/
  | calling (call : Call) (left : Nat)
  /-- The task returned with the result of the call, or it panicked. -/
  | returned (call : Call) (result : Option (Resolved V E))

/-- The call that the task awaits. -/
def Stage.call : Stage V E → Option Call
  | .calling call _ => some call
  | _ => none

/-- A cell and the tasks that initialize it. -/
structure Session (k : Nat) (V E : Type) where
  sys : Sys V E
  requests : Fin k → Request V E
  stages : Fin k → Stage V E

namespace Session

variable {k : Nat}

/-- All tasks have been spawned. -/
def new (requests : Fin k → Request V E) : Session k V E :=
  ⟨.new, requests, fun _ => .unborn⟩

/-- The task awaits a call that is in the queue. -/
def Parked (c : Session k V E) (i : Fin k) : Prop :=
  ∃ call ∈ (c.stages i).call, Queued c.sys call

instance (c : Session k V E) (i : Fin k) : Decidable (c.Parked i) :=
  inferInstanceAs (Decidable (∃ call ∈ (c.stages i).call, Queued c.sys call))

/-- The tasks and the cell after a turn. -/
def put (c : Session k V E) (i : Fin k) (sys : Sys V E) (stage : Stage V E) : Session k V E :=
  { c with sys := sys, stages := Function.update c.stages i stage }

/-- The end of a turn. Nobody gives up, so whoever left the queue was woken. -/
def leave (c : Session k V E) (i : Fin k) (again : Bool) (sys : Sys V E) (stage : Stage V E) :
    Turn (Fin k) × Session k V E :=
  (⟨again, (List.finRange k).filter fun j => c.Parked j ∧ ¬ (c.put i sys stage).Parked j⟩,
    c.put i sys stage)

/-- Poll the call that the task awaits, with the cell as the task left it. An initializer
that yields wakes its task. -/
def await (c : Session k V E) (i : Fin k) (sys : Sys V E) (call : Call) (left : Nat) :
    Except Fault (Turn (Fin k) × Session k V E) := do
  let (out, sys) ← sys.step (.poll call ((c.requests i).outcome left))
  match out with
  | .ready result => .ok (c.leave i false sys (.returned call (some result)))
  | .panicked => .ok (c.leave i false sys (.returned call none))
  | _ =>
    if call ∈ sys.running then .ok (c.leave i true sys (.calling call (left - 1)))
    else .ok (c.leave i false sys (.calling call left))

/-- A turn of a task. -/
def turn (c : Session k V E) (i : Fin k) : Except Fault (Turn (Fin k) × Session k V E) :=
  match c.stages i with
  | .unborn => do
    let (out, sys) ← c.sys.step (c.requests i).op
    match out with
    | .created call => c.await i sys call (c.requests i).yields
    | _ => .error .unreachable
  | .calling call left => c.await i c.sys call left
  | .returned call result => .ok (c.leave i false c.sys (.returned call result))

/-- Whether the task returned. -/
def Returned (c : Session k V E) (i : Fin k) : Bool :=
  match c.stages i with
  | .returned _ _ => true
  | _ => false

/-- The tasks. -/
def tasks (k : Nat) (V E : Type) : Tasks Fault (Session k V E) (Fin k) (Fin k) where
  task := id
  finished := Returned
  turn := turn

end Session

/-! ### What tasks keep -/

namespace Request

variable {r : Request V E}

private theorem last_of_outcome {left : Nat} {o : Outcome V E} (h : r.outcome left = o)
    (ho : o ≠ .pending) : r.last = o := by
  cases left with
  | zero => exact h
  | succ left => exact absurd h.symm ho

private theorem left_of_pending {left : Nat} (h : r.outcome left = .pending) : 0 < left := by
  cases left with
  | zero =>
    rcases r with ⟨_, _ | _ | _⟩ | ⟨_, _ | _⟩ | _ <;> cases h
  | succ left => exact Nat.succ_pos left

private theorem admits {call : Call} (hk : call.kind = r.kind) (left : Nat) :
    Sys.admits call (r.outcome left) = true := by
  cases left with
  | succ left => rfl
  | zero =>
    rcases r with ⟨_, _ | _ | _⟩ | ⟨_, _ | _⟩ | _ <;> first | rfl | exact decide_eq_true hk

end Request

/-- The call is the one that the request made. -/
structure About (s : Sys V E) (r : Request V E) (call : Call) : Prop where
  numbered : call.serial < s.calls
  kind : call.kind = r.kind
  given : s.given call = r.given

/-- What is known of a task. -/
def Knows (s : Sys V E) (r : Request V E) : Stage V E → Prop
  | .unborn => True
  | .calling call _ => About s r call
  | .returned call (some result) => About s r call ∧ (call, result) ∈ s.resolved ∧
    ∀ error, result = .err error → r.last = .err error
  | .returned call none => About s r call ∧ r.last = .panic

/-- What a task that returned says about the request and the cell. -/
def Answered (s : Sys V E) (r : Request V E) : Option (Resolved V E) → Prop
  | some (.ok reference) => s.cell.get = some reference ∧
    ∀ value, r.given = some value → value = reference
  | some (.rejected reference value) => s.cell.get = some reference ∧ r.given = some value
  | some (.err error) => r.last = .err error
  | none => r.last = .panic

/-- The turns that a task may take in each of its stages. -/
def Stage.weight (s : Sys V E) (r : Request V E) : Stage V E → Nat
  | .unborn => r.yields + 1
  | .calling call left => left + if Queued s call then 1 else 0
  | .returned _ _ => 0

section Knowledge

variable {s t : Sys V E} {r : Request V E} {call : Call} {outcome : Outcome V E}

private theorem About.keep (h : About s r call) (hc : s.calls ≤ t.calls)
    (hg : ∀ c, c.serial < s.calls → t.given c = s.given c) : About t r call :=
  ⟨Nat.lt_of_lt_of_le h.numbered hc, h.kind, (hg call h.numbered).trans h.given⟩

private theorem Knows.keep {stage : Stage V E} (h : Knows s r stage) (hc : s.calls ≤ t.calls)
    (hg : ∀ c, c.serial < s.calls → t.given c = s.given c) (hr : s.resolved ⊆ t.resolved) :
    Knows t r stage := by
  cases stage with
  | unborn => exact h
  | calling call left => exact About.keep h hc hg
  | returned call result =>
    cases result with
    | none => exact ⟨h.1.keep hc hg, h.2⟩
    | some result => exact ⟨h.1.keep hc hg, hr h.2.1, h.2.2⟩

private theorem last_of_yields (ha : About s r call) {left : Nat} {value : V}
    (hy : Yields s call (r.outcome left) value) : r.last = .ok value := by
  unfold Yields at hy
  split at hy
  · next hk =>
    rw [ha.given] at hy
    cases r with
    | insert v =>
      cases hy
      rfl
    | _ => cases hy
  · exact Request.last_of_outcome hy fun he => by cases he

/-- What a task that returned says. -/
theorem Knows.answered (h : Inv s) {result : Option (Resolved V E)}
    (hk : Knows s r (.returned call result)) : Answered s r result := by
  cases result with
  | none => exact hk.2
  | some result =>
    obtain ⟨ha, hm, he⟩ := hk
    have hfits := h.ledger.results _ hm
    cases result with
    | err error => exact he error rfl
    | ok reference =>
      obtain ⟨hs, hown⟩ := hfits
      refine ⟨by simp only [OnceCell.get, hs], fun value hv => ?_⟩
      have hkind : call.kind = .insert := by
        rw [ha.kind]
        cases r with
        | insert v => rfl
        | _ => cases hv
      exact Option.some.inj (hv.symm.trans (ha.given.symm.trans (hown hkind).1))
    | rejected reference value =>
      obtain ⟨hs, -, hg, -⟩ := hfits
      exact ⟨by simp only [OnceCell.get, hs], ha.given.symm.trans hg⟩

end Knowledge

namespace Session

variable {k : Nat}

/-- Calls belong to tasks, and so do values. -/
structure Sound (c : Session k V E) : Prop where
  inv : Inv c.sys
  fresh : c.sys.fresh = []
  sets : c.sys.sets = []
  calls : Tasks.Divided c.sys.alive fun i => (c.stages i).call.toList
  knows : ∀ i, Knows c.sys (c.requests i) (c.stages i)
  sources : ∀ p ∈ c.sys.produced, ∃ i, (c.requests i).last = .ok p.2

/-- The weights of all tasks. -/
def potential (c : Session k V E) : Nat := ∑ i, (c.stages i).weight c.sys (c.requests i)

section Keep

variable {c : Session k V E} {i : Fin k} {sys : Sys V E} {stage : Stage V E}

private theorem put_of_ne {j : Fin k} (hj : j ≠ i) :
    (c.put i sys stage).stages j = c.stages j := Function.update_of_ne hj _ _

private theorem put_self : (c.put i sys stage).stages i = stage := Function.update_self _ _ _

/-- A turn advances when the task pays for going on, and nobody else enters the queue. -/
theorem leave_advances {again : Bool} (hf : (tasks k V E).finished c i = false)
    (hrests : again = false → (c.put i sys stage).Returned i = false →
      (c.put i sys stage).Parked i)
    (hstays : c.Parked i → (c.put i sys stage).Parked i)
    (hself : stage.weight sys (c.requests i) + (if again then 1 else 0) ≤
      (c.stages i).weight c.sys (c.requests i))
    (hq : ∀ j, j ≠ i → ∀ call ∈ (c.stages j).call, Queued sys call → Queued c.sys call) :
    (tasks k V E).Advances Parked potential (fun _ => 1) c i (c.leave i again sys stage).1
      (c.leave i again sys stage).2 := by
  have hwoken : ∀ j,
      j ∈ (List.finRange k).filter (fun j => c.Parked j ∧ ¬ (c.put i sys stage).Parked j) ↔
        c.Parked j ∧ ¬ (c.put i sys stage).Parked j := by
    intro j
    simp
  refine Tasks.Advances.of_weights 0 hf ?_ hrests hstays ((List.nodup_finRange k).filter _)
    hwoken rfl rfl ?_ ?_
  · intro j hne hj
    simpa only [tasks, leave, Returned, put_of_ne hne] using hj
  · show ((c.put i sys stage).stages i).weight sys (c.requests i) + _ + _ ≤ _
    rw [put_self]
    simpa using hself
  · intro j hj
    show ((c.put i sys stage).stages j).weight sys (c.requests j) + _ ≤ _
    rw [put_of_ne hj, if_congr (hwoken j) rfl rfl]
    simp only [Parked, put_of_ne hj]
    have hqueued := hq j hj
    cases hstage : c.stages j with
    | calling call left =>
      rw [hstage] at hqueued
      have hin : Queued sys call → Queued c.sys call := hqueued call rfl
      simp only [Stage.weight, Stage.call, Option.mem_def, Option.some.injEq, exists_eq_left', put]
      by_cases hs : Queued c.sys call
      · by_cases ht : Queued sys call <;> simp [hs, ht]
      · have ht : ¬ Queued sys call := fun ht => hs (hin ht)
        simp [hs, ht]
    | _ => simp [Stage.weight, Stage.call]

/-- The task awaits a call that it has just made, or made before. -/
structure Awaits (c : Session k V E) (i : Fin k) (sys : Sys V E) (call : Call)
    (left : Nat) : Prop where
  inv : Inv sys
  fresh : sys.fresh.erase call = []
  sets : sys.sets = []
  alive : call ∈ sys.alive
  calls : (sys.alive ++ (c.stages i).call.toList).Perm (c.sys.alive ++ [call])
  about : About sys (c.requests i) call
  knows : ∀ j, j ≠ i → Knows sys (c.requests j) (c.stages j)
  sources : ∀ p ∈ sys.produced, ∃ j, (c.requests j).last = .ok p.2
  queued : ∀ other, Queued sys other ↔ Queued c.sys other
  mine : ∀ other ∈ (c.stages i).call, other = call
  others : ∀ j, j ≠ i → ∀ other ∈ (c.stages j).call, other ≠ call
  weight : (left + if Queued c.sys call then 1 else 0) ≤
    (c.stages i).weight c.sys (c.requests i)
  first : call ∈ sys.fresh → left + 1 ≤ (c.stages i).weight c.sys (c.requests i)

/-- What a turn comes to. -/
def Goes (c : Session k V E) (i : Fin k) (r : Except Fault (Turn (Fin k) × Session k V E)) :
    Prop :=
  ∃ turn t, r = .ok (turn, t) ∧ (Sound t ∧ t.requests = c.requests) ∧
    (tasks k V E).Advances Parked potential (fun _ => 1) c i turn t

/-- Calls and values still belong to tasks after a poll. -/
theorem Awaits.sound {call : Call} {left : Nat} {out : Out V E} {t : Sys V E}
    (a : Awaits c i sys call left) (h : Sound c) (stage : Stage V E)
    (p : Polls sys call ((c.requests i).outcome left) out t)
    (hcalls : (t.alive ++ [call]).Perm (sys.alive ++ stage.call.toList))
    (hknows : Knows t (c.requests i) stage) : Sound (c.put i t stage) := by
  have he := p.effect
  refine ⟨p.inv, he.fresh.trans a.fresh, he.sets.trans a.sets, ?_, ?_, ?_⟩
  · refine h.calls.update (fun stage : Stage V E => stage.call.toList) ?_
    show (t.alive ++ (c.stages i).call.toList).Perm _
    rw [List.perm_iff_count]
    intro x
    have hx := hcalls.count_eq x
    have hy := a.calls.count_eq x
    simp only [List.count_append] at hx hy ⊢
    omega
  · intro j
    by_cases hj : j = i
    · subst hj
      rw [put_self]
      exact hknows
    · rw [put_of_ne hj]
      exact (a.knows j hj).keep (Nat.le_of_eq he.calls.symm) (fun d _ => congrFun he.given d)
        he.resolved
  · intro q hq
    rcases he.produced q hq with hold | ⟨v, rfl, hy⟩
    · exact a.sources q hold
    · exact ⟨i, last_of_yields a.about hy⟩

/-- A call that is awaited goes on, or the task sleeps. -/
theorem Awaits.await {call : Call} {left : Nat} (a : Awaits c i sys call left) (h : Sound c)
    (hf : (tasks k V E).finished c i = false) : Goes c i (c.await i sys call left) := by
  obtain ⟨out, t, hs, p⟩ := a.inv.polls (Request.admits a.about.kind left) a.alive
  have he := p.effect
  have hq : ∀ j, j ≠ i → ∀ other ∈ (c.stages j).call, Queued t other → Queued c.sys other :=
    fun j hj other ho hqueued =>
      (a.queued other).mp (he.queued other (a.others j hj other ho) hqueued)
  have habout : About t (c.requests i) call :=
    a.about.keep (Nat.le_of_eq he.calls.symm) (fun d _ => congrFun he.given d)
  have hnodup := p.inv.alive_nodup
  rcases p.comes with ⟨rfl, hqueued, hfrom, hp, -, -⟩ | ⟨hno, -, others, hp, hcomes⟩
  · have hrun : call ∉ t.running := by
      intro hr
      have hpending : call ∈ t.pending :=
        List.mem_append_left _ (List.mem_append_right _ hqueued)
      exact (List.nodup_append.mp hnodup).2.2 call hpending call hr rfl
    have hparked : (c.put i t (.calling call left)).Parked i :=
      ⟨call, by rw [put_self]; rfl, hqueued⟩
    refine ⟨(c.leave i false t (.calling call left)).1, _, ?_,
      ⟨a.sound h (.calling call left) p (hp.append_right _) habout, rfl⟩,
      leave_advances hf (fun _ _ => hparked) (fun _ => hparked) ?_ hq⟩
    · rw [Session.await, hs]
      simp only [ok_bind, if_neg hrun]
      rfl
    · show left + (if Queued t call then 1 else 0) + 0 ≤ _
      rw [if_pos hqueued]
      rcases hfrom with hfresh | hold
      · exact a.first hfresh
      · have hw := a.weight
        rwa [if_pos ((a.queued call).mp hold)] at hw
  · have hfar : ¬ c.Parked i := by
      rintro ⟨other, ho, hqueued⟩
      cases a.mine other ho
      exact hno ((a.queued call).mpr hqueued)
    cases hcomes with
    | runs ho hr _ hperm =>
      have hleft := Request.left_of_pending ho
      have hout : ¬ Queued t call := by
        intro hqueued
        have hpending : call ∈ t.pending :=
          List.mem_append_left _ (List.mem_append_right _ hqueued)
        exact (List.nodup_append.mp hnodup).2.2 call hpending call hr rfl
      refine ⟨(c.leave i true t (.calling call (left - 1))).1, _, ?_,
        ⟨a.sound h (.calling call (left - 1)) p ?_ habout, rfl⟩,
        leave_advances hf (fun ha => by cases ha) (fun hparked => absurd hparked hfar) ?_ hq⟩
      · rw [Session.await, hs]
        simp only [ok_bind, if_pos hr]
        rfl
      · exact (hperm.trans hp.symm).append_right _
      · have hw := a.weight
        show left - 1 + (if Queued t call then 1 else 0) + 1 ≤ _
        rw [if_neg hout]
        omega
    | ready result hm herr hperm =>
      refine ⟨(c.leave i false t (.returned call (some result))).1, _, ?_,
        ⟨a.sound h (.returned call (some result)) p ?_ ⟨habout, hm, ?_⟩, rfl⟩,
        leave_advances hf ?_ (fun hparked => absurd hparked hfar) (Nat.zero_le _) hq⟩
      · rw [Session.await, hs]
        rfl
      · show (t.alive ++ [call]).Perm (sys.alive ++ [])
        rw [List.append_nil]
        exact (List.perm_append_singleton _ _).trans ((hperm.cons call).trans hp.symm)
      · intro error hr
        exact Request.last_of_outcome (herr error hr) fun hpend => by cases hpend
      · intro _ hr
        simp [Returned, put_self] at hr
    | panicked ho _ hperm =>
      refine ⟨(c.leave i false t (.returned call none)).1, _, ?_,
        ⟨a.sound h (.returned call none) p ?_ ⟨habout, ?_⟩, rfl⟩,
        leave_advances hf ?_ (fun hparked => absurd hparked hfar) (Nat.zero_le _) hq⟩
      · rw [Session.await, hs]
        rfl
      · show (t.alive ++ [call]).Perm (sys.alive ++ [])
        rw [List.append_nil]
        exact (List.perm_append_singleton _ _).trans ((hperm.cons call).trans hp.symm)
      · exact Request.last_of_outcome ho fun hpend => by cases hpend
      · intro _ hr
        simp [Returned, put_self] at hr

/-- A task makes its call. -/
theorem Sound.begin (h : Sound c) (hstage : c.stages i = .unborn)
    (hf : (tasks k V E).finished c i = false) : Goes c i (c.turn i) := by
  have hcreate : c.sys.step (c.requests i).op =
      .ok (c.sys.create (c.requests i).kind (c.requests i).given) := by
    cases c.requests i <;> rfl
  obtain ⟨out, s, hs, hinv, -⟩ := h.inv.step (c.requests i).op
  cases hcreate.symm.trans hs
  have hturn : c.turn i = c.await i (c.sys.create (c.requests i).kind (c.requests i).given).2
      ⟨c.sys.calls, (c.requests i).kind⟩ (c.requests i).yields := by
    simp only [Session.turn, hstage, hcreate, ok_bind, Sys.create]
  have hnew : ∀ d : Call, d.serial < c.sys.calls → d ≠ ⟨c.sys.calls, (c.requests i).kind⟩ := by
    rintro d hd rfl
    exact Nat.lt_irrefl _ hd
  have hgiven : ∀ d : Call, d.serial < c.sys.calls →
      (c.sys.create (c.requests i).kind (c.requests i).given).2.given d = c.sys.given d :=
    fun d hd => Function.update_of_ne (hnew d hd) _ _
  rw [hturn]
  refine Awaits.await ⟨hinv, ?_, h.sets, ?_, ?_, ⟨Nat.lt_succ_self _, rfl, ?_⟩, ?_, h.sources,
    fun _ => Iff.rfl, ?_, ?_, ?_, ?_⟩ h hf
  · simp [Sys.create, h.fresh]
  · simp [Sys.alive, Sys.pending, Sys.create]
  · rw [hstage, List.perm_iff_count]
    intro x
    simp only [Sys.alive, Sys.pending, Sys.create, Stage.call, Option.toList_none,
      List.count_append, List.count_nil]
    omega
  · exact Function.update_self _ _ _
  · intro j _
    exact (h.knows j).keep (Nat.le_succ _) hgiven (List.Subset.refl _)
  · intro other ho
    rw [hstage] at ho
    cases ho
  · intro j _ other ho
    apply hnew
    have hmem : other ∈ c.sys.alive := h.calls.mem_iff.mpr ⟨j, by simpa using ho⟩
    rcases List.mem_append.mp hmem with hp | hr
    · exact h.inv.ledger.pending_numbered hp
    · exact h.inv.ledger.numbered other
        (List.mem_append_left _ (List.mem_append_right _ (h.inv.begun other hr).1))
  · rw [hstage]
    simp only [Stage.weight]
    split <;> omega
  · intro _
    rw [hstage, Stage.weight]

/-- A task polls the call that it awaits. -/
theorem Sound.again (h : Sound c) {call : Call} {left : Nat}
    (hstage : c.stages i = .calling call left) (hf : (tasks k V E).finished c i = false) :
    Goes c i (c.turn i) := by
  have hturn : c.turn i = c.await i c.sys call left := by simp only [Session.turn, hstage]
  have hknows := h.knows i
  have hcall : (c.stages i).call = some call := by
    rw [hstage]
    rfl
  rw [hstage] at hknows
  rw [hturn]
  refine Awaits.await ⟨h.inv, ?_, h.sets, ?_, ?_, hknows, fun j _ => h.knows j, h.sources,
    fun _ => Iff.rfl, ?_, ?_, ?_, ?_⟩ h hf
  · rw [h.fresh, List.erase_nil]
  · exact h.calls.mem_iff.mpr ⟨i, by simp [hcall]⟩
  · rw [hcall]
    exact List.Perm.refl _
  · intro other ho
    rw [hcall] at ho
    cases ho
    rfl
  · intro j hj other ho
    exact h.calls.ne h.inv.alive_nodup hj (by simp [hcall]) (by simpa using ho)
  · rw [hstage, Stage.weight]
  · intro hfresh
    rw [h.fresh] at hfresh
    cases hfresh

/-- A turn of a task that has not returned. -/
theorem Sound.turn (h : Sound c) (hf : (tasks k V E).finished c i = false) :
    Goes c i (c.turn i) := by
  cases hstage : c.stages i with
  | unborn => exact h.begin hstage hf
  | calling call left => exact h.again hstage hf
  | returned call result => simp [tasks, Returned, hstage] at hf

/-- Tasks do not wait for each other in the queue for ever: whoever owns the job is not in
the queue. -/
theorem Sound.awake (h : Sound c) (hp : ∀ i, (tasks k V E).finished c i = false → c.Parked i)
    (i : Fin k) : (tasks k V E).finished c i = true := by
  by_contra hf
  obtain ⟨call, -, hq⟩ := hp i (by simpa using hf)
  obtain ⟨owner, howner⟩ := h.inv.has_owner (h.inv.queued_state hq)
  have halive : owner ∈ c.sys.alive := howner.alive
  obtain ⟨j, hj⟩ := h.calls.mem_iff.mp halive
  have hcall : (c.stages j).call = some owner := by simpa using hj
  have hunfinished : (tasks k V E).finished c j = false := by
    cases hstage : c.stages j with
    | returned d result =>
      rw [hstage] at hcall
      cases hcall
    | _ => simp [tasks, Returned, hstage]
  obtain ⟨other, ho, hqueued⟩ := hp j hunfinished
  cases hcall.symm.trans ho
  exact (h.inv.owner_place howner).2.1 hqueued

/-- The tasks cooperate. -/
theorem cooperates (requests : Fin k → Request V E) :
    (tasks k V E).Cooperates (fun c => Sound c ∧ c.requests = requests) Parked potential
      fun _ => 1 := by
  refine ⟨?_, fun _ h hp => h.1.awake hp⟩
  rintro c i ⟨h, rfl⟩ hf
  exact h.turn hf

/-- Nothing is known of tasks that were just spawned. -/
theorem Sound.new (requests : Fin k → Request V E) : Sound (.new requests) := by
  refine ⟨.new, rfl, rfl, ?_, fun _ => trivial, ?_⟩
  · exact (Finset.sum_eq_zero fun i _ => rfl).symm
  · intro p hp
    cases hp

/-- The value in the cell was some task's. -/
theorem Sound.given (h : Sound c) {value : V} (hv : c.sys.cell.get = some value) :
    ∃ i, (c.requests i).last = .ok value := by
  have hstored := h.inv.ledger.stored
  unfold OnceCell.get at hv
  split at hv
  · next v hs =>
    cases hv
    rw [Stored, hs] at hstored
    obtain ⟨source, hp⟩ := hstored
    exact h.sources (source, value) (by rw [hp]; exact List.mem_singleton_self _)
  · cases hv

/-- What the task got, if it returned. -/
theorem Sound.answered (h : Sound c) {call : Call} {result : Option (Resolved V E)}
    (hi : c.stages i = .returned call result) : Answered c.sys (c.requests i) result := by
  have hknows := h.knows i
  rw [hi] at hknows
  exact hknows.answered h.inv

/-- Once all tasks have returned the cell has a value, if any task had one to give. -/
theorem Sound.filled (h : Sound c) (hf : (tasks k V E).finished c i = true) {value : V}
    (hv : (c.requests i).last = .ok value) : ∃ v, c.sys.cell.get = some v := by
  cases hi : c.stages i with
  | returned call result =>
    have hanswer := h.answered hi
    cases result with
    | none => cases hv.symm.trans hanswer
    | some result =>
      cases result with
      | ok reference => exact ⟨reference, hanswer.1⟩
      | rejected reference own => exact ⟨reference, hanswer.1⟩
      | err error => cases hv.symm.trans hanswer
  | _ => simp [tasks, Returned, hi] at hf

end Keep

/-- Tasks that initialize one cell, with initializers that yield, succeed, fail or panic as
they like: however the executor schedules them, no turn panics but those of initializers
that do, there is a bound on the number of turns, references are to the value in the cell,
`insert` gets its own value back exactly when another one was stored, and errors and panics
are those of the task's own initializer. As long as not all tasks have returned one of them
is scheduled. When they have, the cell holds the value of one of them, unless all of them
failed. -/
theorem all_callers_return (requests : Fin k → Request V E) (schedule : List (Fin k))
    (hs : (tasks k V E).Schedule (.start (.new requests)) schedule) :
    ∃ outs m, run (tasks k V E).poll (.start (.new requests)) schedule = .ok (outs, m) ∧
      schedule.length ≤ ∑ i, ((requests i).yields + 2) ∧
      (∀ i call result, m.shared.stages i = .returned call result →
        Answered m.shared.sys (requests i) result) ∧
      ((∃ i, (tasks k V E).Ready m i) ∨
        (∀ i, (tasks k V E).finished m.shared i = true) ∧
          ((∃ value, m.shared.sys.cell.get = some value ∧ ∃ i, (requests i).last = .ok value) ∨
            m.shared.sys.cell.get = none ∧ ∀ i value, (requests i).last ≠ .ok value)) := by
  obtain ⟨outs, m, hrun, ⟨h, rfl⟩, hlen, hend⟩ := (cooperates requests).run
    (Tasks.Sound.start ⟨Sound.new requests, rfl⟩) hs
  refine ⟨outs, m, hrun, ?_, fun i call result hi => h.answered hi,
    hend.imp_right fun hf => ⟨hf, ?_⟩⟩
  · refine ((Nat.le_of_add_right_le hlen).trans (Tasks.rank_start_le _)).trans ?_
    rw [potential, ← Finset.sum_add_distrib]
    exact Nat.le_refl _
  · cases hv : m.shared.sys.cell.get with
    | some value => exact Or.inl ⟨value, rfl, h.given hv⟩
    | none =>
      refine Or.inr ⟨rfl, fun i value hlast => ?_⟩
      obtain ⟨v, hget⟩ := h.filled (hf i) hlast
      cases hv.symm.trans hget

/-- The first initializer yields and fails, a value is inserted instead, and the third task
finds it. -/
theorem all_callers_return_three_tasks :
    ∃ outs m, run (tasks 3 Nat Nat).poll
        (.start (.new ![.getOrTryInit 1 (some (.error 7)), .insert 6, .getOrInit 2 (some 5)]))
        [0, 1, 2, 0, 1, 2] = .ok (outs, m) ∧
      6 ≤ ∑ i, (((![.getOrTryInit 1 (some (.error 7)), .insert 6, .getOrInit 2 (some 5)] :
        Fin 3 → Request Nat Nat) i).yields + 2) ∧
      (∀ i call result, m.shared.stages i = .returned call result →
        Answered m.shared.sys ((![.getOrTryInit 1 (some (.error 7)), .insert 6,
          .getOrInit 2 (some 5)] : Fin 3 → Request Nat Nat) i) result) ∧
      ((∃ i, (tasks 3 Nat Nat).Ready m i) ∨
        (∀ i, (tasks 3 Nat Nat).finished m.shared i = true) ∧
          ((∃ value, m.shared.sys.cell.get = some value ∧
            ∃ i, ((![.getOrTryInit 1 (some (.error 7)), .insert 6, .getOrInit 2 (some 5)] :
              Fin 3 → Request Nat Nat) i).last = .ok value) ∨
            m.shared.sys.cell.get = none ∧
              ∀ i value, ((![.getOrTryInit 1 (some (.error 7)), .insert 6,
                .getOrInit 2 (some 5)] : Fin 3 → Request Nat Nat) i).last ≠ .ok value)) :=
  all_callers_return ![.getOrTryInit 1 (some (.error 7)), .insert 6, .getOrInit 2 (some 5)]
    [0, 1, 2, 0, 1, 2] (by decide)

end Session

end OnceCell
end Unsync
