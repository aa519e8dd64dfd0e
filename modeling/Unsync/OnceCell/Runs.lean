import Mathlib.Data.List.Nodup
import Mathlib.Logic.Function.Basic
import Unsync.OnceCell.Baton

/-!
# Runs of a cell

A cell with any number of callers as a transition system. The invariant says who owns the
job in each state and keeps the books on closures, values and results; `Held` is the same
in the middle of a poll, when the polled caller owns the job.
-/

namespace Unsync
namespace OnceCell

open Runs

/-- Where a stored value came from: a call whose initializer succeeded, or the `set` with
the given number. -/
inductive Source where
  | call (call : Call)
  | set (index : Nat)
  deriving DecidableEq, Repr

/-- What a call resolves to: the reference, the error of the initializer, or from `insert`
the reference and the caller's own value. -/
inductive Resolved (V E : Type) where
  | ok (reference : V)
  | err (error : E)
  | rejected (reference value : V)
  deriving DecidableEq, Repr

/-- A cell and its callers: the futures that were not polled, those suspended in
`f().await`, what the closure of each `insert` still captures, and the number of calls.
The remaining fields record values given to `insert`, closures that were called,
initializers that were alive when another closure was called, values produced, results of
calls and results of `set`. -/
structure Sys (V E : Type) where
  cell : OnceCell V
  fresh : List Call
  running : List Call
  captured : Call → Option V
  calls : Nat
  given : Call → Option V
  invoked : List Call
  clashed : List Call
  produced : List (Source × V)
  resolved : List (Call × Resolved V E)
  sets : List (V × SetResult V)

/-- What callers can do between two polls of the executor. A poll says what the
initializer does if it is polled in turn. -/
inductive Op (V E : Type) where
  | getOrTryInit
  | getOrInit
  | insert (value : V)
  | poll (call : Call) (outcome : Outcome V E)
  /-- Drop a future at any stage. -/
  | cancel (call : Call)
  | set (value : V)
  | get
  deriving DecidableEq, Repr

/-- What an operation returns. -/
inductive Out (V E : Type) where
  | ignored
  | created (call : Call)
  | pending
  | ready (result : Resolved V E)
  | panicked
  | dropped
  | set (result : SetResult V)
  | got (reference : Option V)
  deriving DecidableEq, Repr

namespace Sys

variable {V E : Type}

/-- A new cell that nobody uses yet. -/
def new : Sys V E := ⟨.new, [], [], fun _ => none, 0, fun _ => none, [], [], [], [], []⟩

/-- Whether the future is suspended in `wait`. -/
def waiting (s : Sys V E) (call : Call) : Prop :=
  call ∈ s.cell.waiters.parked.map Prod.fst ∨ call ∈ s.cell.waiters.woken.map Prod.fst

instance (s : Sys V E) (call : Call) : Decidable (s.waiting call) :=
  inferInstanceAs (Decidable (_ ∨ _))

/-- Call one of the methods. -/
def create (s : Sys V E) (kind : Kind) (value : Option V) : Out V E × Sys V E :=
  let call := ⟨s.calls, kind⟩
  (.created call, { s with
    fresh := s.fresh ++ [call]
    calls := s.calls + 1
    captured := Function.update s.captured call value
    given := Function.update s.given call value })

/-- Resolve a call with a result. -/
def resolve (s : Sys V E) (call : Call) (result : Resolved V E) : Out V E × Sys V E :=
  (.ready result, { s with resolved := s.resolved ++ [(call, result)] })

/-- Resolve a call with a reference: `insert` looks whether its value was taken,
`src/once_cell.rs:211–214`. -/
def finish (s : Sys V E) (call : Call) (reference : V) : Out V E × Sys V E :=
  match call.kind, s.captured call with
  | .insert, some value => s.resolve call (.rejected reference value)
  | _, _ => s.resolve call (.ok reference)

/-- Poll the initializer: that of `insert` takes the captured value and is done,
`src/once_cell.rs:209`, and others do what they do. -/
def pollInit (s : Sys V E) (call : Call) (outcome : Outcome V E) :
    Except Fault (Outcome V E × Sys V E) :=
  match call.kind with
  | .insert =>
    match s.captured call with
    | none => .error .unwrapNone
    | some value =>
      .ok (.ok value, { s with captured := Function.update s.captured call none })
  | _ => .ok (outcome, s)

/-- Record the value of a successful initializer. -/
def credit (s : Sys V E) (call : Call) (outcome : Outcome V E) : Sys V E :=
  match outcome with
  | .ok value => { s with produced := s.produced ++ [(.call call, value)] }
  | _ => s

/-- Poll a caller that owns the job. -/
def drive (s : Sys V E) (call : Call) (outcome : Outcome V E) :
    Except Fault (Out V E × Sys V E) := do
  let (outcome, s) ← s.pollInit call outcome
  let (progress, cell) ← s.cell.awaitInit outcome
  let s := { s.credit call outcome with cell := cell }
  match progress with
  | .running => .ok (.pending, { s with running := s.running ++ [call] })
  | .ok reference => .ok (s.finish call reference)
  | .err error => .ok (s.resolve call (.err error))
  | .panicked => .ok (.panicked, s)

/-- Go on from the point where `f` may be called. -/
def proceed (s : Sys V E) (call : Call) (entry : Entry V) (outcome : Outcome V E) :
    Except Fault (Out V E × Sys V E) :=
  match entry with
  | .wait => .ok (.pending, s)
  | .ready reference => .ok (s.finish call reference)
  | .invoke =>
    { s with invoked := s.invoked ++ [call], clashed := s.clashed ++ s.running }.drive call outcome

/-- Whether the initializer of a call can have an outcome: that of `get_or_init` cannot
fail, its error type is `Infallible`. -/
def admits (call : Call) : Outcome V E → Bool
  | .err _ => call.kind = .getOrTryInit
  | _ => true

/-- Poll a future. -/
def poll (s : Sys V E) (call : Call) (outcome : Outcome V E) : Except Fault (Out V E × Sys V E) :=
  if admits call outcome = false then .ok (.ignored, s)
  else if call ∈ s.fresh then do
    let (entry, cell) ← s.cell.enter call
    { s with cell := cell, fresh := s.fresh.erase call }.proceed call entry outcome
  else if s.waiting call then do
    let (entry, cell) ← s.cell.resume call
    { s with cell := cell }.proceed call entry outcome
  else if call ∈ s.running then
    { s with running := s.running.erase call }.drive call outcome
  else .ok (.ignored, s)

/-- Drop a future. -/
def cancel (s : Sys V E) (call : Call) : Except Fault (Out V E × Sys V E) :=
  if call ∈ s.fresh then .ok (.dropped, { s with fresh := s.fresh.erase call })
  else if s.waiting call then do
    let cell ← s.cell.dropWaiting call
    .ok (.dropped, { s with cell := cell })
  else if call ∈ s.running then do
    let cell ← s.cell.dropRunning
    .ok (.dropped, { s with cell := cell, running := s.running.erase call })
  else .ok (.ignored, s)

/-- Call `set`. -/
def set (s : Sys V E) (value : V) : Except Fault (Out V E × Sys V E) := do
  let (result, cell) ← s.cell.set value
  let s := match result with
    | .ok _ => { s with produced := s.produced ++ [(Source.set s.sets.length, value)] }
    | _ => s
  .ok (.set result, { s with cell := cell, sets := s.sets ++ [(value, result)] })

/-- One operation. -/
def step (s : Sys V E) : Op V E → Except Fault (Out V E × Sys V E)
  | .getOrTryInit => .ok (s.create .getOrTryInit none)
  | .getOrInit => .ok (s.create .getOrInit none)
  | .insert value => .ok (s.create .insert (some value))
  | .poll call outcome => s.poll call outcome
  | .cancel call => s.cancel call
  | .set value => s.set value
  | .get => .ok (.got s.cell.get, s)

/-- The calls whose closure was not called. -/
def pending (s : Sys V E) : List Call :=
  s.fresh ++ s.cell.waiters.parked.map Prod.fst ++ s.cell.waiters.woken.map Prod.fst

end Sys

section Invariant

variable {V E : Type}

/-- Who owns the job: nobody, exactly one caller that runs its initializer or holds a
baton, or nobody ever again. -/
def Job (s : Sys V E) : Prop :=
  match s.cell.state with
  | .uninit => s.cell.waiters.parked = [] ∧ s.cell.waiters.woken = [] ∧ s.running = []
  | .initializing => (s.running ++ s.cell.waiters.woken.map Prod.fst).length = 1
  | .initialized _ => s.cell.waiters.parked = [] ∧ s.running = []

/-- The value in the cell is the one value ever produced. -/
def Stored (s : Sys V E) : Prop :=
  match s.cell.state with
  | .initialized value => ∃ source, s.produced = [(source, value)]
  | _ => s.produced = []

/-- A source that already acted. -/
def Known (s : Sys V E) : Source → Prop
  | .call call => call ∈ s.invoked
  | .set index => index < s.sets.length

/-- What the result of a call says about the cell. -/
def Fits (s : Sys V E) (call : Call) : Resolved V E → Prop
  | .ok reference => s.cell.state = .initialized reference ∧
    (call.kind = .insert →
      s.given call = some reference ∧ s.produced = [(.call call, reference)])
  | .err _ => call.kind = .getOrTryInit
  | .rejected reference value => s.cell.state = .initialized reference ∧ call.kind = .insert ∧
    s.given call = some value ∧ ∀ v, (Source.call call, v) ∉ s.produced

/-- What the result of `set` says about the cell. -/
def SetFits (s : Sys V E) (index : Nat) (value : V) : SetResult V → Prop
  | .ok reference => reference = value ∧ s.cell.state = .initialized value ∧
    s.produced = [(.set index, value)]
  | .initializing own => own = value ∧ ∀ v, (Source.set index, v) ∉ s.produced
  | .initialized reference own => own = value ∧ s.cell.state = .initialized reference ∧
    ∀ v, (Source.set index, v) ∉ s.produced

/-- The books: closures are called once and one at a time, values are not lost, and every
result fits what is in the cell. -/
structure Ledger (s : Sys V E) : Prop where
  idle : s.cell.waiters.borrowed = false
  distinct : (s.pending ++ s.invoked).Nodup
  numbered : ∀ c ∈ s.pending ++ s.invoked ++ s.resolved.map Prod.fst, c.serial < s.calls
  captured : ∀ c ∈ s.pending, c.kind = .insert →
    ∃ value, s.captured c = some value ∧ s.given c = some value
  alone : s.clashed = []
  stored : Stored s
  sources : ∀ p ∈ s.produced, Known s p.1
  results : ∀ p ∈ s.resolved, Fits s p.1 p.2
  setResults : ∀ index value result, s.sets[index]? = some (value, result) →
    SetFits s index value result

/-- What holds between operations. -/
structure Inv (s : Sys V E) : Prop where
  ledger : Ledger s
  job : Job s
  begun : ∀ c ∈ s.running, c ∈ s.invoked ∧ c.kind ≠ .insert

/-- What holds in an operation on the caller that owns the job: nobody else does. -/
structure Owned (s : Sys V E) : Prop where
  ledger : Ledger s
  state : s.cell.state = .initializing
  running : s.running = []
  woken : s.cell.waiters.woken = []

/-- What holds when the owner is about to poll its initializer. -/
structure Held (s : Sys V E) (call : Call) : Prop extends Owned s where
  invoked : call ∈ s.invoked
  captured : call.kind = .insert →
    ∃ value, s.captured call = some value ∧ s.given call = some value

/-- The job went to the longest parked waiter, or the cell was reset as there was none. -/
def Passed (parked : List (Call × Unit)) (t : Sys V E) : Prop :=
  match parked with
  | [] => t.cell.state = .uninit
  | (heir, _) :: rest => t.cell.state = .initializing ∧ t.running = [] ∧
    t.cell.waiters.woken = [(heir, .baton)] ∧ t.cell.waiters.parked = rest

/-- Whether a poll ended with the caller giving up its attempt to initialize. -/
def Out.failed : Out V E → Bool
  | .ready (.err _) | .panicked => true
  | _ => false

/-- Later states keep the value in the cell and what is on record. -/
structure Extends (s t : Sys V E) : Prop where
  value : ∀ v, s.cell.state = .initialized v →
    t.cell.state = .initialized v ∧ t.produced = s.produced
  given : ∀ c, c.serial < s.calls → t.given c = s.given c
  sets : ∀ index v, index < s.sets.length →
    (Source.set index, v) ∈ t.produced → (Source.set index, v) ∈ s.produced

variable {s t : Sys V E}

private theorem Fits.extend {call : Call} {result : Resolved V E} (h : Fits s call result)
    (hn : call.serial < s.calls) (he : Extends s t) : Fits t call result := by
  cases result with
  | err => exact h
  | ok reference =>
    obtain ⟨hs, hp⟩ := he.value reference h.1
    refine ⟨hs, fun hk => ?_⟩
    rw [he.given call hn, hp]
    exact h.2 hk
  | rejected reference value =>
    obtain ⟨hs, hp⟩ := he.value reference h.1
    refine ⟨hs, h.2.1, ?_⟩
    rw [he.given call hn, hp]
    exact h.2.2

private theorem SetFits.extend {index : Nat} {value : V} {result : SetResult V}
    (h : SetFits s index value result) (hn : index < s.sets.length) (he : Extends s t) :
    SetFits t index value result := by
  cases result with
  | ok reference =>
    obtain ⟨hs, hp⟩ := he.value value h.2.1
    exact ⟨h.1, hs, by rw [hp]; exact h.2.2⟩
  | initializing own => exact ⟨h.1, fun v hv => h.2 v (he.sets index v hn hv)⟩
  | initialized reference own =>
    obtain ⟨hs, hp⟩ := he.value reference h.2.1
    exact ⟨h.1, hs, by rw [hp]; exact h.2.2⟩

/-! ### Keeping the books -/

/-- A new cell meets the invariant. -/
theorem Inv.new : Inv (Sys.new : Sys V E) where
  ledger := {
    idle := rfl
    distinct := List.nodup_nil
    numbered := fun _ hc => (List.not_mem_nil hc).elim
    captured := fun _ hc => (List.not_mem_nil hc).elim
    alone := rfl
    stored := rfl
    sources := fun _ hp => (List.not_mem_nil hp).elim
    results := fun _ hp => (List.not_mem_nil hp).elim
    setResults := fun _ _ _ h => by cases h }
  job := ⟨rfl, rfl, rfl⟩
  begun := fun _ hc => (List.not_mem_nil hc).elim

/-- A call that waits for its closure to be called has not called it. -/
theorem Ledger.not_invoked (h : Ledger s) {call : Call} (hc : call ∈ s.pending) :
    call ∉ s.invoked := fun hi => (List.nodup_append.mp h.distinct).2.2 call hc call hi rfl

private theorem Ledger.extend_results (h : Ledger s) (he : Extends s t) :
    ∀ p ∈ s.resolved, Fits t p.1 p.2 := by
  intro p hp
  have hn : p.1.serial < s.calls :=
    h.numbered _ (List.mem_append_right _ (List.mem_map.mpr ⟨p, hp, rfl⟩))
  exact (h.results p hp).extend hn he

private theorem Ledger.extend_setResults (h : Ledger s) (he : Extends s t) : ∀ index value result,
    s.sets[index]? = some (value, result) → SetFits t index value result := by
  intro index value result hr
  have hn : index < s.sets.length := (List.getElem?_eq_some_iff.mp hr).1
  exact (h.setResults index value result hr).extend hn he

/-- Calls may leave, move on or have their closure called. -/
theorem Ledger.shuffle (h : Ledger s) {cell : OnceCell V} {fresh running invoked : List Call}
    (hi : cell.waiters.borrowed = false)
    (hv : ∀ v, cell.state = .initialized v ↔ s.cell.state = .initialized v)
    (hinv : s.invoked ⊆ invoked)
    (hq : ∀ c, (fresh ++ cell.waiters.parked.map Prod.fst ++
      cell.waiters.woken.map Prod.fst).count c ≤ s.pending.count c)
    (hp : ∀ c, (fresh ++ cell.waiters.parked.map Prod.fst ++
      cell.waiters.woken.map Prod.fst ++ invoked).count c ≤ (s.pending ++ s.invoked).count c) :
    Ledger { s with cell := cell, fresh := fresh, running := running, invoked := invoked } := by
  have hmem : ∀ c ∈ fresh ++ cell.waiters.parked.map Prod.fst ++
      cell.waiters.woken.map Prod.fst, c ∈ s.pending := by
    intro c hc
    exact List.count_pos_iff.mp (Nat.lt_of_lt_of_le (List.count_pos_iff.mpr hc) (hq c))
  have hmem' : ∀ c ∈ fresh ++ cell.waiters.parked.map Prod.fst ++
      cell.waiters.woken.map Prod.fst ++ invoked, c ∈ s.pending ++ s.invoked := by
    intro c hc
    exact List.count_pos_iff.mp (Nat.lt_of_lt_of_le (List.count_pos_iff.mpr hc) (hp c))
  have he : Extends s { s with
      cell := cell, fresh := fresh, running := running, invoked := invoked } :=
    ⟨fun v hs => ⟨(hv v).mpr hs, rfl⟩, fun _ _ => rfl, fun _ _ _ hm => hm⟩
  refine ⟨hi, ?_, ?_, fun c hc => h.captured c (hmem c hc), h.alone, ?_, ?_,
    h.extend_results he, h.extend_setResults he⟩
  · exact List.nodup_iff_count_le_one.mpr fun c =>
      Nat.le_trans (hp c) (List.nodup_iff_count_le_one.mp h.distinct c)
  · intro c hc
    rcases List.mem_append.mp hc with hc | hc
    · exact h.numbered c (List.mem_append_left _ (hmem' c hc))
    · exact h.numbered c (List.mem_append_right _ hc)
  · have hs := h.stored
    unfold Stored at hs ⊢
    cases hc : s.cell.state with
    | initialized v =>
      rw [hc] at hs
      simpa only [(hv v).mpr hc] using hs
    | _ =>
      rw [hc] at hs
      cases hc' : cell.state with
      | initialized v => rw [(hv v).mp hc'] at hc; cases hc
      | _ => exact hs
  · intro p hp
    have hk := h.sources p hp
    obtain ⟨source, v⟩ := p
    cases source with
    | call c => exact hinv hk
    | set index => exact hk

private theorem Ledger.leave (h : Ledger s) {cell : OnceCell V} {fresh running : List Call}
    (hi : cell.waiters.borrowed = false)
    (hv : ∀ v, cell.state = .initialized v ↔ s.cell.state = .initialized v)
    (hq : ∀ c, (fresh ++ cell.waiters.parked.map Prod.fst ++
      cell.waiters.woken.map Prod.fst).count c ≤ s.pending.count c) :
    Ledger { s with cell := cell, fresh := fresh, running := running } := by
  apply h.shuffle hi hv (List.Subset.refl _) hq
  intro c
  have hc := hq c
  simp only [List.count_append] at hc ⊢
  omega

private theorem Ledger.resolve (h : Ledger s) {call : Call} {result : Resolved V E}
    (hn : call.serial < s.calls) (hf : Fits s call result) :
    Ledger (s.resolve call result).2 := by
  refine ⟨h.idle, h.distinct, ?_, h.captured, h.alone, h.stored, h.sources, ?_, h.setResults⟩
  · intro c hc
    simp only [Sys.resolve, List.map_append, ← List.append_assoc] at hc
    rcases List.mem_append.mp hc with hc | hc
    · exact h.numbered c hc
    · rw [List.mem_singleton.mp hc]
      exact hn
  · intro p hp
    rcases List.mem_append.mp hp with hp | hp
    · exact h.results p hp
    · rw [List.mem_singleton.mp hp]
      exact hf

/-- The value of the owner's initializer may be stored. -/
theorem Held.settle {call : Call} (h : Held s call) (value : V) {captured : Call → Option V}
    (hc : ∀ c, c ≠ call → captured c = s.captured c) :
    Ledger { s with
      cell := s.cell.settle value
      captured := captured
      produced := s.produced ++ [(.call call, value)] } := by
  have hl := h.ledger
  have hs := hl.stored
  simp only [Stored, h.state] at hs
  have hperm : (s.fresh ++ (s.cell.settle value).waiters.parked.map Prod.fst ++
      (s.cell.settle value).waiters.woken.map Prod.fst) = s.pending := by
    simp [OnceCell.settle, Sys.pending, h.woken, Function.comp_def]
  have he : Extends s { s with
      cell := s.cell.settle value
      captured := captured
      produced := s.produced ++ [(.call call, value)] } := by
    refine ⟨?_, fun _ _ => rfl, ?_⟩
    · intro v hv
      rw [h.state] at hv
      cases hv
    · intro index v _ hm
      simp [hs] at hm
  refine ⟨hl.idle, ?_, ?_, ?_, hl.alone, ⟨.call call, by rw [hs, List.nil_append]⟩, ?_,
    hl.extend_results he, hl.extend_setResults he⟩
  · rw [Sys.pending, hperm]
    exact hl.distinct
  · rw [Sys.pending, hperm]
    exact hl.numbered
  · intro c hm hk
    rw [Sys.pending, hperm] at hm
    have hne : c ≠ call := by
      rintro rfl
      exact hl.not_invoked hm h.invoked
    have hcap := hl.captured c hm hk
    rw [← hc c hne] at hcap
    exact hcap
  · intro p hp
    rw [hs, List.nil_append, List.mem_singleton] at hp
    rw [hp]
    exact h.invoked

/-- An owner that gives up passes the job on. -/
theorem Owned.passOn (h : Owned s) : Inv { s with cell := s.cell.passOn } ∧
    Passed s.cell.waiters.parked { s with cell := s.cell.passOn } := by
  have hs := h.state
  have hr := h.running
  have hw := h.woken
  cases hp : s.cell.waiters.parked with
  | nil =>
    have hc : s.cell.passOn = { s.cell with state := .uninit } := by
      simp [OnceCell.passOn, hs, hp]
    rw [hc]
    refine ⟨⟨?_, ⟨hp, hw, hr⟩, ?_⟩, rfl⟩
    · exact h.ledger.leave h.ledger.idle (by simp [hs]) (fun _ => Nat.le_refl _)
    · simp [hr]
  | cons p rest =>
    obtain ⟨heir, u⟩ := p
    have hc : s.cell.passOn = { s.cell with waiters := { s.cell.waiters with
        parked := rest, woken := [(heir, .baton)] } } := by
      simp [OnceCell.passOn, hs, hp, hw]
    rw [hc]
    have hcount : ∀ c, (s.fresh ++ rest.map Prod.fst ++ [heir]).count c = s.pending.count c := by
      intro c
      simp only [Sys.pending, hp, hw, List.map_cons, List.map_nil, List.append_nil,
        List.count_append, List.count_cons, List.count_nil]
      omega
    refine ⟨⟨?_, ?_, ?_⟩, hs, hr, rfl, rfl⟩
    · exact h.ledger.leave h.ledger.idle (by simp [hs]) (fun c => Nat.le_of_eq (hcount c))
    · simp [Job, hs, hr]
    · simp [hr]

private theorem Inv.resolve (h : Inv s) {call : Call} {result : Resolved V E}
    (hn : call.serial < s.calls) (hf : Fits s call result) : Inv (s.resolve call result).2 :=
  ⟨h.ledger.resolve hn hf, h.job, h.begun⟩

/-- A call whose value was taken, or that has none, resolves to the reference. -/
theorem finish_ok {call : Call} (hk : call.kind = .insert → s.captured call = none)
    (reference : V) : s.finish call reference = s.resolve call (.ok reference) := by
  unfold Sys.finish
  cases hc : call.kind with
  | insert => rw [hk hc]
  | _ => rfl

private theorem finish_rejected {call : Call} {value : V} (hk : call.kind = .insert)
    (hc : s.captured call = some value) (reference : V) :
    s.finish call reference = s.resolve call (.rejected reference value) := by
  simp [Sys.finish, hk, hc]

private theorem Held.numbered {call : Call} (h : Held s call) : call.serial < s.calls :=
  h.ledger.numbered call (List.mem_append_left _ (List.mem_append_right _ h.invoked))

private theorem Held.succeed {call : Call} (h : Held s call) (value : V)
    {captured : Call → Option V} (hc : ∀ c, c ≠ call → captured c = s.captured c)
    (hk : call.kind = .insert → captured call = none ∧ s.given call = some value) :
    ∃ t : Sys V E, { s with
        cell := s.cell.settle value
        captured := captured
        produced := s.produced ++ [(Source.call call, value)] }.finish call value =
      (.ready (.ok value), t) ∧ Inv t := by
  have hs := h.ledger.stored
  simp only [Stored, h.state] at hs
  refine ⟨_, finish_ok (fun hi => (hk hi).1) value, ?_⟩
  apply Inv.resolve
  · exact ⟨h.settle value hc, ⟨rfl, h.running⟩, by simp [h.running]⟩
  · exact h.numbered
  · refine ⟨rfl, fun hi => ⟨(hk hi).2, ?_⟩⟩
    simp [hs]

/-- A poll of an owner succeeds, and passes the job on if it fails. -/
theorem Held.drive {call : Call} (h : Held s call) {outcome : Outcome V E}
    (ha : Sys.admits call outcome = true) :
    ∃ out t, s.drive call outcome = .ok (out, t) ∧ Inv t ∧
      (out.failed = true → Passed s.cell.waiters.parked t) := by
  have hi := h.ledger.idle
  by_cases hk : call.kind = .insert
  · obtain ⟨value, hv, hg⟩ := h.captured hk
    have hinit : s.pollInit call outcome = .ok (.ok value,
        { s with captured := Function.update s.captured call none }) := by
      simp [Sys.pollInit, hk, hv]
    obtain ⟨t, ht, hinv⟩ := h.succeed value (fun c hne => Function.update_of_ne hne _ _)
      (fun _ => ⟨Function.update_self _ _ _, hg⟩)
    refine ⟨.ready (.ok value), t, ?_, hinv, fun hf => by cases hf⟩
    simp only [Sys.drive, hinit, ok_bind, awaitInit_ok hi, Sys.credit, ht]
  · have hinit : s.pollInit call outcome = .ok (outcome, s) := by
      unfold Sys.pollInit
      cases hc : call.kind with
      | insert => exact absurd hc hk
      | _ => rfl
    cases outcome with
    | pending =>
      refine ⟨.pending, { s with running := s.running ++ [call] }, ?_, ?_, fun hf => by cases hf⟩
      · simp only [Sys.drive, hinit, ok_bind, awaitInit, Sys.credit]
      · refine ⟨?_, ?_, ?_⟩
        · exact h.ledger.leave hi (fun _ => Iff.rfl) (fun _ => Nat.le_refl _)
        · simp [Job, h.state, h.running, h.woken]
        · intro c hc
          rw [h.running, List.nil_append, List.mem_singleton] at hc
          rw [hc]
          exact ⟨h.invoked, hk⟩
    | ok value =>
      obtain ⟨t, ht, hinv⟩ := h.succeed value (fun _ _ => rfl) (fun hi => absurd hi hk)
      refine ⟨.ready (.ok value), t, ?_, hinv, fun hf => by cases hf⟩
      simp only [Sys.drive, hinit, ok_bind, awaitInit_ok hi, Sys.credit, ht]
    | err error =>
      obtain ⟨hinv, hpass⟩ := h.passOn
      have hn : call.kind = .getOrTryInit := by simpa [Sys.admits] using ha
      have hres : Inv ({ s with cell := s.cell.passOn }.resolve call (.err error)).2 :=
        hinv.resolve h.numbered hn
      refine ⟨.ready (.err error), _, ?_, hres, fun _ => hpass⟩
      simp only [Sys.drive, hinit, ok_bind, awaitInit_err hi, Sys.credit]
      rfl
    | panic =>
      obtain ⟨hinv, hpass⟩ := h.passOn
      refine ⟨.panicked, _, ?_, hinv, fun _ => hpass⟩
      simp only [Sys.drive, hinit, ok_bind, awaitInit_panic hi, Sys.credit]

/-! ### Steps -/

/-- A call whose closure is called next owns the job. -/
theorem Inv.invoke (h : Inv s) (call : Call) (cell : OnceCell V) (fresh : List Call)
    (hi : cell.waiters.borrowed = false) (hs : cell.state = .initializing)
    (hr : s.running = []) (hw : cell.waiters.woken = [])
    (hv : ∀ v, s.cell.state ≠ .initialized v)
    (hq : ∀ c, (fresh ++ cell.waiters.parked.map Prod.fst).count c + [call].count c =
      s.pending.count c) :
    Held { s with
      cell := cell
      fresh := fresh
      invoked := s.invoked ++ [call]
      clashed := s.clashed ++ s.running } call := by
  have hc : call ∈ s.pending := by
    have hcall := hq call
    rw [List.count_singleton_self] at hcall
    exact List.count_pos_iff.mp (by omega)
  have hl : Ledger { s with cell := cell, fresh := fresh, invoked := s.invoked ++ [call] } := by
    apply h.ledger.shuffle hi
    · intro v
      constructor
      · intro h'
        rw [hs] at h'
        cases h'
      · intro h'
        exact absurd h' (hv v)
    · exact List.subset_append_left _ _
    · intro c
      have hcount := hq c
      simp only [hw, List.map_nil, List.append_nil]
      omega
    · intro c
      have hcount := hq c
      simp only [hw, List.map_nil, List.append_nil, List.count_append] at hcount ⊢
      omega
  have halone : s.clashed ++ s.running = s.clashed := by rw [hr, List.append_nil]
  refine ⟨⟨?_, hs, hr, hw⟩, ?_, fun hk => h.ledger.captured call hc hk⟩
  · simp only [halone]
    exact hl
  · simp

private theorem Inv.finish (h : Inv s) {call : Call} {v : V} (hn : call.serial < s.calls)
    (hs : s.cell.state = .initialized v) (hi : call ∉ s.invoked)
    (hc : call.kind = .insert →
      ∃ value, s.captured call = some value ∧ s.given call = some value) :
    ∃ out t, s.finish call v = (out, t) ∧ Inv t ∧ out.failed = false := by
  by_cases hk : call.kind = .insert
  · obtain ⟨value, hv, hg⟩ := hc hk
    have hfit : Fits s call (.rejected v value) := by
      refine ⟨hs, hk, hg, fun w hw => ?_⟩
      exact hi (h.ledger.sources _ hw)
    exact ⟨_, _, finish_rejected hk hv v, h.resolve hn hfit, rfl⟩
  · have hfit : Fits s call (.ok v) := ⟨hs, fun hk' => absurd hk' hk⟩
    exact ⟨_, _, finish_ok (fun hk' => absurd hk' hk) v, h.resolve hn hfit, rfl⟩

/-- A pending call has a number, and `insert` still has its value. -/
theorem Ledger.pending_numbered (h : Ledger s) {call : Call} (hc : call ∈ s.pending) :
    call.serial < s.calls :=
  h.numbered call (List.mem_append_left _ (List.mem_append_left _ hc))

private theorem mem_pending_fresh {call : Call} (hf : call ∈ s.fresh) : call ∈ s.pending :=
  List.mem_append_left _ (List.mem_append_left _ hf)

private theorem mem_pending_woken {call : Call} {b : Baton}
    (hw : s.cell.waiters.woken.lookup call = some b) : call ∈ s.pending :=
  List.mem_append_right _ (List.mem_map.mpr ⟨_, mem_of_lookup hw, rfl⟩)

private theorem pending_erase {call : Call} (hf : call ∈ s.fresh) (c : Call) :
    (s.fresh.erase call ++ s.cell.waiters.parked.map Prod.fst ++
      s.cell.waiters.woken.map Prod.fst).count c + [call].count c = s.pending.count c := by
  have hc := count_of_mem hf c
  simp only [Sys.pending, List.count_append] at hc ⊢
  omega

private theorem pending_collect {call : Call} {b : Baton}
    (hw : s.cell.waiters.woken.lookup call = some b) (c : Call) :
    (s.fresh ++ (s.cell.collect call).waiters.parked.map Prod.fst ++
      (s.cell.collect call).waiters.woken.map Prod.fst).count c + [call].count c =
      s.pending.count c := by
  have hc := count_eraseKey hw c
  simp only [Sys.pending, collect, List.count_append] at hc ⊢
  omega

private theorem Inv.leave_fresh (h : Inv s) {call : Call} (hf : call ∈ s.fresh) :
    Inv { s with fresh := s.fresh.erase call } := by
  refine ⟨h.ledger.leave h.ledger.idle (fun _ => Iff.rfl) fun c => ?_, h.job, h.begun⟩
  exact Nat.le_of_add_right_le (Nat.le_of_eq (pending_erase hf c))

private theorem Ledger.leave_woken (h : Ledger s) {call : Call} {b : Baton}
    (hw : s.cell.waiters.woken.lookup call = some b) :
    Ledger { s with cell := s.cell.collect call } :=
  h.leave h.idle (fun _ => Iff.rfl) fun c =>
    Nat.le_of_add_right_le (Nat.le_of_eq (pending_collect hw c))

private theorem Inv.leave_woken (h : Inv s) {call : Call} {b : Baton} {v : V}
    (hw : s.cell.waiters.woken.lookup call = some b) (hs : s.cell.state = .initialized v) :
    Inv { s with cell := s.cell.collect call } := by
  refine ⟨h.ledger.leave_woken hw, ?_, h.begun⟩
  have hj := h.job
  rw [Job, hs] at hj
  simpa only [Job, collect, hs] using hj

/-- The first poll of a call. -/
theorem Inv.poll_fresh (h : Inv s) {call : Call} {outcome : Outcome V E}
    (ha : Sys.admits call outcome = true) (hf : call ∈ s.fresh) :
    ∃ out t, s.poll call outcome = .ok (out, t) ∧ Inv t ∧
      (out.failed = true → Passed s.cell.waiters.parked t) := by
  have hl := h.ledger
  have hj := h.job
  have hpoll : s.poll call outcome = (do
      let (entry, cell) ← s.cell.enter call
      { s with cell := cell, fresh := s.fresh.erase call }.proceed call entry outcome) := by
    simp only [Sys.poll, ha, hf, if_true, Bool.true_eq_false, if_false]
  rw [hpoll]
  cases hs : s.cell.state with
  | uninit =>
    rw [Job, hs] at hj
    have hq : ∀ c, (s.fresh.erase call ++ s.cell.waiters.parked.map Prod.fst).count c +
        [call].count c = s.pending.count c := by
      intro c
      have hc := pending_erase hf c
      rwa [hj.2.1, List.map_nil, List.append_nil] at hc
    have hheld := h.invoke call { s.cell with state := .initializing } (s.fresh.erase call)
      hl.idle rfl hj.2.2 hj.2.1 (by simp [hs]) hq
    obtain ⟨out, t, hd, hinv, hp⟩ := hheld.drive ha
    refine ⟨out, t, ?_, hinv, hp⟩
    simp only [enter, hs, ok_bind, Sys.proceed]
    exact hd
  | initializing =>
    refine ⟨.pending, { s with
      cell := { s.cell with waiters := { s.cell.waiters with
        parked := s.cell.waiters.parked ++ [(call, ())] } }
      fresh := s.fresh.erase call }, ?_, ?_, fun hfail => by cases hfail⟩
    · simp only [enter, hs, WaitQueue.park_idle hl.idle, ok_bind, Sys.proceed]
    · have hq : ∀ c, (s.fresh.erase call ++ (s.cell.waiters.parked ++ [(call, ())]).map Prod.fst ++
          s.cell.waiters.woken.map Prod.fst).count c = s.pending.count c := by
        intro c
        have hc := pending_erase hf c
        simp only [List.map_append, List.map_cons, List.map_nil, List.count_append] at hc ⊢
        omega
      refine ⟨hl.leave hl.idle (fun _ => Iff.rfl) (fun c => Nat.le_of_eq (hq c)), ?_, h.begun⟩
      rw [Job, hs] at hj
      simpa only [Job, hs] using hj
  | initialized v =>
    have hinv := h.leave_fresh hf
    have hm := mem_pending_fresh hf
    obtain ⟨out, t, ht, hinv', hfail⟩ := hinv.finish (hl.pending_numbered hm) hs
      (hl.not_invoked hm) (hl.captured call hm)
    refine ⟨out, t, ?_, hinv', fun hf' => by rw [hfail] at hf'; cases hf'⟩
    simp only [enter, hs, ok_bind, Sys.proceed]
    rw [← ht]

/-- The only woken caller of a cell that is being initialized owns the job. -/
theorem Inv.sole_woken (h : Inv s) {call : Call} {b : Baton}
    (hs : s.cell.state = .initializing) (hw : s.cell.waiters.woken.lookup call = some b) :
    s.cell.waiters.woken = [(call, b)] ∧ s.running = [] := by
  have hj := h.job
  rw [Job, hs, List.length_append, List.length_map] at hj
  obtain ⟨l, r, hlr, -, -⟩ := lookup_split hw
  rw [hlr, List.length_append, List.length_cons] at hj
  have hl : l = [] := List.eq_nil_of_length_eq_zero (by omega)
  have hr : r = [] := List.eq_nil_of_length_eq_zero (by omega)
  exact ⟨by rw [hlr, hl, hr, List.nil_append], List.eq_nil_of_length_eq_zero (by omega)⟩

/-- The only running caller owns the job. -/
theorem Inv.sole_running (h : Inv s) {call : Call} (hr : call ∈ s.running) :
    s.cell.state = .initializing ∧ s.running = [call] ∧ s.cell.waiters.woken = [] := by
  have hj := h.job
  have hpos := List.length_pos_of_mem hr
  cases hs : s.cell.state with
  | uninit =>
    rw [Job, hs] at hj
    simp [hj.2.2] at hr
  | initialized v =>
    rw [Job, hs] at hj
    simp [hj.2] at hr
  | initializing =>
    rw [Job, hs, List.length_append, List.length_map] at hj
    obtain ⟨c, hc⟩ := List.length_eq_one_iff.mp (show s.running.length = 1 by omega)
    rw [hc, List.mem_singleton] at hr
    exact ⟨rfl, by rw [hc, hr], List.eq_nil_of_length_eq_zero (by omega)⟩

/-- A poll of a call that is suspended in `wait`. -/
theorem Inv.poll_waiting (h : Inv s) {call : Call} {outcome : Outcome V E}
    (ha : Sys.admits call outcome = true) (hf : call ∉ s.fresh) (hwait : s.waiting call) :
    ∃ out t, s.poll call outcome = .ok (out, t) ∧ Inv t ∧
      (out.failed = true → Passed s.cell.waiters.parked t) := by
  have hl := h.ledger
  have hpoll : s.poll call outcome = (do
      let (entry, cell) ← s.cell.resume call
      { s with cell := cell }.proceed call entry outcome) := by
    simp only [Sys.poll, ha, hf, hwait, if_true, Bool.true_eq_false, if_false]
  rw [hpoll]
  cases hw : s.cell.waiters.woken.lookup call with
  | none =>
    refine ⟨.pending, s, ?_, h, fun hfail => by cases hfail⟩
    simp only [resume_parked hl.idle hw, ok_bind, Sys.proceed]
  | some b =>
    have hm := mem_pending_woken hw
    cases hs : s.cell.state with
    | uninit =>
      have hj := h.job
      rw [Job, hs] at hj
      simp [hj.2.1] at hw
    | initializing =>
      obtain ⟨hsole, hrun⟩ := h.sole_woken hs hw
      have hcell : (s.cell.collect call).waiters.woken = [] := by simp [collect, hsole]
      have hq : ∀ c, (s.fresh ++ (s.cell.collect call).waiters.parked.map Prod.fst).count c +
          [call].count c = s.pending.count c := by
        intro c
        simp only [Sys.pending, collect, hsole, List.map_cons, List.map_nil, List.count_append]
      have hheld := h.invoke call (s.cell.collect call) s.fresh hl.idle hs hrun hcell
        (by simp [hs]) hq
      obtain ⟨out, t, hd, hinv, hp⟩ := hheld.drive ha
      refine ⟨out, t, ?_, hinv, hp⟩
      simp only [resume_invoke hl.idle hw hs, ok_bind, Sys.proceed]
      exact hd
    | initialized v =>
      have hinv := h.leave_woken hw hs
      obtain ⟨out, t, ht, hinv', hfail⟩ := hinv.finish (hl.pending_numbered hm) hs
        (hl.not_invoked hm) (hl.captured call hm)
      refine ⟨out, t, ?_, hinv', fun hf' => by rw [hfail] at hf'; cases hf'⟩
      simp only [resume_ready hl.idle hw hs, ok_bind, Sys.proceed]
      rw [← ht]

private theorem Inv.poll_running (h : Inv s) {call : Call} {outcome : Outcome V E}
    (ha : Sys.admits call outcome = true) (hf : call ∉ s.fresh) (hwait : ¬ s.waiting call)
    (hr : call ∈ s.running) :
    ∃ out t, s.poll call outcome = .ok (out, t) ∧ Inv t ∧
      (out.failed = true → Passed s.cell.waiters.parked t) := by
  have hl := h.ledger
  obtain ⟨hs, hrun, hw⟩ := h.sole_running hr
  have hheld : Held { s with running := s.running.erase call } call := by
    refine ⟨⟨hl.leave hl.idle (fun _ => Iff.rfl) (fun _ => Nat.le_refl _), hs, ?_, hw⟩,
      (h.begun call hr).1, fun hk => absurd hk (h.begun call hr).2⟩
    simp [hrun]
  obtain ⟨out, t, hd, hinv, hp⟩ := hheld.drive ha
  refine ⟨out, t, ?_, hinv, hp⟩
  simp only [Sys.poll, ha, hf, hwait, hr, if_true, Bool.true_eq_false, if_false]
  exact hd

/-- Every poll succeeds, and passes the job on if it fails. -/
theorem Inv.poll (h : Inv s) (call : Call) (outcome : Outcome V E) :
    ∃ out t, s.poll call outcome = .ok (out, t) ∧ Inv t ∧
      (out.failed = true → Passed s.cell.waiters.parked t) := by
  cases ha : Sys.admits call outcome with
  | false =>
    refine ⟨.ignored, s, ?_, h, fun hfail => by cases hfail⟩
    simp only [Sys.poll, ha, if_true]
  | true =>
    by_cases hf : call ∈ s.fresh
    · exact h.poll_fresh ha hf
    · by_cases hwait : s.waiting call
      · exact h.poll_waiting ha hf hwait
      · by_cases hr : call ∈ s.running
        · exact h.poll_running ha hf hwait hr
        · refine ⟨.ignored, s, ?_, h, fun hfail => by cases hfail⟩
          simp only [Sys.poll, ha, hf, hwait, hr, Bool.true_eq_false, if_false]

/-- Whether a call owns the job of an initializing cell: it runs its initializer, or was
woken and has yet to take over. -/
def Owner (s : Sys V E) (call : Call) : Prop :=
  s.cell.state = .initializing ∧
    (call ∈ s.running ∨ call ∈ s.cell.waiters.woken.map Prod.fst)

/-- Cancelling a parked call only takes it out of the queue. -/
theorem Inv.cancel_parked (h : Inv s) {call : Call} {u : Unit}
    (hp : s.cell.waiters.parked.lookup call = some u) :
    Inv { s with cell := { s.cell with waiters := { s.cell.waiters with
      parked := eraseKey call s.cell.waiters.parked } } } := by
  have hl := h.ledger
  have hj := h.job
  refine ⟨hl.leave hl.idle (fun _ => Iff.rfl) ?_, ?_, h.begun⟩
  · intro c
    have hc := count_eraseKey hp c
    simp only [Sys.pending, List.count_append] at hc ⊢
    omega
  · cases hs : s.cell.state with
    | initializing =>
      rw [Job, hs] at hj
      simpa only [Job, hs] using hj
    | _ =>
      rw [Job, hs] at hj
      simp [hj.1] at hp

/-- Cancelling a woken call passes a live baton on. -/
theorem Inv.cancel_woken (h : Inv s) {call : Call} {b : Baton}
    (hw : s.cell.waiters.woken.lookup call = some b) :
    Inv { s with cell := (s.cell.collect call).passOn } ∧
      (s.cell.state = .initializing →
        Passed s.cell.waiters.parked { s with cell := (s.cell.collect call).passOn }) := by
  cases hs : s.cell.state with
  | uninit =>
    have hj := h.job
    rw [Job, hs] at hj
    simp [hj.2.1] at hw
  | initializing =>
    obtain ⟨hsole, hrun⟩ := h.sole_woken hs hw
    have hown : Owned { s with cell := s.cell.collect call } :=
      ⟨h.ledger.leave_woken hw, hs, hrun, by simp [collect, hsole]⟩
    exact ⟨hown.passOn.1, fun _ => hown.passOn.2⟩
  | initialized v =>
    have hstay : (s.cell.collect call).passOn = s.cell.collect call := by
      simp [OnceCell.passOn, collect, hs]
    refine ⟨?_, fun hi => by cases hi⟩
    rw [hstay]
    exact h.leave_woken hw hs

/-- An owner is neither unpolled nor parked, and a running one is not in the list. -/
theorem Inv.owner_place (h : Inv s) {call : Call} (ho : Owner s call) :
    call ∉ s.fresh ∧ call ∉ s.cell.waiters.parked.map Prod.fst ∧
      (call ∈ s.running → ¬ s.waiting call) := by
  have hd := (List.nodup_append.mp h.ledger.distinct).1
  have hfpw := List.nodup_append.mp hd
  rcases ho.2 with hr | hw
  · have hni : ∀ c ∈ s.pending, c ≠ call := by
      rintro c hc rfl
      exact h.ledger.not_invoked hc (h.begun c hr).1
    refine ⟨fun hf => hni call (mem_pending_fresh hf) rfl, fun hp => ?_, fun _ hwait => ?_⟩
    · exact hni call (List.mem_append_left _ (List.mem_append_right _ hp)) rfl
    · rcases hwait with hp | hw
      · exact hni call (List.mem_append_left _ (List.mem_append_right _ hp)) rfl
      · exact hni call (List.mem_append_right _ hw) rfl
  · refine ⟨fun hf => ?_, fun hp => ?_, fun hr => ?_⟩
    · exact hfpw.2.2 call (List.mem_append_left _ hf) call hw rfl
    · exact hfpw.2.2 call (List.mem_append_right _ hp) call hw rfl
    · exact absurd (h.begun call hr).1 (h.ledger.not_invoked (List.mem_append_right _ hw))

/-- Every cancellation succeeds, and that of an owner passes the job on. -/
theorem Inv.cancel (h : Inv s) (call : Call) :
    ∃ out t, s.cancel call = .ok (out, t) ∧ Inv t ∧ out.failed = false ∧
      (Owner s call → Passed s.cell.waiters.parked t) := by
  have hl := h.ledger
  by_cases hf : call ∈ s.fresh
  · refine ⟨.dropped, { s with fresh := s.fresh.erase call }, ?_, h.leave_fresh hf, rfl,
      fun ho => absurd hf (h.owner_place ho).1⟩
    simp only [Sys.cancel, hf, if_true]
  · by_cases hwait : s.waiting call
    · cases hp : s.cell.waiters.parked.lookup call with
      | some u =>
        refine ⟨.dropped, _, ?_, h.cancel_parked hp, rfl, fun ho => ?_⟩
        · simp only [Sys.cancel, hf, hwait, if_true, if_false, dropWaiting_parked hl.idle hp,
            ok_bind]
        · exact absurd (List.mem_map.mpr ⟨_, mem_of_lookup hp, rfl⟩) (h.owner_place ho).2.1
      | none =>
        cases hw : s.cell.waiters.woken.lookup call with
        | none => exact absurd hwait (by simp [Sys.waiting, lookup_none.mp hp, lookup_none.mp hw])
        | some b =>
          obtain ⟨hinv, hpass⟩ := h.cancel_woken hw
          refine ⟨.dropped, _, ?_, hinv, rfl, fun ho => hpass ho.1⟩
          simp only [Sys.cancel, hf, hwait, if_true, if_false, dropWaiting_woken hl.idle hp hw,
            ok_bind]
    · by_cases hr : call ∈ s.running
      · obtain ⟨hs, hrun, hw⟩ := h.sole_running hr
        have hown : Owned { s with running := s.running.erase call } := by
          refine ⟨hl.leave hl.idle (fun _ => Iff.rfl) (fun _ => Nat.le_refl _), hs, ?_, hw⟩
          simp [hrun]
        obtain ⟨hinv, hpass⟩ := hown.passOn
        refine ⟨.dropped, _, ?_, hinv, rfl, fun _ => hpass⟩
        simp only [Sys.cancel, hf, hwait, hr, if_true, if_false, dropRunning,
          dropBaton_eq hl.idle, ok_bind]
      · refine ⟨.ignored, s, ?_, h, rfl, fun ho => ?_⟩
        · simp only [Sys.cancel, hf, hwait, hr, if_false]
        · rcases ho.2 with hr' | hw
          · exact absurd hr' hr
          · exact absurd (Or.inr hw) hwait

/-- Calling a method adds a call with the next number. -/
theorem Inv.create (h : Inv s) (kind : Kind) (value : Option V)
    (hk : kind = .insert → ∃ v, value = some v) : Inv (s.create kind value).2 := by
  have hl := h.ledger
  have hperm : ((s.create kind value).2.pending ++ s.invoked).Perm
      (⟨s.calls, kind⟩ :: (s.pending ++ s.invoked)) := by
    rw [List.perm_iff_count]
    intro c
    simp only [Sys.pending, Sys.create, List.count_append, List.count_cons, List.count_nil]
    omega
  have hnew : ∀ c : Call, c.serial < s.calls → c ≠ ⟨s.calls, kind⟩ := by
    rintro c hc rfl
    exact Nat.lt_irrefl _ hc
  have he : Extends s (s.create kind value).2 :=
    ⟨fun v hv => ⟨hv, rfl⟩, fun c hc => Function.update_of_ne (hnew c hc) _ _, fun _ _ _ hm => hm⟩
  refine ⟨⟨hl.idle, ?_, ?_, ?_, hl.alone, hl.stored, hl.sources, hl.extend_results he,
    hl.extend_setResults he⟩, h.job, h.begun⟩
  · refine hperm.nodup_iff.mpr (List.nodup_cons.mpr ⟨fun hm => ?_, hl.distinct⟩)
    exact hnew _ (hl.numbered _ (List.mem_append_left _ hm)) rfl
  · intro c hc
    rcases List.mem_append.mp hc with hc | hc
    · rcases List.mem_cons.mp (hperm.mem_iff.mp hc) with rfl | hc
      · exact Nat.lt_succ_self _
      · exact Nat.lt_succ_of_lt (hl.numbered c (List.mem_append_left _ hc))
    · exact Nat.lt_succ_of_lt (hl.numbered c (List.mem_append_right _ hc))
  · intro c hc hkind
    by_cases hcn : c = ⟨s.calls, kind⟩
    · subst hcn
      obtain ⟨v, rfl⟩ := hk hkind
      exact ⟨v, Function.update_self _ _ _, Function.update_self _ _ _⟩
    · have hold : c ∈ s.pending := by
        simp only [Sys.pending, Sys.create, List.mem_append, List.mem_singleton] at hc ⊢
        tauto
      obtain ⟨v, hcap, hgiv⟩ := hl.captured c hold hkind
      refine ⟨v, ?_, ?_⟩
      · rw [← hcap]
        exact Function.update_of_ne hcn _ _
      · rw [← hgiv]
        exact Function.update_of_ne hcn _ _

private theorem Ledger.not_set (h : Ledger s) (v : V) :
    (Source.set s.sets.length, v) ∉ s.produced :=
  fun hm => Nat.lt_irrefl _ (h.sources _ hm)

private theorem getElem?_concat {α : Type} {xs : List α} {x y : α} {i : Nat}
    (h : (xs ++ [x])[i]? = some y) : xs[i]? = some y ∨ i = xs.length ∧ y = x := by
  rw [List.getElem?_append] at h
  split at h
  · exact Or.inl h
  · next hge =>
    obtain ⟨hlt, hv⟩ := List.getElem?_eq_some_iff.mp h
    rw [List.length_singleton] at hlt
    have hi : i = xs.length := by omega
    subst hi
    simp only [Nat.sub_self, List.getElem_cons_zero] at hv
    exact Or.inr ⟨rfl, hv.symm⟩

private theorem Ledger.record (h : Ledger s) {value : V} {result : SetResult V}
    (hf : SetFits s s.sets.length value result) :
    Ledger { s with sets := s.sets ++ [(value, result)] } := by
  refine ⟨h.idle, h.distinct, h.numbered, h.captured, h.alone, h.stored, ?_, h.results, ?_⟩
  · rintro ⟨source, v⟩ hp
    have hk := h.sources _ hp
    cases source with
    | call c => exact hk
    | set index =>
      simp only [Known, List.length_append, List.length_singleton] at hk ⊢
      omega
  · intro index v r hr
    rcases getElem?_concat hr with hr | ⟨rfl, he⟩
    · exact h.setResults index v r hr
    · cases he
      exact hf

/-- Every `set` succeeds. -/
theorem Inv.set (h : Inv s) (value : V) :
    ∃ result t, s.set value = .ok (.set result, t) ∧ Inv t := by
  have hl := h.ledger
  have hj := h.job
  cases hs : s.cell.state with
  | uninit =>
    rw [Job, hs] at hj
    have hst := hl.stored
    rw [Stored, hs] at hst
    have he : Extends s { s with
        cell := { s.cell with state := .initialized value }
        produced := s.produced ++ [(Source.set s.sets.length, value)]
        sets := s.sets ++ [(value, .ok value)] } := by
      refine ⟨fun v hv => ?_, fun _ _ => rfl, fun index v hi hm => ?_⟩
      · rw [hs] at hv
        cases hv
      · simp only [hst, List.nil_append, List.mem_singleton, Prod.mk.injEq, Source.set.injEq] at hm
        omega
    have hnew : s.produced ++ [(Source.set s.sets.length, value)] =
        [(.set s.sets.length, value)] := by rw [hst, List.nil_append]
    refine ⟨.ok value, { s with
      cell := { s.cell with state := .initialized value }
      produced := s.produced ++ [(Source.set s.sets.length, value)]
      sets := s.sets ++ [(value, .ok value)] }, ?_, ⟨hl.idle, hl.distinct, hl.numbered, hl.captured,
      hl.alone, ⟨_, hnew⟩, ?_, hl.extend_results he, ?_⟩, ⟨hj.1, hj.2.2⟩, h.begun⟩
    · simp only [Sys.set, OnceCell.set, hs, OnceCell.get, ok_bind]
    · intro p hp
      rw [hnew, List.mem_singleton] at hp
      rw [hp]
      simp [Known]
    · intro index v r hr
      rcases getElem?_concat hr with hr | ⟨rfl, hlast⟩
      · exact hl.extend_setResults he index v r hr
      · cases hlast
        exact ⟨rfl, rfl, hnew⟩
  | initializing =>
    have hf : SetFits s s.sets.length value (.initializing value) := ⟨rfl, hl.not_set⟩
    refine ⟨.initializing value, _, ?_, hl.record hf, h.job, h.begun⟩
    simp only [Sys.set, OnceCell.set, hs, ok_bind]
  | initialized v =>
    have hf : SetFits s s.sets.length value (.initialized v value) := ⟨rfl, hs, hl.not_set⟩
    refine ⟨.initialized v value, _, ?_, hl.record hf, h.job, h.begun⟩
    simp only [Sys.set, OnceCell.set, hs, ok_bind]

/-- Whether an operation made an owner give up. -/
def GivesUp (s : Sys V E) (op : Op V E) (out : Out V E) : Prop :=
  out.failed = true ∨ ∃ call, op = .cancel call ∧ Owner s call

/-- Every operation succeeds, and an owner that gives up passes the job on. -/
theorem Inv.step (h : Inv s) (op : Op V E) :
    ∃ out t, s.step op = .ok (out, t) ∧ Inv t ∧
      (GivesUp s op out → Passed s.cell.waiters.parked t) := by
  have hnot : ∀ {out : Out V E} {t : Sys V E}, out.failed = false → (∀ call, op ≠ .cancel call) →
      GivesUp s op out → Passed s.cell.waiters.parked t := by
    rintro out t hf hc (hf' | ⟨call, rfl, -⟩)
    · rw [hf] at hf'
      cases hf'
    · exact absurd rfl (hc call)
  cases op with
  | getOrTryInit =>
    exact ⟨_, _, rfl, h.create _ _ (fun hk => by cases hk), hnot rfl (by simp)⟩
  | getOrInit =>
    exact ⟨_, _, rfl, h.create _ _ (fun hk => by cases hk), hnot rfl (by simp)⟩
  | insert value => exact ⟨_, _, rfl, h.create _ _ (fun _ => ⟨value, rfl⟩), hnot rfl (by simp)⟩
  | poll call outcome =>
    obtain ⟨out, t, hs, hinv, hp⟩ := h.poll call outcome
    refine ⟨out, t, hs, hinv, ?_⟩
    rintro (hf | ⟨c, hc, -⟩)
    · exact hp hf
    · cases hc
  | cancel call =>
    obtain ⟨out, t, hs, hinv, hfail, hp⟩ := h.cancel call
    refine ⟨out, t, hs, hinv, ?_⟩
    rintro (hf | ⟨c, hc, ho⟩)
    · rw [hfail] at hf
      cases hf
    · cases hc
      exact hp ho
  | set value =>
    obtain ⟨result, t, hs, hinv⟩ := h.set value
    exact ⟨_, t, hs, hinv, hnot rfl (by simp)⟩
  | get => exact ⟨_, _, rfl, h, hnot rfl (by simp)⟩

/-- Every run succeeds and meets the invariant. -/
theorem run_inv (ops : List (Op V E)) :
    ∃ outs s, run Sys.step (Sys.new : Sys V E) ops = .ok (outs, s) ∧ Inv s := by
  apply run_invariant _ Inv.new
  intro s op h
  obtain ⟨out, t, hs, ht, -⟩ := h.step op
  exact ⟨out, t, hs, ht⟩

end Invariant

end OnceCell
end Unsync
