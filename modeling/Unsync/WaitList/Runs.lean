import Unsync.WaitList.Refine
import Mathlib.Data.List.Perm.Basic

/-!
# Runs of wait futures on one list

Any number of `wait` futures, created, polled and dropped in any order, between calls of
`wake_one` and `head_input`. The log records what entered and left; it is never read by the
code. From one invariant follow that the pointers represent the waiters that are queued, and
that every input and every output is in exactly one place.
-/

namespace Unsync
namespace WaitList

open DoublyLinked Runs

variable {I O W : Type}

/-- What entered and left the list, in the order it happened. -/
structure Log (I O : Type) where
  /-- Inputs moved into a `wait` future. -/
  entered : List (Addr × I)
  /-- First polls. -/
  enqueued : List Addr
  /-- Successful `wake_one` calls: the dequeued waiter, its input and the output stored. -/
  handed : List (Addr × I × O)
  /-- Outputs passed to `wake_one`. -/
  passed : List O
  /-- Outputs given back in `WakeOneError`. -/
  refused : List O
  /-- Outputs returned by a finished future. -/
  resolved : List (Addr × O)
  /-- Inputs dropped with a future that was not woken. -/
  droppedInputs : List (Addr × I)
  /-- Outputs dropped with a future that was woken. -/
  droppedOutputs : List (Addr × O)

namespace Log

/-- The waiters that were enqueued and neither woken nor dropped, oldest first. -/
def waiting (g : Log I O) : List Addr :=
  g.enqueued.filter fun a => a ∉ g.handed.map (·.1) ∧ a ∉ g.droppedInputs.map Prod.fst

/-- The inputs returned by `wake_one`. -/
def returned (g : Log I O) : List (Addr × I) := g.handed.map fun p => (p.1, p.2.1)

/-- The outputs that `wake_one` stored in a waiter. -/
def stored (g : Log I O) : List (Addr × O) := g.handed.map fun p => (p.1, p.2.2)

end Log

/-- A wait list with the futures on it that were created and not polled. -/
structure Sys (I O W : Type) where
  list : WaitList I O W
  unresumed : List (Addr × I)
  next : Addr
  log : Log I O

/-- A new list without futures. -/
def Sys.new : Sys I O W := ⟨WaitList.new, [], 0, ⟨[], [], [], [], [], [], [], []⟩⟩

/-- What a client of the list can do between two polls. -/
inductive Op (I O W : Type) where
  | wait (input : I)
  | poll (a : Addr) (cx : W)
  | drop (a : Addr)
  | wakeOne (output : O)
  | headInput

/-- What a client sees. -/
inductive Out (I O : Type) where
  | created (a : Addr)
  | pending
  | ready (output : O)
  | dropped
  | woke (input : I)
  | wakeOneError (output : O)
  | head (input : Option I)
  /-- No future lives at that address: such a call cannot be written. -/
  | ignored
  deriving DecidableEq, Repr

namespace Sys

variable [Waker W]

/-- One poll of the future at `a`. -/
def poll (s : Sys I O W) (a : Addr) (cx : W) : Except Fault (Out I O × Sys I O W) :=
  match s.unresumed.lookup a with
  | some i => do
    let (o?, l) ← s.list.waitFirst a i cx
    let s := { s with
      list := l
      unresumed := eraseKey a s.unresumed
      log := { s.log with enqueued := s.log.enqueued ++ [a] } }
    match o? with
    | none => .ok (.pending, s)
    | some o =>
      .ok (.ready o, { s with log := { s.log with resolved := s.log.resolved ++ [(a, o)] } })
  | none =>
    if (s.list.memory a).isSome then do
      let (o?, l) ← s.list.waitAgain a cx
      let s := { s with list := l }
      match o? with
      | none => .ok (.pending, s)
      | some o =>
        .ok (.ready o, { s with log := { s.log with resolved := s.log.resolved ++ [(a, o)] } })
    else .ok (.ignored, s)

/-- The drop of the future at `a`. -/
def drop (s : Sys I O W) (a : Addr) : Except Fault (Out I O × Sys I O W) :=
  match s.unresumed.lookup a with
  | some i =>
    .ok (.dropped, { s with
      unresumed := eraseKey a s.unresumed
      log := { s.log with droppedInputs := s.log.droppedInputs ++ [(a, i)] } })
  | none =>
    if (s.list.memory a).isSome then do
      let (owned, l) ← s.list.waitDrop a
      let s := { s with list := l }
      match owned with
      | .input i =>
        .ok (.dropped, { s with
          log := { s.log with droppedInputs := s.log.droppedInputs ++ [(a, i)] } })
      | .output o =>
        .ok (.dropped, { s with
          log := { s.log with droppedOutputs := s.log.droppedOutputs ++ [(a, o)] } })
    else .ok (.ignored, s)

/-- `list.borrow().wake_one(output)`. -/
def wakeOne (s : Sys I O W) (output : O) : Except Fault (Out I O × Sys I O W) := do
  let l ← s.list.borrow
  let (r, l') ← l.wakeOne output
  let l' ← l'.unborrow
  match r with
  | .ok i =>
    .ok (.woke i, { s with
      list := l'
      log := { s.log with
        passed := s.log.passed ++ [output]
        handed := s.log.handed ++ l.head.toList.map fun a => (a, i, output) } })
  | .error o =>
    .ok (.wakeOneError o, { s with
      list := l'
      log := { s.log with
        passed := s.log.passed ++ [output]
        refused := s.log.refused ++ [o] } })

/-- `list.borrow().head_input()`. -/
def headInput (s : Sys I O W) : Except Fault (Out I O × Sys I O W) := do
  let l ← s.list.borrow
  let i? ← l.headInput
  let l ← l.unborrow
  .ok (.head i?, { s with list := l })

/-- One operation. -/
def step (s : Sys I O W) : Op I O W → Except Fault (Out I O × Sys I O W)
  | .wait input =>
    .ok (.created s.next, { s with
      unresumed := s.unresumed ++ [(s.next, input)]
      next := s.next + 1
      log := { s.log with entered := s.log.entered ++ [(s.next, input)] } })
  | .poll a cx => s.poll a cx
  | .drop a => s.drop a
  | .wakeOne output => s.wakeOne output
  | .headInput => s.headInput

end Sys

/-! ### The invariant of every run -/

/-- The list represents a queue, and the log accounts for everything in it. -/
structure Inv (s : Sys I O W) (q : WaitQueue Addr I O) : Prop where
  rep : Rep s.list q
  idle : q.borrowed = false
  inputs : s.log.entered.Perm
    (s.unresumed ++ q.parked ++ s.log.returned ++ s.log.droppedInputs)
  outputs : s.log.stored.Perm (q.woken ++ s.log.resolved ++ s.log.droppedOutputs)
  passed : s.log.passed.Perm (s.log.handed.map (·.2.2) ++ s.log.refused)
  calls : (s.log.entered.map Prod.fst).Nodup
  bound : ∀ a ∈ s.log.entered.map Prod.fst, a < s.next
  order : q.parked.map Prod.fst = s.log.waiting
  polled : ∀ a ∈ s.log.enqueued, a < s.next ∧ a ∉ s.unresumed.map Prod.fst

/-- A new list meets the invariant. -/
theorem Inv.new : Inv (Sys.new : Sys I O W) WaitQueue.empty where
  rep := Rep.new
  idle := rfl
  inputs := List.Perm.refl _
  outputs := List.Perm.refl _
  passed := List.Perm.refl _
  calls := List.nodup_nil
  bound := by simp [Sys.new]
  order := rfl
  polled := by simp [Sys.new]

/-- What an operation does to the waiters, to the wakers woken and to the waiters woken. -/
inductive Change [Waker W] (s t : Sys I O W) : Op I O W → Out I O → Prop where
  | parked {a : Addr} {cx : W} {i : I} {w : W} (he : Elsewhere s.list t.list a)
    (hw : t.list.wakes = s.list.wakes) (hl : t.log.handed = s.log.handed)
    (ha : t.list.contents a = some (.input i, some w)) (ht : Waker.task w = Waker.task cx) :
    Change s t (.poll a cx) .pending
  | resolved {a : Addr} {cx : W} {o : O} (he : Elsewhere s.list t.list a)
    (hw : t.list.wakes = s.list.wakes) (hl : t.log.handed = s.log.handed) :
    Change s t (.poll a cx) (.ready o)
  | dropped {a : Addr} (he : Elsewhere s.list t.list a) (hw : t.list.wakes = s.list.wakes)
    (hl : t.log.handed = s.log.handed) : Change s t (.drop a) .dropped
  | woke {a : Addr} {i : I} {o : O} {w : W} (he : Elsewhere s.list t.list a)
    (hh : s.list.head = some a) (hs : s.list.contents a = some (.input i, some w))
    (ht : t.list.contents a = some (.output o, none))
    (hw : t.list.wakes = s.list.wakes ++ [w])
    (hl : t.log.handed = s.log.handed ++ [(a, i, o)]) : Change s t (.wakeOne o) (.woke i)
  | created {i : I} {a : Addr} (he : t.list = s.list) (hl : t.log.handed = s.log.handed) :
    Change s t (.wait i) (.created a)
  | refused {o : O} (he : t.list = s.list) (hl : t.log.handed = s.log.handed) :
    Change s t (.wakeOne o) (.wakeOneError o)
  | head {i : Option I} : t = s → Change s t .headInput (.head i)
  | ignored {op : Op I O W} : t = s → Change s t op .ignored

variable {s : Sys I O W} {q : WaitQueue Addr I O}

private theorem stored_keys (g : Log I O) :
    g.stored.map Prod.fst = g.returned.map Prod.fst := by
  simp [Log.stored, Log.returned, Function.comp_def]

/-- The calls whose inputs are in different places are different calls. -/
theorem Inv.keys_nodup (h : Inv s q) :
    (s.unresumed.map Prod.fst ++ q.parked.map Prod.fst ++ s.log.returned.map Prod.fst ++
      s.log.droppedInputs.map Prod.fst).Nodup := by
  have hp := h.inputs.map Prod.fst
  simp only [List.map_append] at hp
  exact hp.nodup_iff.mp h.calls

/-- A woken waiter was handed an output. -/
theorem Inv.woken_handed (h : Inv s q) {a : Addr} (ha : a ∈ q.woken.map Prod.fst) :
    a ∈ s.log.returned.map Prod.fst := by
  rw [← stored_keys]
  have hp := h.outputs.map Prod.fst
  rw [hp.mem_iff]
  simp only [List.map_append, List.mem_append]
  exact Or.inl (Or.inl ha)

/-- A future that was not polled has no waiter in memory. -/
theorem Inv.unresumed_fresh (h : Inv s q) {a : Addr} (ha : a ∈ s.unresumed.map Prod.fst) :
    s.list.contents a = none := by
  have hd := h.keys_nodup
  rw [List.append_assoc, List.append_assoc, List.nodup_append] at hd
  by_contra hc
  rcases h.rep.owned a hc with hp | hw
  · exact hd.2.2 a ha a (by simp only [List.mem_append]; exact Or.inl hp) rfl
  · have hr := h.woken_handed hw
    exact hd.2.2 a ha a (by simp only [List.mem_append]; exact Or.inr (Or.inl hr)) rfl

private theorem waiting_without {g g' : Log I O} {a : Addr} (he : g'.enqueued = g.enqueued)
    (hg : ∀ b, (b ∉ g'.handed.map (·.1) ∧ b ∉ g'.droppedInputs.map Prod.fst) ↔
      (b ∉ g.handed.map (·.1) ∧ b ∉ g.droppedInputs.map Prod.fst) ∧ b ≠ a) :
    g'.waiting = g.waiting.filter (fun b => b ≠ a) := by
  simp only [Log.waiting, List.filter_filter, he]
  apply List.filter_congr
  intro b _
  rw [← Bool.decide_and, decide_eq_decide, hg b, and_comm]

private theorem waiting_handed (g : Log I O) (a : Addr) (i : I) (o : O) :
    ({ g with handed := g.handed ++ [(a, i, o)] } : Log I O).waiting =
      g.waiting.filter (fun b => b ≠ a) := by
  refine waiting_without rfl fun b => ?_
  simp only [List.map_append, List.map_cons, List.map_nil, List.mem_append, List.mem_singleton]
  tauto

private theorem waiting_dropped (g : Log I O) (a : Addr) (i : I) :
    ({ g with droppedInputs := g.droppedInputs ++ [(a, i)] } : Log I O).waiting =
      g.waiting.filter (fun b => b ≠ a) := by
  refine waiting_without rfl fun b => ?_
  simp only [List.map_append, List.map_cons, List.map_nil, List.mem_append, List.mem_singleton]
  tauto

/-! ### Step lemmas -/

/-- Creating a `wait` future moves its input into the future. -/
theorem Inv.wait (h : Inv s q) (i : I) :
    Inv { s with
      unresumed := s.unresumed ++ [(s.next, i)]
      next := s.next + 1
      log := { s.log with entered := s.log.entered ++ [(s.next, i)] } } q where
  rep := h.rep
  idle := h.idle
  inputs := by
    refine perm_recount h.inputs fun _ x hx => ?_
    simp only [List.count_append, Log.returned] at hx ⊢
    omega
  outputs := h.outputs
  passed := h.passed
  calls := by
    simp only [List.map_append, List.map_cons, List.map_nil, List.nodup_append]
    refine ⟨h.calls, List.nodup_singleton _, ?_⟩
    intro a ha b hb
    rw [List.mem_singleton] at hb
    rw [hb]
    exact Nat.ne_of_lt (h.bound a ha)
  bound := by
    intro a ha
    simp only [List.map_append, List.map_cons, List.map_nil, List.mem_append,
      List.mem_singleton] at ha
    rcases ha with ha | rfl
    · exact Nat.lt_succ_of_lt (h.bound a ha)
    · exact Nat.lt_succ_self _
  order := h.order
  polled := by
    intro a ha
    obtain ⟨hlt, hu⟩ := h.polled a ha
    refine ⟨Nat.lt_succ_of_lt hlt, ?_⟩
    simp only [List.map_append, List.map_cons, List.map_nil, List.mem_append,
      List.mem_singleton, not_or]
    exact ⟨hu, Nat.ne_of_lt hlt⟩

private theorem live_of_memory (h : Inv s q) {a : Addr} (hm : (s.list.memory a).isSome) :
    a ∈ q.parked.map Prod.fst ∨ a ∈ q.woken.map Prod.fst := by
  apply h.rep.owned
  simp only [contents, ne_eq, Option.map_eq_none_iff]
  intro hn
  simp [hn] at hm

/-- A dropped future that was not polled takes its input with it. -/
theorem Inv.dropUnresumed [Waker W] (h : Inv s q) {a : Addr} {i : I}
    (ha : s.unresumed.lookup a = some i) :
    ∃ s', s.drop a = .ok (.dropped, s') ∧ Inv s' q ∧ Change s s' (.drop a) .dropped := by
  obtain ⟨xs, ys, hu, -, he⟩ := lookup_split ha
  have hau : a ∈ s.unresumed.map Prod.fst := by simp [hu]
  refine ⟨{ s with
    unresumed := eraseKey a s.unresumed
    log := { s.log with droppedInputs := s.log.droppedInputs ++ [(a, i)] } },
    by simp only [Sys.drop, ha], ⟨h.rep, h.idle, ?_, h.outputs, h.passed, h.calls,
    h.bound, ?_, ?_⟩, .dropped (fun b _ => rfl) rfl rfl⟩
  · refine perm_recount h.inputs fun _ x hx => ?_
    have hleft := (perm_eraseKey ha).count_eq x
    simp only [List.count_append, List.count_cons, List.count_nil, Log.returned] at hx hleft ⊢
    omega
  · have hw := waiting_dropped s.log a i
    have hn : a ∉ s.log.waiting := by
      intro hc
      exact (h.polled a (List.mem_of_mem_filter hc)).2 hau
    rw [hw, h.order]
    symm
    rw [List.filter_eq_self]
    rintro b hb
    rw [decide_eq_true_eq]
    rintro rfl
    exact hn hb
  · intro b hb
    obtain ⟨hlt, hn⟩ := h.polled b hb
    refine ⟨hlt, ?_⟩
    rw [he]
    rw [hu] at hn
    simp only [List.map_append, List.map_cons, List.mem_append, List.mem_cons, not_or] at hn ⊢
    exact ⟨hn.1, hn.2.2⟩

/-- A dropped future takes its input with it when parked and its output when woken. -/
theorem Inv.dropPolled [Waker W] (h : Inv s q) {a : Addr} (ha : s.unresumed.lookup a = none)
    (hm : (s.list.memory a).isSome) :
    ∃ s' q', s.drop a = .ok (.dropped, s') ∧ Inv s' q' ∧ Change s s' (.drop a) .dropped := by
  have hlive := live_of_memory h hm
  cases hp : q.parked.lookup a with
  | some i =>
    obtain ⟨l, hl, hrep, helse, -, hwakes⟩ := waitDrop_parked h.rep h.idle hp
    obtain ⟨xs, ys, hq, -, he⟩ := lookup_split hp
    refine ⟨{ s with
      list := l, log := { s.log with droppedInputs := s.log.droppedInputs ++ [(a, i)] } }, _,
      by simp [Sys.drop, ha, hm, hl], ⟨hrep, h.idle, ?_, h.outputs, h.passed, h.calls, h.bound,
        ?_, h.polled⟩, .dropped helse hwakes rfl⟩
    · refine perm_recount h.inputs fun _ x hx => ?_
      have hleft := (perm_eraseKey hp).count_eq x
      simp only [List.count_append, List.count_cons, List.count_nil, Log.returned] at hx hleft ⊢
      omega
    · have hd := (List.nodup_append.mp h.rep.nodup).1
      rw [hq, List.map_append, List.map_cons] at hd
      have hw : ({ s.log with droppedInputs := s.log.droppedInputs ++ [(a, i)] } :
          Log I O).waiting = _ := waiting_dropped s.log a i
      rw [hw, ← h.order, hq, List.map_append, List.map_cons, filter_split hd, ← hq, he,
        List.map_append]
  | none =>
    have hk := hlive.resolve_left (lookup_none.mp hp)
    obtain ⟨⟨a, o⟩, hmem, rfl⟩ := List.mem_map.mp hk
    have hw := lookup_of_mem (List.nodup_append.mp h.rep.nodup).2.1 hmem
    obtain ⟨l, hl, hrep, helse, -, hwakes⟩ := waitDrop_woken h.rep h.idle hw
    refine ⟨{ s with
      list := l, log := { s.log with droppedOutputs := s.log.droppedOutputs ++ [(a, o)] } }, _,
      by simp [Sys.drop, ha, hm, hl], ⟨hrep, h.idle, h.inputs, ?_, h.passed, h.calls, h.bound,
        h.order, h.polled⟩, .dropped helse hwakes rfl⟩
    refine perm_recount h.outputs fun _ x hx => ?_
    have hleft := (perm_eraseKey hw).count_eq x
    simp only [List.count_append, List.count_cons, List.count_nil, Log.stored] at hx hleft ⊢
    omega

private theorem list_idle (h : Inv s q) : s.list.borrowed = false := h.rep.borrowed.trans h.idle

private theorem borrow_list (h : Inv s q) :
    s.list.borrow = .ok { s.list with borrowed := true } := by
  simp [borrow, list_idle h]

/-- `wake_one` on an empty list gives the output back. -/
theorem Inv.wakeNone (h : Inv s q) (hq : q.parked = []) (o : O) :
    s.wakeOne o = .ok (.wakeOneError o, { s with log := { s.log with
      passed := s.log.passed ++ [o], refused := s.log.refused ++ [o] } }) ∧
    Inv { s with log := { s.log with
      passed := s.log.passed ++ [o], refused := s.log.refused ++ [o] } } q := by
  have hh : s.list.head = none := by rw [h.rep.linked.head_none, hq]; rfl
  constructor
  · have hl : ({ s.list with borrowed := false } : WaitList I O W) = s.list := by
      rw [← list_idle h]
    have hw : ({ s.list with borrowed := true } : WaitList I O W).wakeOne o =
        .ok (.error o, { s.list with borrowed := true }) := by
      simp only [wakeOne, hh]
    simp only [Sys.wakeOne, borrow_list h, ok_bind, hw, unborrow, if_true, hl]
  · refine ⟨h.rep, h.idle, h.inputs, h.outputs, ?_, h.calls, h.bound, h.order, h.polled⟩
    refine perm_recount h.passed fun _ x hx => ?_
    simp only [List.count_append] at hx ⊢
    omega

/-- A `wake_one` that finds a waiter, from what it did before it wakes. -/
theorem wakeOne_of_takeHead {a : Addr} {i : I} {o : O} {w : W} {l : WaitList I O W}
    (hb : s.list.borrowed = false) (hh : s.list.head = some a)
    (hl : ({ s.list with borrowed := true } : WaitList I O W).takeHead o = .ok (.ok (i, w), l))
    (hlb : l.borrowed = true) :
    s.wakeOne o = .ok (.woke i, { s with
      list := { l.wake w with borrowed := false }
      log := { s.log with
        passed := s.log.passed ++ [o], handed := s.log.handed ++ [(a, i, o)] } }) := by
  have hborrow : s.list.borrow = .ok { s.list with borrowed := true } := by simp [borrow, hb]
  simp only [Sys.wakeOne, hborrow, ok_bind, wakeOne_eq, hl, wake, hlb, unborrow, if_true]
  simp only [hh, Option.toList_some, List.map_cons, List.map_nil]

/-- `wake_one` hands the output to the oldest waiter and returns that waiter's input. -/
theorem Inv.wakeHead [Waker W] (h : Inv s q) {a : Addr} {i : I} {rest : List (Addr × I)}
    (hq : q.parked = (a, i) :: rest) (o : O) :
    ∃ s', s.wakeOne o = .ok (.woke i, s') ∧
      s'.log = { s.log with
        passed := s.log.passed ++ [o], handed := s.log.handed ++ [(a, i, o)] } ∧
      Inv s' { q with parked := rest, woken := q.woken ++ [(a, o)] } ∧
      Change s s' (.wakeOne o) (.woke i) := by
  have hh : s.list.head = some a := by rw [h.rep.linked.head_eq, hq]; rfl
  obtain ⟨w, l, hw, hl, hrep, helse, hwakes⟩ := takeHead_spec (h.rep.withBorrowed true) hq o
  have hlb : l.borrowed = true := hrep.borrowed
  have hlog : l.contents a = some (.output o, none) :=
    hrep.woken a o (List.mem_append_right _ (List.mem_singleton_self _))
  have hstep := wakeOne_of_takeHead (list_idle h) hh hl hlb
  refine ⟨_, hstep, rfl, ⟨?_, h.idle, ?_, ?_, ?_, h.calls, h.bound, ?_, h.polled⟩,
    .woke helse hh hw hlog (congrArg (· ++ [w]) hwakes) rfl⟩
  · have hr := (hrep.wake w).withBorrowed false
    have hqb := h.idle
    rw [show ({ q with parked := rest, woken := q.woken ++ [(a, o)] } : WaitQueue Addr I O) =
      { q with borrowed := false, parked := rest, woken := q.woken ++ [(a, o)] } by rw [← hqb]]
    exact hr
  · refine perm_recount h.inputs fun _ x hx => ?_
    rw [hq] at hx
    simp only [List.count_append, List.count_cons, List.count_nil, Log.returned, List.map_append,
      List.map_cons, List.map_nil] at hx ⊢
    omega
  · refine perm_recount h.outputs fun _ x hx => ?_
    simp only [List.count_append, List.count_cons, List.count_nil, Log.stored, List.map_append,
      List.map_cons, List.map_nil] at hx ⊢
    omega
  · refine perm_recount h.passed fun _ x hx => ?_
    simp only [List.count_append, List.count_cons, List.count_nil, List.map_append,
      List.map_cons, List.map_nil] at hx ⊢
    omega
  · have hd := (List.nodup_append.mp h.rep.nodup).1
    have hw : ({ s.log with
        passed := s.log.passed ++ [o], handed := s.log.handed ++ [(a, i, o)] } : Log I O).waiting =
        s.log.waiting.filter (fun b => b ≠ a) := waiting_handed s.log a i o
    rw [hq, List.map_cons] at hd
    rw [hw, ← h.order, hq, List.map_cons]
    exact (@filter_split _ _ [] _ _ hd).symm

/-- `head_input` reads the input of the oldest waiter and changes nothing. -/
theorem Inv.head (h : Inv s q) : s.headInput = .ok (.head q.headInput, s) := by
  have hr := headInput_refines (h.rep.withBorrowed true)
  have hl : ({ s.list with borrowed := false } : WaitList I O W) = s.list := by
    rw [← list_idle h]
  have hq : ({ q with borrowed := true } : WaitQueue Addr I O).headInput = q.headInput := rfl
  simp [Sys.headInput, borrow_list h, hr, unborrow, hl, hq]

variable [Waker W]

/-- The first poll of a future parks it behind every other. -/
theorem Inv.firstPoll (h : Inv s q) {a : Addr} {i : I} (ha : s.unresumed.lookup a = some i)
    (cx : W) :
    ∃ s' q', s.poll a cx = .ok (.pending, s') ∧ Inv s' q' ∧ Change s s' (.poll a cx) .pending := by
  obtain ⟨xs, ys, hu, -, he⟩ := lookup_split ha
  have hau : a ∈ s.unresumed.map Prod.fst := by simp [hu]
  obtain ⟨l, hl, hrep, helse, hwakes, w, hw, htask⟩ :=
    waitFirst_spec h.rep h.idle (h.unresumed_fresh hau) i cx
  have hd := h.keys_nodup
  rw [hu, List.map_append, List.map_cons, List.append_assoc, List.append_assoc, List.append_assoc,
    List.cons_append, List.nodup_middle, List.nodup_cons] at hd
  obtain ⟨han, -⟩ := hd
  simp only [List.mem_append, not_or] at han
  refine ⟨{ s with
    list := l
    unresumed := eraseKey a s.unresumed
    log := { s.log with enqueued := s.log.enqueued ++ [a] } }, _,
    by simp only [Sys.poll, ha, hl, ok_bind], ⟨hrep, h.idle, ?_, h.outputs, h.passed,
    h.calls, h.bound, ?_, ?_⟩, .parked helse hwakes rfl hw htask⟩
  · refine perm_recount h.inputs fun _ x hx => ?_
    have hleft := (perm_eraseKey ha).count_eq x
    simp only [List.count_append, List.count_cons, List.count_nil, Log.returned] at hx hleft ⊢
    omega
  · simp only [Log.waiting, List.filter_append]
    have hk : [a].filter (fun b => decide (b ∉ s.log.handed.map (·.1) ∧
        b ∉ s.log.droppedInputs.map Prod.fst)) = [a] := by
      have hr : a ∉ s.log.handed.map (·.1) := by
        have := han.2.2.2.1
        simpa [Log.returned, Function.comp_def] using this
      simp only [List.filter_cons, List.filter_nil, hr, han.2.2.2.2, not_false_eq_true, and_self,
        decide_true, if_true]
    rw [hk, List.map_append]
    exact congrArg (· ++ [a]) h.order
  · intro b hb
    simp only [List.mem_append, List.mem_singleton] at hb
    rw [he]
    rcases hb with hb | rfl
    · obtain ⟨hlt, hn⟩ := h.polled b hb
      refine ⟨hlt, ?_⟩
      rw [hu] at hn
      simp only [List.map_append, List.map_cons, List.mem_append, List.mem_cons, not_or] at hn ⊢
      exact ⟨hn.1, hn.2.2⟩
    · refine ⟨h.bound b ?_, ?_⟩
      · have hp := h.inputs.map Prod.fst
        rw [hp.mem_iff]
        simp [hau]
      · simp only [List.map_append, List.mem_append, not_or]
        exact ⟨han.1, han.2.1⟩

private theorem Inv.pollParked (h : Inv s q) {a : Addr} (ha : s.unresumed.lookup a = none)
    (hm : (s.list.memory a).isSome) (hw : q.woken.lookup a = none) (cx : W) :
    ∃ s', s.poll a cx = .ok (.pending, s') ∧ Inv s' q ∧ Change s s' (.poll a cx) .pending := by
  have hp := (live_of_memory h hm).resolve_right (lookup_none.mp hw)
  obtain ⟨⟨a, i⟩, hi, rfl⟩ := List.mem_map.mp hp
  obtain ⟨l, hl, hrep, helse, hwakes, w, hc, htask⟩ := waitAgain_parked h.rep h.idle hi cx
  refine ⟨{ s with list := l }, by simp [Sys.poll, ha, hm, hl], ?_,
    .parked helse hwakes rfl hc htask⟩
  exact ⟨hrep, h.idle, h.inputs, h.outputs, h.passed, h.calls, h.bound, h.order, h.polled⟩

/-- A later poll finishes a woken future. -/
theorem Inv.pollWoken (h : Inv s q) {a : Addr} (ha : s.unresumed.lookup a = none)
    (hm : (s.list.memory a).isSome) {o : O} (hw : q.woken.lookup a = some o) (cx : W) :
    ∃ s' q', s.poll a cx = .ok (.ready o, s') ∧ Inv s' q' ∧
      Change s s' (.poll a cx) (.ready o) := by
  obtain ⟨l, hl, hrep, helse, -, hwakes⟩ := waitAgain_woken h.rep h.idle hw cx
  refine ⟨{ s with
    list := l, log := { s.log with resolved := s.log.resolved ++ [(a, o)] } }, _,
    by simp [Sys.poll, ha, hm, hl], ⟨hrep, h.idle, h.inputs, ?_, h.passed, h.calls, h.bound,
      h.order, h.polled⟩, .resolved helse hwakes rfl⟩
  refine perm_recount h.outputs fun _ x hx => ?_
  have hleft := (perm_eraseKey hw).count_eq x
  simp only [List.count_append, List.count_cons, List.count_nil, Log.stored] at hx hleft ⊢
  omega

/-- Every operation succeeds and keeps the invariant. -/
theorem Inv.step (h : Inv s q) (op : Op I O W) :
    ∃ out s' q', s.step op = .ok (out, s') ∧ Inv s' q' ∧ Change s s' op out := by
  cases op with
  | wait i => exact ⟨_, _, q, rfl, h.wait i, .created rfl rfl⟩
  | poll a cx =>
    cases ha : s.unresumed.lookup a with
    | some i =>
      obtain ⟨s', q', hs, hi, hc⟩ := h.firstPoll ha cx
      exact ⟨_, s', q', hs, hi, hc⟩
    | none =>
      by_cases hm : (s.list.memory a).isSome
      · cases hw : q.woken.lookup a with
        | none =>
          obtain ⟨s', hs, hi, hc⟩ := h.pollParked ha hm hw cx
          exact ⟨_, s', q, hs, hi, hc⟩
        | some o =>
          obtain ⟨s', q', hs, hi, hc⟩ := h.pollWoken ha hm hw cx
          exact ⟨_, s', q', hs, hi, hc⟩
      · exact ⟨.ignored, s, q, by simp [Sys.step, Sys.poll, ha, hm], h, .ignored rfl⟩
  | drop a =>
    cases ha : s.unresumed.lookup a with
    | some i =>
      obtain ⟨s', hs, hi, hc⟩ := h.dropUnresumed ha
      exact ⟨_, s', q, hs, hi, hc⟩
    | none =>
      by_cases hm : (s.list.memory a).isSome
      · obtain ⟨s', q', hs, hi, hc⟩ := h.dropPolled ha hm
        exact ⟨_, s', q', hs, hi, hc⟩
      · exact ⟨.ignored, s, q, by simp [Sys.step, Sys.drop, ha, hm], h, .ignored rfl⟩
  | wakeOne o =>
    cases hq : q.parked with
    | nil => exact ⟨_, _, q, (h.wakeNone hq o).1, (h.wakeNone hq o).2, .refused rfl rfl⟩
    | cons p rest =>
      obtain ⟨s', hs, -, hi, hc⟩ := h.wakeHead hq o
      exact ⟨_, s', _, hs, hi, hc⟩
  | headInput => exact ⟨_, s, q, h.head, h, .head rfl⟩

/-- Every run succeeds and ends in a state that meets the invariant. -/
theorem run_inv (ops : List (Op I O W)) :
    ∃ outs s q, run Sys.step (Sys.new : Sys I O W) ops = .ok (outs, s) ∧ Inv s q := by
  have hstep : ∀ (s : Sys I O W) (op : Op I O W), (∃ q, Inv s q) →
      ∃ out t, s.step op = .ok (out, t) ∧ ∃ q, Inv t q := by
    rintro s op ⟨q, h⟩
    obtain ⟨out, t, q', hs, hi, -⟩ := h.step op
    exact ⟨out, t, hs, q', hi⟩
  obtain ⟨outs, s, hr, q, hi⟩ := run_invariant hstep ⟨WaitQueue.empty, Inv.new⟩ ops
  exact ⟨outs, s, q, hr, hi⟩

end WaitList
end Unsync
