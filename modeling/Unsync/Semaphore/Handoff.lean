import Unsync.Lib.Turns
import Unsync.Semaphore.Arrival

/-!
# Fair hand-off

As long as permits are returned and added fairly only, and nobody gives up permits that were
granted, calls of `acquire` are granted permits in the order of their first polls, and
`try_acquire` succeeds only when nobody is waiting. A log beside the semaphore records who
was polled for the first time, who was granted permits, and who was dropped before. A grant
stays with its waiter, whatever else happens, until the waiter is polled or dropped.
-/

namespace Unsync
namespace Semaphore

open Runs Greedy Turns

/-- The runs in question: nothing is released unfairly and no granted waiter is dropped. -/
def fairly (s : Sys) : Op → Bool
  | .release fairness _ | .add fairness _ => fairness = .fair
  | .cancel call => call ∉ s.semaphore.waiters.woken.map Prod.fst
  | _ => true

/-- Who insists on its turn: a call of `acquire`. -/
def patient (call : Acquire) : Bool := !call.unfair

/-- The waiters to which an operation handed permits. -/
def handedOver (s t : Sys) : List Acquire :=
  (t.semaphore.waiters.woken.filter
    fun p => p ∉ s.semaphore.waiters.woken ∧ p.2 ≠ .unfair).map Prod.fst

/-- What an operation adds to the log. -/
def events (s : Sys) (op : Op) (out : Out) (t : Sys) : List (Event Acquire) :=
  (match op, out with
  | .poll call, .pending => if call ∈ s.fresh then [.arrived call] else []
  | .poll call, .ready _ =>
    if call ∈ s.fresh then [.arrived call, .granted call]
    else if s.semaphore.waiters.woken.lookup call = some .unfair then [.granted call] else []
  | .cancel call, .done => [.withdrawn call]
  | .tryAcquire _, .tried (some _) => [.walkIn]
  | _, _ => []) ++ (handedOver s t).map .granted

/-- A semaphore and its callers beside the log. -/
structure Logged where
  sys : Sys
  log : List (Event Acquire)
  deriving DecidableEq, Repr

/-- A new semaphore with an empty log. -/
def Logged.new (permits : Nat) : Logged := ⟨Sys.new permits, []⟩

/-- One operation, and what it adds to the log. -/
def Logged.step [Target] (g : Logged) (op : Op) : Except Fault (Out × Logged) := do
  let (out, t) ← g.sys.step op
  .ok (out, ⟨t, g.log ++ events g.sys op out t⟩)

/-! ### Every call is in one place -/

/-- The calls that are not over. -/
def Sys.pending (s : Sys) : List Acquire := s.fresh ++ waiting s.semaphore

/-- Calls that are not over are distinct, and were numbered when they were made. -/
structure Numbered (s : Sys) : Prop where
  distinct : s.pending.Nodup
  bound : ∀ call ∈ s.pending, call.serial < s.calls

section Calls

variable {s t : Sys} {call : Acquire}

/-- A woken call that collects its wake-up no longer waits. -/
theorem waiting_collect {w : WakeUp}
    (hw : s.semaphore.waiters.woken.lookup call = some w) :
    (call :: waiting (s.semaphore.collect call)).Perm (waiting s.semaphore) := by
  have hp := ((perm_eraseKey hw).map Prod.fst).symm
  rw [List.map_cons] at hp
  exact hp.append_right _

private theorem waiting_withdraw {n : Nat}
    (hp : s.semaphore.waiters.parked.lookup call = some n) :
    (call :: waiting (s.semaphore.withdraw call)).Perm (waiting s.semaphore) := by
  have hq := ((perm_eraseKey hp).map Prod.fst).symm
  rw [List.map_cons] at hq
  exact (List.perm_middle.symm).trans (hq.append_left _)

/-- A call that is parked waits behind the others. -/
theorem waiting_enqueue (s : Semaphore) (call : Acquire) :
    waiting (s.enqueue call) = waiting s ++ [call] := by
  simp [waiting, Semaphore.enqueue]

private theorem Numbered.leave (h : Numbered s) (hc : t.calls = s.calls)
    (hp : (call :: t.pending).Perm s.pending) : Numbered t := by
  have hd := hp.nodup_iff.mpr h.distinct
  constructor
  · exact (List.nodup_cons.mp hd).2
  · intro c hm
    rw [hc]
    exact h.bound c (hp.subset (List.mem_cons_of_mem _ hm))

private theorem Numbered.shuffle (h : Numbered s) (hc : t.calls = s.calls)
    (hp : t.pending.Perm s.pending) : Numbered t := by
  constructor
  · exact hp.nodup_iff.mpr h.distinct
  · intro c hm
    rw [hc]
    exact h.bound c (hp.subset hm)

/-- A call that was not polled is nowhere else. -/
theorem Numbered.fresh_not_waiting (h : Numbered s) (hf : call ∈ s.fresh) :
    call ∉ waiting s.semaphore := fun hw => (List.nodup_append.mp h.distinct).2.2 _ hf _ hw rfl

/-- Every move keeps the calls distinct. -/
theorem Numbered.move [Target] (h : Numbered s) {op : Op} {out : Out} (m : Move s op out t) :
    Numbered t := by
  cases m with
  | ignored | wait | refused | short | panicked | tried | stolen | leak | forget =>
    exact ⟨h.distinct, h.bound⟩
  | @create unfair n =>
    have hnew : (⟨s.calls, unfair, n⟩ : Acquire) ∉ s.pending := by
      intro hm
      exact Nat.lt_irrefl _ (h.bound _ hm)
    have hp : (s.fresh ++ [(⟨s.calls, unfair, n⟩ : Acquire)] ++ waiting s.semaphore).Perm
        (⟨s.calls, unfair, n⟩ :: s.pending) := by
      rw [List.append_assoc]
      exact List.perm_middle
    constructor
    · exact hp.nodup_iff.mpr (List.nodup_cons.mpr ⟨hnew, h.distinct⟩)
    · intro c hm
      rcases List.mem_cons.mp (hp.subset hm) with rfl | hm
      · exact Nat.lt_succ_self _
      · exact Nat.lt_succ_of_lt (h.bound c hm)
  | obtain hf hb => exact h.leave rfl ((List.perm_cons_erase hf).symm.append_right _)
  | @park call hf hb =>
    refine h.shuffle rfl ?_
    show (s.fresh.erase call ++ waiting (s.semaphore.enqueue call)).Perm s.pending
    rw [waiting_enqueue, ← List.append_assoc]
    exact (List.perm_append_singleton _ _).trans
      ((List.perm_cons_erase hf).symm.append_right (waiting s.semaphore))
  | contend hf hw hle =>
    exact h.leave rfl (List.perm_middle.symm.trans ((waiting_collect hw).append_left s.fresh))
  | @requeue call hf hw hlt =>
    refine h.shuffle rfl ?_
    show (s.fresh ++ waiting (((s.semaphore.collect call).released 0 .unfair).enqueue call)).Perm
      s.pending
    rw [waiting_enqueue, waiting_released]
    exact ((List.perm_append_singleton _ _).trans (waiting_collect hw)).append_left s.fresh
  | claim hf hw =>
    exact h.leave rfl (List.perm_middle.symm.trans ((waiting_collect hw).append_left s.fresh))
  | cancelFresh hf => exact h.leave rfl ((List.perm_cons_erase hf).symm.append_right _)
  | cancelParked hf hp =>
    exact h.leave rfl (List.perm_middle.symm.trans ((waiting_withdraw hp).append_left s.fresh))
  | @cancelWoken call w hf hp hw =>
    refine @Numbered.leave s _ call h rfl ?_
    show (call :: (s.fresh ++ waiting ((s.semaphore.collect call).released _ .unfair))).Perm
      s.pending
    rw [waiting_released]
    exact List.perm_middle.symm.trans ((waiting_collect hw).append_left s.fresh)
  | release hl =>
    refine h.shuffle rfl ?_
    show (s.fresh ++ waiting (s.semaphore.released _ _)).Perm s.pending
    rw [waiting_released]
    exact List.Perm.refl _
  | @add fairness n hb =>
    refine h.shuffle rfl ?_
    show (s.fresh ++ waiting (Semaphore.released _ n fairness)).Perm s.pending
    rw [waiting_released]
    exact List.Perm.refl _

end Calls

/-! ### The line in front of the semaphore -/

/-- The queue is the line of the log, and its turns were kept. -/
structure FairOrder (g : Logged) : Prop where
  numbered : Numbered g.sys
  tokens : ∀ p ∈ g.sys.semaphore.waiters.woken, p.2 ≠ .unfair
  line : line g.log = g.sys.semaphore.waiters.parked.map Prod.fst
  turn : InTurn patient g.log
  seen : ∀ c, c ∈ arrivals g.log ∨ Settled g.log c → c.serial < g.sys.calls ∧ c ∉ g.sys.fresh
  once : (arrivals g.log).Nodup
  kept : ∀ c, .granted c ∈ g.log →
    c ∈ g.sys.obtained ∨ c ∈ g.sys.semaphore.waiters.woken.map Prod.fst

section Steps

variable {s t : Sys} {log : List (Event Acquire)}

private theorem handedOver_nil
    (h : ∀ p ∈ t.semaphore.waiters.woken, p ∈ s.semaphore.waiters.woken) :
    handedOver s t = [] := by
  rw [handedOver, List.map_eq_nil_iff, List.filter_eq_nil_iff]
  intro p hp
  simp [h p hp]

/-- A fair release hands permits to whom it serves. -/
theorem handedOver_released (h : Numbered s) {r : Semaphore} {n : Nat}
    (hr : r.waiters = s.semaphore.waiters) (ht : t.semaphore = r.released n .fair) :
    handedOver s t = (served wanted (r.permits + n) s.semaphore.waiters.parked).map Prod.fst := by
  have hwoken : t.semaphore.waiters.woken = s.semaphore.waiters.woken ++
      (served wanted (r.permits + n) s.semaphore.waiters.parked).map
        fun p => (p.1, WakeUp.fair p.2) := by
    rw [ht, ← hr]
    rfl
  have hnew : ∀ p ∈ (served wanted (r.permits + n) s.semaphore.waiters.parked).map
      (fun p => (p.1, WakeUp.fair p.2)), p ∉ s.semaphore.waiters.woken := by
    intro p hp hw
    obtain ⟨q, hq, rfl⟩ := List.mem_map.mp hp
    have hparked : q ∈ s.semaphore.waiters.parked := by
      rw [← served_append_unserved wanted (r.permits + n) s.semaphore.waiters.parked]
      exact List.mem_append_left _ hq
    have hd := (List.nodup_append.mp (List.nodup_append.mp h.distinct).2.1).2.2
    exact hd q.1 (List.mem_map.mpr ⟨_, hw, rfl⟩) q.1 (List.mem_map_of_mem hparked) rfl
  rw [handedOver, hwoken, List.filter_append, List.filter_eq_nil_iff.mpr, List.nil_append,
    List.filter_eq_self.mpr, List.map_map]
  · rfl
  · intro p hp
    obtain ⟨q, -, rfl⟩ := List.mem_map.mp hp
    simpa using hnew _ hp
  · intro p hp
    simp [hp]

/-- A fair release serves the head of the line. -/
theorem FairOrder.released (h : FairOrder ⟨s, log⟩) {r : Semaphore} {n : Nat}
    (hr : r.waiters = s.semaphore.waiters) (ht : t.semaphore = r.released n .fair)
    (hn : Numbered t) (hf : t.fresh = s.fresh) (hc : t.calls = s.calls)
    (ho : t.obtained = s.obtained) :
    FairOrder ⟨t, log ++ (handedOver s t).map .granted⟩ := by
  rw [handedOver_released h.numbered hr ht]
  have hsplit := served_append_unserved wanted (r.permits + n) s.semaphore.waiters.parked
  have hline : Turns.line log =
      (served wanted (r.permits + n) s.semaphore.waiters.parked).map Prod.fst ++
        (unserved wanted (r.permits + n) s.semaphore.waiters.parked).map Prod.fst := by
    rw [← List.map_append, hsplit]
    exact h.line
  have hd : (Turns.line log).Nodup := h.once.filter _
  obtain ⟨hturn, hrest⟩ := h.turn.serve hline (hline ▸ hd)
  have hwoken : t.semaphore.waiters.woken = s.semaphore.waiters.woken ++
      (served wanted (r.permits + n) s.semaphore.waiters.parked).map
        fun p => (p.1, WakeUp.fair p.2) := by
    rw [ht, ← hr]
    rfl
  have hnone : arrivals (((served wanted (r.permits + n) s.semaphore.waiters.parked).map
      Prod.fst).map Event.granted) = [] := by
    rw [arrivals, List.filterMap_eq_nil_iff]
    intro e he
    obtain ⟨c, -, rfl⟩ := List.mem_map.mp he
    rfl
  refine ⟨hn, ?_, ?_, hturn, ?_, ?_, ?_⟩
  · intro p hp
    rw [hwoken] at hp
    rcases List.mem_append.mp hp with hp | hp
    · exact h.tokens p hp
    · obtain ⟨q, -, rfl⟩ := List.mem_map.mp hp
      exact fun he => by cases he
  · rw [hrest, ht, ← hr]
    rfl
  · intro c hm
    rw [hf, hc]
    apply h.seen
    rw [arrivals_append, hnone, List.append_nil] at hm
    rcases hm with hm | hm | hm
    · exact Or.inl hm
    · rcases List.mem_append.mp hm with hm | hm
      · exact Or.inr (Or.inl hm)
      · obtain ⟨d, hd, he⟩ := List.mem_map.mp hm
        cases he
        refine Or.inl (List.mem_of_mem_filter (?_ : c ∈ Turns.line log))
        rw [hline]
        exact List.mem_append_left _ hd
    · rcases List.mem_append.mp hm with hm | hm
      · exact Or.inr (Or.inr hm)
      · obtain ⟨d, -, he⟩ := List.mem_map.mp hm
        cases he
  · rw [arrivals_append, hnone, List.append_nil]
    exact h.once
  · intro c hm
    rw [ho, hwoken, List.map_append, List.mem_append]
    rcases List.mem_append.mp hm with hm | hm
    · exact (h.kept c hm).imp_right Or.inl
    · obtain ⟨d, hd, he⟩ := List.mem_map.mp hm
      cases he
      obtain ⟨p, hp, rfl⟩ := List.mem_map.mp hd
      exact Or.inr (Or.inr (List.mem_map.mpr ⟨_, List.mem_map_of_mem hp, rfl⟩))

private theorem FairOrder.unseen (h : FairOrder ⟨s, log⟩) {call : Acquire} (hf : call ∈ s.fresh) :
    call ∉ arrivals log ∧ ¬ Settled log call :=
  ⟨fun ha => (h.seen call (Or.inl ha)).2 hf, fun hs => (h.seen call (Or.inr hs)).2 hf⟩

/-- What leaves the line alone, wakes nobody and forgets no grant. -/
theorem FairOrder.keep (h : FairOrder ⟨s, log⟩) (hn : Numbered t)
    (hparked : t.semaphore.waiters.parked = s.semaphore.waiters.parked)
    (hwoken : ∀ p ∈ t.semaphore.waiters.woken, p ∈ s.semaphore.waiters.woken)
    (hfresh : ∀ c ∈ t.fresh, c ∈ s.fresh ∨ s.calls ≤ c.serial) (hcalls : s.calls ≤ t.calls)
    (hkept : ∀ c, c ∈ s.obtained ∨ c ∈ s.semaphore.waiters.woken.map Prod.fst →
      c ∈ t.obtained ∨ c ∈ t.semaphore.waiters.woken.map Prod.fst) :
    FairOrder ⟨t, log ++ (handedOver s t).map .granted⟩ := by
  rw [handedOver_nil hwoken, List.map_nil, List.append_nil]
  refine ⟨hn, fun p hp => h.tokens p (hwoken p hp), ?_, h.turn, ?_, h.once, ?_⟩
  · rw [hparked]
    exact h.line
  · intro c hm
    obtain ⟨hlt, hout⟩ := h.seen c hm
    have hlt' : c.serial < s.calls := hlt
    constructor
    · exact Nat.lt_of_lt_of_le hlt' hcalls
    · intro hf
      rcases hfresh c hf with hf | hge
      · exact hout hf
      · exact Nat.lt_irrefl _ (Nat.lt_of_lt_of_le hlt' hge)
  · intro c hm
    exact hkept c (h.kept c hm)

private theorem FairOrder.quiet (h : FairOrder ⟨s, log⟩)
    (hw : t.semaphore.waiters = s.semaphore.waiters)
    (hf : t.fresh = s.fresh) (hc : t.calls = s.calls) (ho : t.obtained = s.obtained) :
    FairOrder ⟨t, log ++ (handedOver s t).map .granted⟩ := by
  have hp : t.pending = s.pending := by rw [Sys.pending, Sys.pending, waiting, waiting, hw, hf]
  refine h.keep (h.numbered.shuffle hc (by rw [hp])) ?_ ?_ ?_ (Nat.le_of_eq hc.symm) ?_
  · rw [hw]
  · rw [hw]
    exact fun p hp => hp
  · rw [hf]
    exact fun c hm => Or.inl hm
  · rw [hw, ho]
    exact fun c hm => hm

private theorem FairOrder.walkIn (h : FairOrder ⟨s, log⟩) (hp : s.semaphore.waiters.parked = []) :
    FairOrder ⟨s, log ++ [.walkIn]⟩ := by
  have hparked : Turns.line log = s.semaphore.waiters.parked.map Prod.fst := h.line
  have hline : Turns.line log = [] := by rw [hparked, hp, List.map_nil]
  refine ⟨h.numbered, h.tokens, ?_, h.turn.walk_in hline, ?_, ?_, ?_⟩
  · rw [line_walkIn]
    exact h.line
  · intro c hm
    exact h.seen c (by simpa [arrivals, Settled] using hm)
  · simpa [arrivals] using h.once
  · intro c hm
    exact h.kept c (by simpa using hm)

/-- A call that withdraws leaves the line. -/
theorem FairOrder.withdraw (h : FairOrder ⟨s, log⟩) {call : Acquire} (hn : Numbered t)
    (hcall : call.serial < s.calls ∧ call ∉ t.fresh) (hf : ∀ c ∈ t.fresh, c ∈ s.fresh)
    (hc : t.calls = s.calls) (ho : t.obtained = s.obtained)
    (hw : t.semaphore.waiters.woken = s.semaphore.waiters.woken)
    (hp : t.semaphore.waiters.parked.map Prod.fst =
      (s.semaphore.waiters.parked.map Prod.fst).filter (· ≠ call)) :
    FairOrder ⟨t, log ++ [.withdrawn call] ++ (handedOver s t).map .granted⟩ := by
  rw [handedOver_nil (by rw [hw]; exact fun _ hp => hp), List.map_nil, List.append_nil]
  refine ⟨hn, ?_, ?_, h.turn.withdrawn call, ?_, ?_, ?_⟩
  · rw [hw]
    exact h.tokens
  · rw [line_withdrawn, hp]
    exact congrArg _ h.line
  · intro c hm
    rw [hc]
    have hold : c ∈ arrivals log ∨ Settled log c ∨ c = call := by
      simpa [arrivals, Settled, or_assoc] using hm
    rcases hold with ha | hs | rfl
    · exact ⟨(h.seen c (Or.inl ha)).1, fun hm => (h.seen c (Or.inl ha)).2 (hf c hm)⟩
    · exact ⟨(h.seen c (Or.inr hs)).1, fun hm => (h.seen c (Or.inr hs)).2 (hf c hm)⟩
    · exact hcall
  · simpa [arrivals] using h.once
  · intro c hm
    rw [ho, hw]
    exact h.kept c (by simpa using hm)

/-- A call that is polled for the first time, and what it is granted at once. -/
theorem FairOrder.arrive (h : FairOrder ⟨s, log⟩) {call : Acquire} (hf : call ∈ s.fresh)
    (hn : Numbered t) (ht : t.fresh = s.fresh.erase call) (hc : t.calls = s.calls)
    (hw : t.semaphore.waiters.woken = s.semaphore.waiters.woken) {grant : List (Event Acquire)}
    (hg : grant = [] ∧ t.obtained = s.obtained ∧ t.semaphore.waiters.parked.map Prod.fst =
        s.semaphore.waiters.parked.map Prod.fst ++ [call] ∨
      grant = [.granted call] ∧ t.obtained = s.obtained ++ [call] ∧
        t.semaphore.waiters.parked = s.semaphore.waiters.parked ∧
        (patient call = true → s.semaphore.waiters.parked = [])) :
    FairOrder ⟨t, log ++ (.arrived call :: grant) ++ (handedOver s t).map .granted⟩ := by
  obtain ⟨hnot, hunsettled⟩ := h.unseen hf
  have hfresh : ∀ c ∈ t.fresh, c ∈ s.fresh ∧ c ≠ call := by
    intro c hm
    rw [ht] at hm
    have hd := (List.nodup_append.mp h.numbered.distinct).1
    exact ⟨List.mem_of_mem_erase hm, ((hd.mem_erase_iff).mp hm).1⟩
  have hline := line_arrived log call hunsettled
  have hparked : Turns.line log = s.semaphore.waiters.parked.map Prod.fst := h.line
  rw [handedOver_nil (by rw [hw]; exact fun _ hp => hp), List.map_nil, List.append_nil,
    List.append_cons]
  have hgranted : arrivals grant = [] ∧ ∀ c, Settled grant c → c = call := by
    rcases hg with ⟨rfl, -⟩ | ⟨rfl, -⟩ <;> simp [arrivals, Settled]
  refine ⟨hn, ?_, ?_, ?_, ?_, ?_, ?_⟩
  · rw [hw]
    exact h.tokens
  · rcases hg with ⟨rfl, -, hp⟩ | ⟨rfl, -, hp, -⟩
    · rw [List.append_nil, hline, hp, hparked]
    · have hout : call ∉ s.semaphore.waiters.parked.map Prod.fst := by
        intro hm
        exact h.numbered.fresh_not_waiting hf (List.mem_append_right _ hm)
      rw [line_granted, hline, hparked, hp, List.filter_append, List.filter_eq_self.mpr,
        List.filter_cons_of_neg, List.filter_nil, List.append_nil]
      · simp
      · intro c hm
        rw [decide_eq_true_eq]
        rintro rfl
        exact hout hm
  · rcases hg with ⟨rfl, -⟩ | ⟨rfl, -, -, hnone⟩
    · rw [List.append_nil]
      exact h.turn.arrived call
    · by_cases hp : patient call = true
      · have halone : Turns.line (log ++ [.arrived call]) = [call] := by
          rw [hline, hparked, hnone hp]
          rfl
        exact (h.turn.arrived call).head halone
      · exact (h.turn.arrived call).steal (by simpa using hp)
  · intro c hm
    rw [hc]
    have hcases : c ∈ arrivals log ∨ Settled log c ∨ c = call := by
      simp only [arrivals_append, hgranted.1, List.append_nil, List.mem_append] at hm
      rcases hm with (hm | hm) | hm
      · exact Or.inl hm
      · exact Or.inr (Or.inr (by simpa [arrivals] using hm))
      · have hsplit : Settled log c ∨ Settled grant c := by
          simpa [Settled, or_assoc, or_left_comm, or_comm] using hm
        exact Or.inr (hsplit.imp_right (hgranted.2 c))
    rcases hcases with ha | hs | rfl
    · exact ⟨(h.seen c (Or.inl ha)).1, fun hm => (h.seen c (Or.inl ha)).2 (hfresh c hm).1⟩
    · exact ⟨(h.seen c (Or.inr hs)).1, fun hm => (h.seen c (Or.inr hs)).2 (hfresh c hm).1⟩
    · exact ⟨h.numbered.bound c (List.mem_append_left _ hf), fun hm => (hfresh c hm).2 rfl⟩
  · have hone : arrivals [Event.arrived call] = [call] := rfl
    rw [arrivals_append, arrivals_append, hgranted.1, List.append_nil, hone]
    exact List.nodup_append.mpr ⟨h.once, List.nodup_singleton _, by
      intro c hm d hd he
      rw [List.mem_singleton.mp hd] at he
      exact hnot (he ▸ hm)⟩
  · intro c hm
    have hcases : .granted c ∈ log ∨ .granted c ∈ grant := by simpa using hm
    rw [hw]
    rcases hcases with hm | hm
    · apply (h.kept c hm).imp_left
      intro hobt
      rcases hg with ⟨-, ho, -⟩ | ⟨-, ho, -⟩
      · rw [ho]
        exact hobt
      · rw [ho]
        exact List.mem_append_left _ hobt
    · rcases hg with ⟨rfl, -⟩ | ⟨rfl, ho, -⟩
      · cases hm
      · cases List.mem_singleton.mp hm
        rw [ho]
        exact Or.inl (List.mem_append_right _ (List.mem_singleton_self _))

variable [Target]

omit [Target] in
private theorem events_ignored (s : Sys) (op : Op) : events s op .ignored s = [] := by
  have hnone : handedOver s s = [] := handedOver_nil fun _ hp => hp
  cases op with
  | _ => simp [events, hnone]

/-- Every move of a fair run keeps the line and its turns. -/
theorem FairOrder.move (h : FairOrder ⟨s, log⟩) {op : Op} {out : Out}
    (hg : fairly s op = true) (m : Move s op out t) :
    FairOrder ⟨t, log ++ events s op out t⟩ := by
  have hn := h.numbered.move m
  have htoken : ∀ call, s.semaphore.waiters.woken.lookup call ≠ some .unfair := by
    intro call hw
    exact h.tokens _ (mem_of_lookup hw) rfl
  cases m with
  | ignored =>
    rw [events_ignored, List.append_nil]
    exact h
  | @create unfair n =>
    have hkeep := h.keep hn rfl (fun p hp => hp) ?_ (Nat.le_succ _) (fun c hm => hm)
    · simpa [events] using hkeep
    · intro c hm
      rcases List.mem_append.mp hm with hm | hm
      · exact Or.inl hm
      · rw [List.mem_singleton.mp hm]
        exact Or.inr (Nat.le_refl _)
  | @obtain call hf hb =>
    have harrive := h.arrive hf hn rfl rfl rfl (Or.inr ⟨rfl, rfl, rfl, ?_⟩)
    · simpa [events, hf] using harrive
    · intro hp
      by_contra hne
      exact hb (Or.inr ⟨by simpa [patient] using hp, hne⟩)
  | @park call hf hb =>
    have harrive := h.arrive hf hn rfl rfl rfl (Or.inl ⟨rfl, rfl, by
      simp [Sys.arrive, Semaphore.enqueue]⟩)
    simpa [events, hf] using harrive
  | @wait call hf hs hw =>
    have hquiet : FairOrder ⟨s, _⟩ := h.quiet rfl rfl rfl rfl
    simpa [events, hf] using hquiet
  | contend hf hw hle => exact absurd hw (htoken _)
  | requeue hf hw hlt => exact absurd hw (htoken _)
  | @claim call n hf hw =>
    have hkeep := h.keep hn rfl (fun p hp => List.mem_of_mem_eraseP hp)
      (fun c hm => Or.inl hm) (Nat.le_refl _) ?_
    · simpa [events, hf, hw] using hkeep
    · rintro c (hobt | hwok)
      · exact Or.inl (List.mem_append_left _ hobt)
      · have hsub := ((perm_eraseKey hw).map Prod.fst).subset hwok
        rcases List.mem_cons.mp hsub with rfl | hwok
        · exact Or.inl (List.mem_append_right _ (List.mem_singleton_self _))
        · exact Or.inr hwok
  | @cancelFresh call hf =>
    have hd := (List.nodup_append.mp h.numbered.distinct).1
    have hout : call ∉ s.semaphore.waiters.parked.map Prod.fst := by
      intro hm
      exact h.numbered.fresh_not_waiting hf (List.mem_append_right _ hm)
    have hleave := h.withdraw hn
      ⟨h.numbered.bound call (List.mem_append_left _ hf), hd.not_mem_erase⟩
      (fun c hm => List.mem_of_mem_erase hm) rfl rfl rfl (by
        symm
        rw [List.filter_eq_self]
        intro c hm
        rw [decide_eq_true_eq]
        rintro rfl
        exact hout hm)
    simpa [events] using hleave
  | @cancelParked call n hf hp =>
    have hm : call ∈ s.semaphore.waiters.parked.map Prod.fst :=
      List.mem_map.mpr ⟨_, mem_of_lookup hp, rfl⟩
    have hbound := h.numbered.bound call
      (List.mem_append_right _ (List.mem_append_right _ hm))
    have hd : (s.semaphore.waiters.parked.map Prod.fst).Nodup :=
      (List.nodup_append.mp (List.nodup_append.mp h.numbered.distinct).2.1).2.1
    have hleave := h.withdraw hn ⟨hbound, hf⟩ (fun c hm => hm) rfl rfl rfl
      (map_eraseKey hd hp)
    simpa [events] using hleave
  | @cancelWoken call w hf hp hw =>
    have hm : call ∈ s.semaphore.waiters.woken.map Prod.fst :=
      List.mem_map.mpr ⟨_, mem_of_lookup hw, rfl⟩
    simp only [fairly, decide_eq_true_eq] at hg
    exact absurd hm hg
  | @tried n hp hle =>
    have hquiet : FairOrder ⟨{ s with
        semaphore := s.semaphore.take n, live := s.live ++ [⟨n⟩] }, _⟩ :=
      (h.walkIn hp).quiet rfl rfl rfl rfl
    simpa [events] using hquiet
  | refused hb => exact h.quiet rfl rfl rfl rfl
  | stolen hle => exact h.quiet rfl rfl rfl rfl
  | short hlt => exact h.quiet rfl rfl rfl rfl
  | @release fairness permit hl =>
    cases fairness with
    | unfair => cases hg
    | fair => exact h.released rfl rfl hn rfl rfl rfl
  | leak hl => exact h.quiet rfl rfl rfl rfl
  | forget hl => exact h.quiet rfl rfl rfl rfl
  | @add fairness n hb =>
    cases fairness with
    | unfair => cases hg
    | fair => exact h.released (r := { s.semaphore with
        totalPermits := s.semaphore.totalPermits + n }) rfl rfl hn rfl rfl rfl
  | panicked hb => exact h.quiet rfl rfl rfl rfl

/-- An operation on a semaphore with a log, where every operation on it succeeds. -/
theorem FairOrder.step {g : Logged} (hi : Inv g.sys) (h : FairOrder g) {op : Op}
    (hg : fairly g.sys op = true) :
    ∃ out g', g.step op = .ok (out, g') ∧ Inv g'.sys ∧ FairOrder g' := by
  obtain ⟨s, log⟩ := g
  obtain ⟨out, t, hs, m, ht⟩ := hi.step op
  have hstep : Logged.step ⟨s, log⟩ op = .ok (out, ⟨t, log ++ events s op out t⟩) := by
    have hs' : s.step op = .ok (out, t) := hs
    simp only [Logged.step, hs', ok_bind]
  exact ⟨out, _, hstep, ht, h.move hg m⟩

/-! ### A grant stays with its waiter -/

/-- The waiter holds a grant of what it asked for. -/
structure Granted (s : Sys) (call : Acquire) : Prop where
  inv : Inv s
  numbered : Numbered s
  held : (call, .fair call.toAcquire) ∈ s.semaphore.waiters.woken

omit [Target] in
private theorem mem_eraseKey_of_ne {c call : Acquire} {w : WakeUp}
    {woken : List (Acquire × WakeUp)} (hm : (call, w) ∈ woken) (hne : c ≠ call) :
    (call, w) ∈ eraseKey c woken :=
  (List.mem_eraseP_of_neg (by simpa using hne.symm)).mpr hm

/-- Nothing but its own poll or drop takes a grant from a waiter. -/
theorem Granted.step {call : Acquire} (h : Granted s call) {op : Op} (hp : op ≠ .poll call)
    (hc : op ≠ .cancel call) : ∃ out t, s.step op = .ok (out, t) ∧ Granted t call := by
  obtain ⟨out, t, hs, m, ht⟩ := h.inv.step op
  refine ⟨out, t, hs, ht, h.numbered.move m, ?_⟩
  have hm := h.held
  cases m with
  | ignored | create | obtain | park | wait | cancelFresh | cancelParked | tried | refused
  | stolen | short | leak | forget | panicked => exact hm
  | @contend c hf hw hle => exact mem_eraseKey_of_ne hm fun he => hp (he ▸ rfl)
  | @requeue c hf hw hlt =>
    exact List.mem_append_left _ (mem_eraseKey_of_ne hm fun he => hp (he ▸ rfl))
  | @claim c n hf hw => exact mem_eraseKey_of_ne hm fun he => hp (he ▸ rfl)
  | @cancelWoken c w hf hp' hw =>
    exact List.mem_append_left _ (mem_eraseKey_of_ne hm fun he => hc (he ▸ rfl))
  | release hl => exact List.mem_append_left _ hm
  | add hb => exact List.mem_append_left _ hm

private theorem Granted.poll {call : Acquire} (h : Granted s call) :
    ∃ t, s.step (.poll call) = .ok (.ready ⟨call.toAcquire⟩, t) := by
  have hkey : call ∈ s.semaphore.waiters.woken.map Prod.fst := List.mem_map.mpr ⟨_, h.held, rfl⟩
  have hf : call ∉ s.fresh := by
    intro hf
    exact h.numbered.fresh_not_waiting hf (List.mem_append_left _ hkey)
  have hd := (List.nodup_append.mp (List.nodup_append.mp h.numbered.distinct).2.1).1
  have hw := lookup_of_mem hd h.held
  have hsuspended : s.suspended call := Or.inr hkey
  apply Exists.intro
  simp only [Sys.step, Sys.poll, if_neg hf, if_pos hsuspended, acquireResume_fair h.inv.idle hw,
    ok_bind]
  rfl

/-- Where permits are returned and added fairly only and no granted waiter is dropped: calls
of `acquire` are granted permits in the order of their first polls, nobody being passed over
who was not granted permits or dropped before, and `try_acquire` succeeds only when all
earlier calls were. And a waiter that was granted permits obtains as many as it asked for
when it is polled next, whatever happens in between. -/
theorem fair_releases_hand_over_in_turn (permits : Usize) (ops : List Op)
    (ha : Along Logged.step (fun g op => fairly g.sys op = true) (Logged.new permits) ops) :
    ∃ outs g, run Logged.step (Logged.new permits) ops = .ok (outs, g) ∧
      InTurn patient g.log ∧ (arrivals g.log).Nodup ∧
      ∀ call, .granted call ∈ g.log → call ∉ g.sys.obtained →
        ∀ more : List Op, (∀ op ∈ more, op ≠ .poll call ∧ op ≠ .cancel call) →
          ∃ outs t, run Sys.step g.sys more = .ok (outs, t) ∧
            ∃ t', t.step (.poll call) = .ok (.ready ⟨call.toAcquire⟩, t') := by
  have hstep : ∀ (g : Logged) (op : Op), (Inv g.sys ∧ FairOrder g) → fairly g.sys op = true →
      ∃ out t, g.step op = .ok (out, t) ∧ Inv t.sys ∧ FairOrder t := by
    rintro g op ⟨hi, h⟩ hg
    exact h.step hi hg
  have hstart : FairOrder (Logged.new permits) := by
    refine ⟨⟨List.nodup_nil, ?_⟩, ?_, rfl, InTurn.nil, ?_, List.nodup_nil, ?_⟩
    · intro c hm
      cases hm
    · intro p hm
      cases hm
    · intro c hm
      rcases hm with hm | hm | hm <;> cases hm
    · intro c hm
      cases hm
  obtain ⟨outs, g, hr, hi, h⟩ := run_guarded hstep ⟨Inv.new permits, hstart⟩ ha
  refine ⟨outs, g, hr, h.turn, h.once, ?_⟩
  intro call hgranted hnot more hmore
  have hwoken := (h.kept call hgranted).resolve_left hnot
  obtain ⟨⟨c, w⟩, hm, rfl⟩ := List.mem_map.mp hwoken
  have hheld : (c, .fair c.toAcquire) ∈ g.sys.semaphore.waiters.woken := by
    cases w with
    | unfair => exact absurd rfl (h.tokens _ hm)
    | fair n =>
      have hn : n = c.toAcquire := hi.sized _ hm n rfl
      rw [← hn]
      exact hm
  have hguard : Along Sys.step (fun _ op => op ≠ .poll c ∧ op ≠ .cancel c) g.sys more :=
    along_of_forall hmore
  obtain ⟨outs', t, hr', ht⟩ := run_guarded (I := fun s => Granted s c)
    (fun s op hs hop => hs.step hop.1 hop.2) ⟨hi, h.numbered, hheld⟩ hguard
  exact ⟨outs', t, hr', ht.poll⟩

end Steps

/-- A permit goes to the first of two waiters, a second one is stolen, and once the latter
comes back the second waiter has it, although the first one was polled late. -/
theorem fair_releases_hand_over_in_turn_two_waiters :
    ∃ outs g, run (@Logged.step ⟨64, by decide⟩) (Logged.new 0)
        [.create false 1, .create false 2, .poll ⟨0, false, 1⟩, .poll ⟨1, false, 2⟩,
          .add .fair 2, .tryAcquireUnfair 1, .release .fair ⟨1⟩, .tryAcquire 1,
          .add .fair 1] = .ok (outs, g) ∧
      InTurn patient g.log ∧ (arrivals g.log).Nodup ∧
      ∀ call, .granted call ∈ g.log → call ∉ g.sys.obtained →
        ∀ more : List Op, (∀ op ∈ more, op ≠ .poll call ∧ op ≠ .cancel call) →
          ∃ outs t, run (@Sys.step ⟨64, by decide⟩) g.sys more = .ok (outs, t) ∧
            ∃ t', @Sys.step ⟨64, by decide⟩ t (.poll call) =
              .ok (.ready ⟨call.toAcquire⟩, t') :=
  @fair_releases_hand_over_in_turn ⟨64, by decide⟩ ⟨0, by decide⟩ _ (by decide)

end Semaphore
end Unsync
