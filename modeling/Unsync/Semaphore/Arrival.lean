import Unsync.Semaphore.Runs

/-!
# Arrival order

Where permits are requested with `acquire` alone, nobody gives up, and woken waiters are
polled in turn, calls should obtain permits in the order in which they were first polled.
Three lists in a row hold that order: those served, those woken, those parked. The order
is lost where a woken waiter finds the pool short, because earlier wake-ups were promised
the same permits: it queues again behind everybody who came later.
-/

namespace Unsync
namespace Semaphore

open Runs Greedy

/-- The runs in question: only `acquire` takes permits, no future is cancelled, nobody new
is polled while a woken waiter is due, and woken waiters are polled in turn. -/
def orderly (s : Sys) : Op → Bool
  | .create unfair _ => !unfair
  | .poll call =>
    if call ∈ s.fresh then s.semaphore.waiters.woken.isEmpty
    else call ∉ s.semaphore.waiters.woken.map Prod.fst ||
      s.semaphore.waiters.woken.head?.map Prod.fst = some call
  | .cancel _ => false
  | .tryAcquire _ => s.semaphore.waiters.woken.isEmpty
  | .tryAcquireUnfair _ => false
  | .release _ _ | .leak _ | .forget _ | .add _ _ => true

/-- A polled token holder finds the permits it asks for, or nobody else is waiting. -/
def keepsPlace (s : Sys) : Op → Bool
  | .poll call =>
    s.semaphore.waiters.woken.lookup call ≠ some .unfair ||
      call.toAcquire ≤ s.semaphore.permits ||
      s.semaphore.waiters.parked.isEmpty && s.semaphore.waiters.woken.length = 1
  | _ => true

/-- The calls still waiting, those that were woken before those that are parked. -/
def waiting (s : Semaphore) : List Acquire :=
  s.waiters.woken.map Prod.fst ++ s.waiters.parked.map Prod.fst

/-- Calls were served in the order of their first polls, and nobody was passed over. -/
def InOrder (s : Sys) : Prop := s.obtained <+: s.arrived

/-- The calls polled so far, in order: those served, then those waiting. -/
structure Lined (s : Sys) : Prop where
  fair : ∀ call ∈ s.fresh, call.unfair = false
  order : s.arrived = s.obtained ++ waiting s.semaphore

/-- A release moves waiters from the queue to the woken, in order. -/
theorem waiting_released (s : Semaphore) (permits : Nat) (fairness : Fairness) :
    waiting (s.released permits fairness) = waiting s := by
  have hk : (((served wanted (s.permits + permits) s.waiters.parked).map
      fun p => (p.1, wakeUp fairness p.2)).map Prod.fst) =
      (served wanted (s.permits + permits) s.waiters.parked).map Prod.fst := by
    rw [List.map_map]
    rfl
  simp only [waiting, released, handOut, List.map_append, hk, List.append_assoc]
  rw [← List.map_append, served_append_unserved]

private theorem orderly_head {s : Sys} {call : Acquire} {w : WakeUp} (hf : call ∉ s.fresh)
    (hg : orderly s (.poll call) = true) (hw : s.semaphore.waiters.woken.lookup call = some w) :
    ∃ rest, s.semaphore.waiters.woken = (call, w) :: rest := by
  have hm : call ∈ s.semaphore.waiters.woken.map Prod.fst :=
    List.mem_map.mpr ⟨_, mem_of_lookup hw, rfl⟩
  simp only [orderly, if_neg hf, hm, not_true_eq_false, decide_false, Bool.false_or,
    decide_eq_true_eq] at hg
  cases hq : s.semaphore.waiters.woken with
  | nil => simp [hq] at hw
  | cons p rest =>
    obtain ⟨k, o⟩ := p
    simp only [hq, List.head?_cons, Option.map_some, Option.some.injEq] at hg
    subst hg
    rw [hq, List.lookup_cons_self, Option.some.injEq] at hw
    exact ⟨rest, by rw [hw]⟩

section Steps

variable [Target] {s : Sys}

/-- The line is kept by every move of an orderly run in which places are kept. -/
theorem Lined.move (h : Lined s) {op : Op} {out : Out} {t : Sys}
    (hg : orderly s op = true) (hk : keepsPlace s op = true) (m : Move s op out t) : Lined t := by
  have ho := h.order
  cases m with
  | ignored | wait | refused | short | panicked | leak | forget => exact ⟨h.fair, ho⟩
  | cancelFresh | cancelParked | cancelWoken | stolen => cases hg
  | tried => exact ⟨h.fair, ho⟩
  | @create unfair n =>
    refine ⟨?_, ho⟩
    intro call hc
    rcases List.mem_append.mp hc with hc | hc
    · exact h.fair call hc
    · rw [List.mem_singleton.mp hc]
      simpa [orderly] using hg
  | @obtain call hf hb =>
    have hw : s.semaphore.waiters.woken = [] := by simpa [orderly, hf] using hg
    have hp : s.semaphore.waiters.parked = [] := by
      by_contra hne
      exact hb (.inr ⟨h.fair call hf, hne⟩)
    refine ⟨fun c hc => h.fair c (List.mem_of_mem_erase hc), ?_⟩
    simp only [waiting, hw, hp, List.map_nil, List.append_nil] at ho
    simp [Sys.complete, Sys.arrive, waiting, Semaphore.take, hw, hp, ho]
  | @park call hf hb =>
    refine ⟨fun c hc => h.fair c (List.mem_of_mem_erase hc), ?_⟩
    simp [Sys.arrive, waiting, Semaphore.enqueue, ho]
  | @contend call hf hw hle =>
    obtain ⟨rest, hq⟩ := orderly_head hf hg hw
    refine ⟨h.fair, ?_⟩
    simp [Sys.complete, waiting, collect, Semaphore.take, ho, hq]
  | @claim call n hf hw =>
    obtain ⟨rest, hq⟩ := orderly_head hf hg hw
    refine ⟨h.fair, ?_⟩
    simp [Sys.complete, waiting, collect, ho, hq]
  | @requeue call hf hw hlt =>
    obtain ⟨rest, hq⟩ := orderly_head hf hg hw
    -- Nobody else waits, so the place behind everybody is the place it had.
    have halone : s.semaphore.waiters.parked = [] ∧ rest = [] := by
      simpa [keepsPlace, hw, Nat.not_le.mpr hlt, hq] using hk
    have hnone : waiting ((s.semaphore.collect call).released 0 .unfair) = [] := by
      rw [waiting_released]
      simp [waiting, collect, hq, halone]
    refine ⟨h.fair, ?_⟩
    have hsplit : waiting (((s.semaphore.collect call).released 0 .unfair).enqueue call) =
        waiting ((s.semaphore.collect call).released 0 .unfair) ++ [call] := by
      simp [waiting, Semaphore.enqueue]
    simp only [hsplit, hnone, ho]
    simp [waiting, hq, halone]
  | release hl => exact ⟨h.fair, by rw [waiting_released, ho]⟩
  | add hb =>
    refine ⟨h.fair, ?_⟩
    rw [waiting_released]
    exact ho

/-- In an orderly run in which every polled token holder finds its permits or is alone,
calls are served in the order of their first polls. -/
theorem acquire_in_arrival_order (permits : Usize) (ops : List Op)
    (ha : Along Sys.step (fun s op => orderly s op = true ∧ keepsPlace s op = true)
      (Sys.new permits) ops) :
    ∃ outs s, run Sys.step (Sys.new permits) ops = .ok (outs, s) ∧ InOrder s := by
  have hstep : ∀ (s : Sys) (op : Op), (Inv s ∧ Lined s) →
      (orderly s op = true ∧ keepsPlace s op = true) →
      ∃ out t, s.step op = .ok (out, t) ∧ Inv t ∧ Lined t := by
    rintro s op ⟨hi, hl⟩ ⟨hg, hk⟩
    obtain ⟨out, t, hs, hm, ht⟩ := hi.step op
    exact ⟨out, t, hs, ht, hl.move hg hk hm⟩
  have h₀ : Lined (Sys.new permits) := ⟨fun _ hc => (List.not_mem_nil hc).elim, rfl⟩
  obtain ⟨outs, s, hr, -, hl⟩ := run_guarded hstep ⟨Inv.new permits, h₀⟩ ha
  exact ⟨outs, s, hr, _, hl.order.symm⟩

end Steps

/-- Two waiters are served one after the other, the second by a fair release. -/
theorem acquire_in_arrival_order_two_waiters :
    ∃ outs s, run (@Sys.step ⟨64, by decide⟩) (Sys.new 0)
      [.create false 1, .create false 2, .poll ⟨0, false, 1⟩, .poll ⟨1, false, 2⟩,
        .add .unfair 1, .poll ⟨0, false, 1⟩, .add .fair 2, .poll ⟨1, false, 2⟩] =
      .ok (outs, s) ∧ InOrder s :=
  @acquire_in_arrival_order ⟨64, by decide⟩ ⟨0, by decide⟩ _ (by decide)

/-- The first permit is promised to the first waiter, and with the second one both are
promised to the waiter for two. It finds one left, queues again, and the last waiter, which
wants a single permit, obtains it first. -/
theorem larger_request_is_passed_over :
    Along (@Sys.step ⟨64, by decide⟩) (fun s op => orderly s op = true) (Sys.new 0)
      [.create false 1, .create false 2, .create false 1, .poll ⟨0, false, 1⟩,
        .poll ⟨1, false, 2⟩, .poll ⟨2, false, 1⟩, .add .unfair 1, .add .unfair 1,
        .poll ⟨0, false, 1⟩, .poll ⟨1, false, 2⟩, .poll ⟨2, false, 1⟩] ∧
    ∃ outs s, run (@Sys.step ⟨64, by decide⟩) (Sys.new 0)
      [.create false 1, .create false 2, .create false 1, .poll ⟨0, false, 1⟩,
        .poll ⟨1, false, 2⟩, .poll ⟨2, false, 1⟩, .add .unfair 1, .add .unfair 1,
        .poll ⟨0, false, 1⟩, .poll ⟨1, false, 2⟩, .poll ⟨2, false, 1⟩] = .ok (outs, s) ∧
      s.obtained = [⟨0, false, 1⟩, ⟨2, false, 1⟩] ∧ waiting s.semaphore = [⟨1, false, 2⟩] ∧
      ¬ InOrder s := by
  refine ⟨by decide, _, _, rfl, rfl, rfl, ?_⟩
  unfold InOrder
  decide

end Semaphore
end Unsync
