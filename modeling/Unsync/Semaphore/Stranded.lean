import Unsync.Semaphore.Runs

/-!
# Stranded permits

While somebody waits, permits must not lie idle: if the request at the head of the queue
fits the pool, some woken waiter has yet to look at the queue again. The invariant behind
this counts the pool against the head and all token holders together. Every operation
keeps it but one: `WaitInner::drop` dequeues a cancelled head without a wake-up for its
successor, which the destructors of `UnfairWoken` and `FairGrant` do give.
-/

namespace Unsync
namespace Semaphore

open Runs Greedy

/-- What a woken waiter will try to take, if it holds a token. -/
def token (entry : Acquire × WakeUp) : Nat :=
  match entry.2 with
  | .unfair => entry.1.toAcquire
  | .fair _ => 0

/-- What all token holders ask for. -/
def promised (woken : List (Acquire × WakeUp)) : Nat := total token woken

/-- The head and the token holders together ask for more than the pool has. -/
def Covered (s : Semaphore) : Prop :=
  ∀ p, s.waiters.parked.head? = some p → s.permits < wanted p + promised s.waiters.woken

/-- If the request at the head fits, a token is outstanding. -/
def Rewoken (s : Semaphore) : Prop :=
  ∀ p, s.waiters.parked.head? = some p → p.2 ≤ s.availablePermits →
    ∃ call, (call, WakeUp.unfair) ∈ s.waiters.woken

/-- Dropping the parked head would leave a successor that fits the pool besides all token
holders. -/
def strands (s : Sys) : Op → Bool
  | .cancel call =>
    match s.semaphore.waiters.parked with
    | head :: next :: _ =>
      head.1 = call && wanted next + promised s.semaphore.waiters.woken ≤ s.semaphore.permits
    | _ => false
  | _ => false

/-- The operation does not drop the future that is parked at the head of the queue. -/
def keepsHead (s : Sys) : Op → Bool
  | .cancel call => s.semaphore.waiters.parked.head?.map Prod.fst != some call
  | _ => true

private theorem strands_of_keepsHead {s : Sys} {op : Op} (h : keepsHead s op = true) :
    strands s op = false := by
  cases op with
  | cancel call =>
    simp only [keepsHead, bne_iff_ne] at h
    simp only [strands]
    split
    · next head next rest hq =>
      have hne : head.1 ≠ call := by
        rw [hq] at h
        simpa using h
      simp [hne]
    · rfl
  | _ => rfl

private theorem promised_eq_zero {woken : List (Acquire × WakeUp)}
    (h : ∀ call, (call, WakeUp.unfair) ∉ woken) : promised woken = 0 := by
  apply List.sum_eq_zero
  intro n hn
  obtain ⟨⟨call, w⟩, hp, rfl⟩ := List.mem_map.mp hn
  cases w with
  | fair => rfl
  | unfair => exact absurd hp (h call)

private theorem Covered.rewoken {s : Semaphore} (h : s.Covered) : s.Rewoken := by
  intro p hp hle
  by_contra hno
  have hz := promised_eq_zero fun call hm => hno ⟨call, hm⟩
  have hlt := h p hp
  simp only [wanted, hz, availablePermits] at hlt hle
  omega

/-! ### What keeps the pool covered -/

section Keep

variable {s : Semaphore} {call : Acquire}

private theorem promised_wakeUp (entries : List (Acquire × Nat))
    (h : ∀ p ∈ entries, p.2 = p.1.toAcquire) :
    promised (entries.map fun p => (p.1, wakeUp .unfair p.2)) = total wanted entries := by
  rw [promised, total, List.map_map, total]
  congr 1
  apply List.map_congr_left
  intro p hp
  exact (h p hp).symm

private theorem covered_released (permits : Nat) (fairness : Fairness)
    (ha : ∀ p ∈ s.waiters.parked, p.2 = p.1.toAcquire) :
    (s.released permits fairness).Covered := by
  intro p hp
  obtain ⟨rest, hu⟩ := List.head?_eq_some_iff.mp hp
  have hlt := lt_of_unserved wanted hu
  have hle := total_served_le wanted (s.permits + permits) s.waiters.parked
  have hs : ∀ c ∈ served wanted (s.permits + permits) s.waiters.parked,
      c.2 = c.1.toAcquire := by
    intro c hc
    apply ha
    rw [← served_append_unserved wanted (s.permits + permits) s.waiters.parked]
    exact List.mem_append_left _ hc
  cases fairness with
  | fair =>
    simp only [released, handOut] at hlt ⊢
    omega
  | unfair =>
    have hw := promised_wakeUp _ hs
    simp only [released, handOut, promised, total_append] at hlt hw ⊢
    omega

private theorem Covered.take (h : s.Covered) (permits : Nat) : (s.take permits).Covered := by
  intro p hp
  exact lt_of_le_of_lt (Nat.sub_le _ _) (h p hp)

private theorem Covered.enqueue (h : s.Covered) (hb : s.Blocked call) :
    (s.enqueue call).Covered := by
  intro p hp
  cases hq : s.waiters.parked with
  | nil =>
    have hlt : s.permits < call.toAcquire := hb.resolve_right fun hf => hf.2 hq
    simp only [Semaphore.enqueue, hq, List.nil_append, List.head?_cons, Option.some.injEq] at hp
    rw [← hp]
    exact Nat.lt_add_right _ hlt
  | cons q rest =>
    apply h p
    simpa [Semaphore.enqueue, hq] using hp

private theorem Covered.contend (h : s.Covered) (hw : s.waiters.woken.lookup call = some .unfair)
    (hle : call.toAcquire ≤ s.permits) : ((s.collect call).take call.toAcquire).Covered := by
  intro p hp
  have hlt := h p hp
  obtain ⟨l, r, hlr, -, he⟩ := lookup_split hw
  simp only [hlr, promised, total_append, total_cons, token] at hlt
  simp only [collect, Semaphore.take, he, promised, total_append]
  omega

private theorem Covered.claim (h : s.Covered) {n : Nat}
    (hw : s.waiters.woken.lookup call = some (.fair n)) : (s.collect call).Covered := by
  intro p hp
  have hlt := h p hp
  obtain ⟨l, r, hlr, -, he⟩ := lookup_split hw
  simp only [hlr, promised, total_append, total_cons, token] at hlt
  simp only [collect, he, promised, total_append]
  omega

private theorem Covered.withdraw (h : s.Covered)
    (hnext : ∀ head next rest, s.waiters.parked = head :: next :: rest → head.1 = call →
      s.permits < wanted next + promised s.waiters.woken) : (s.withdraw call).Covered := by
  intro p hp
  cases hq : s.waiters.parked with
  | nil => simp [Semaphore.withdraw, eraseKey, hq] at hp
  | cons head rest =>
    by_cases he : head.1 = call
    · cases rest with
      | nil => simp [Semaphore.withdraw, eraseKey, hq, he] at hp
      | cons next rest =>
        simp only [Semaphore.withdraw, eraseKey, hq, he, List.eraseP_cons, decide_true, cond_true,
          List.head?_cons, Option.some.injEq] at hp
        rw [← hp]
        exact hnext head next rest hq he
    · simp only [Semaphore.withdraw, eraseKey, hq, he, List.eraseP_cons, decide_false, cond_false,
        List.head?_cons, Option.some.injEq] at hp
      rw [← hp]
      exact h head (by rw [hq, List.head?_cons])

private theorem withdraw_strands {head next : Acquire × Nat} {rest : List (Acquire × Nat)}
    (hq : s.waiters.parked = head :: next :: rest) (hle : wanted next ≤ s.permits)
    (ht : ∀ call, (call, WakeUp.unfair) ∉ s.waiters.woken) :
    ¬ (s.withdraw head.1).Rewoken := by
  intro h
  have hn : (s.withdraw head.1).waiters.parked.head? = some next := by
    simp [Semaphore.withdraw, eraseKey, hq]
  obtain ⟨call, hm⟩ := h next hn hle
  exact ht call hm

end Keep

section Steps

variable [Target] {s : Sys}

/-- Every move that strands nobody keeps the pool covered. -/
theorem Covered.move (hi : Inv s) (h : s.semaphore.Covered) {op : Op} {out : Out} {t : Sys}
    (hg : strands s op = false) (m : Move s op out t) : t.semaphore.Covered := by
  cases m with
  | ignored | create | wait | refused | short | forget | cancelFresh | leak | panicked => exact h
  | obtain hf hb => exact h.take _
  | park hf hb => exact h.enqueue hb
  | contend hf hw hle => exact h.contend hw hle
  | @requeue call hf hw hlt =>
    have hr := covered_released (s := s.semaphore.collect call) 0 .unfair hi.asked
    exact hr.enqueue (.inl hlt)
  | claim hf hw => exact h.claim hw
  | @cancelParked call n hf hp =>
    apply h.withdraw
    intro head next rest hq he
    simpa [strands, hq, he] using hg
  | cancelWoken hf hp hw => exact covered_released _ .unfair hi.asked
  | tried hp hle | stolen hle => exact h.take _
  | release hl => exact covered_released _ _ hi.asked
  | add hb => exact covered_released _ _ hi.asked

/-- A run that strands nobody keeps the pool covered. -/
theorem run_covered (permits : Usize) {ops : List Op}
    (ha : Along Sys.step (fun s op => strands s op = false) (Sys.new permits) ops) :
    ∃ outs s, run Sys.step (Sys.new permits) ops = .ok (outs, s) ∧ Inv s ∧
      s.semaphore.Covered := by
  have hstep : ∀ (s : Sys) (op : Op), (Inv s ∧ s.semaphore.Covered) → strands s op = false →
      ∃ out t, s.step op = .ok (out, t) ∧ Inv t ∧ t.semaphore.Covered := by
    rintro s op ⟨hi, hc⟩ hg
    obtain ⟨out, t, hs, hm, ht⟩ := hi.step op
    exact ⟨out, t, hs, ht, hc.move hi hg hm⟩
  have h₀ : (Sys.new permits).semaphore.Covered := by
    intro p hp
    cases hp
  exact run_guarded hstep ⟨Inv.new permits, h₀⟩ ha

/-- Unless a parked head is dropped before a successor that fits the pool besides all token
holders, permits are never stranded. -/
theorem permits_not_stranded (permits : Usize) (ops : List Op)
    (ha : Along Sys.step (fun s op => strands s op = false) (Sys.new permits) ops) :
    ∃ outs s, run Sys.step (Sys.new permits) ops = .ok (outs, s) ∧ s.semaphore.Rewoken := by
  obtain ⟨outs, s, hr, -, hc⟩ := run_covered permits ha
  exact ⟨outs, s, hr, hc.rewoken⟩

/-- As long as no future is dropped while it is parked at the head of the queue, the request at
the head and the requests of all futures that hold a token exceed the available permits
together; and the request at the head alone does once no token is left. -/
theorem head_and_tokens_exceed_pool (permits : Usize) (ops : List Op)
    (ha : Along Sys.step (fun s op => keepsHead s op = true) (Sys.new permits) ops) :
    ∃ outs s, run Sys.step (Sys.new permits) ops = .ok (outs, s) ∧
      ∀ head, s.semaphore.waiters.parked.head? = some head →
        s.semaphore.availablePermits <
          head.1.toAcquire + promised s.semaphore.waiters.woken ∧
        ((∀ call, (call, WakeUp.unfair) ∉ s.semaphore.waiters.woken) →
          s.semaphore.availablePermits < head.1.toAcquire) := by
  have ha' := Along.mono (fun _ _ hkeeps => strands_of_keepsHead hkeeps) ha
  obtain ⟨outs, s, hr, hi, hc⟩ := run_covered permits ha'
  refine ⟨outs, s, hr, ?_⟩
  intro head hhead
  have hlt : s.semaphore.permits < head.2 + promised s.semaphore.waiters.woken := hc head hhead
  rw [hi.asked head (List.mem_of_mem_head? hhead)] at hlt
  refine ⟨hlt, ?_⟩
  intro hnone
  rwa [promised_eq_zero hnone, Nat.add_zero] at hlt

end Steps

/-- A parked head is dropped before a successor that does not fit, and later served. -/
theorem permits_not_stranded_two_waiters :
    ∃ outs s, run (@Sys.step ⟨64, by decide⟩) (Sys.new 1)
      [.create false 2, .poll ⟨0, false, 2⟩, .create false 3, .poll ⟨1, false, 3⟩,
        .cancel ⟨0, false, 2⟩, .add .unfair 2] = .ok (outs, s) ∧ s.semaphore.Rewoken :=
  @permits_not_stranded ⟨64, by decide⟩ ⟨1, by decide⟩ _ (by decide)

/-- Two futures are woken by one release that has the permits for either of them: the first
takes them, the second parks again. -/
theorem head_and_tokens_exceed_pool_two_waiters :
    ∃ outs s, run (@Sys.step ⟨64, by decide⟩) (Sys.new 0)
      [.create false 1, .poll ⟨0, false, 1⟩, .create false 2, .poll ⟨1, false, 2⟩,
        .add .unfair 1, .add .unfair 1, .poll ⟨0, false, 1⟩, .poll ⟨1, false, 2⟩] =
          .ok (outs, s) ∧
      ∀ head, s.semaphore.waiters.parked.head? = some head →
        s.semaphore.availablePermits <
          head.1.toAcquire + promised s.semaphore.waiters.woken ∧
        ((∀ call, (call, WakeUp.unfair) ∉ s.semaphore.waiters.woken) →
          s.semaphore.availablePermits < head.1.toAcquire) :=
  @head_and_tokens_exceed_pool ⟨64, by decide⟩ ⟨0, by decide⟩ _ (by decide)

/-- Two futures wait for more than the only permit and for just that permit. Dropping the
first strands the permit: nobody is woken, and `try_acquire` is refused. -/
theorem cancelled_head_strands_permits :
    ∃ outs s, run (@Sys.step ⟨64, by decide⟩) (Sys.new 1)
      [.create false 2, .poll ⟨0, false, 2⟩, .create false 1, .poll ⟨1, false, 1⟩,
        .cancel ⟨0, false, 2⟩, .tryAcquire 1] = .ok (outs, s) ∧
      outs.getLast? = some (.tried none) ∧ s.semaphore.permits = s.semaphore.totalPermits ∧
      s.semaphore.waiters.woken = [] ∧ ¬ s.semaphore.Rewoken := by
  refine ⟨_, _, rfl, rfl, rfl, rfl, ?_⟩
  intro h
  obtain ⟨call, hm⟩ := h _ rfl (Nat.le_refl 1)
  cases hm

end Semaphore
end Unsync
