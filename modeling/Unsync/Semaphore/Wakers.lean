import Unsync.Semaphore.Release

/-!
# Releases whose wakers use the semaphore

`release_permits` calls wakers while it holds the wait list. A waker may call what does not
touch that list: `try_acquire_unfair`, keeping the guard, and `leak`. An unfair release keeps
such deductions. A fair one writes its local copy of the pool back for every waiter that it
serves, over whatever the wakers before took.
-/

namespace Unsync
namespace Semaphore

open Runs Greedy

/-- A call that a waker makes. -/
inductive WakerCall where
  | tryAcquireUnfair (toAcquire : Nat)
  /-- Leak one of the guards alive; without such a guard the call cannot be written. -/
  | leak (permit : Permit)
  deriving DecidableEq, Repr

/-- One call of a waker, with the guards alive before and after it. -/
def wakerCall (s : Semaphore) (live : List Permit) :
    WakerCall → Except Fault (Semaphore × List Permit)
  | .tryAcquireUnfair toAcquire =>
    let (guard, s) := s.tryAcquireUnfair toAcquire
    .ok (s, guard.toList ++ live)
  | .leak permit =>
    if permit ∈ live then do
      let s ← s.leak permit
      .ok (s, live.erase permit)
    else .ok (s, live)

/-- The calls of one waker. -/
def wakerCalls : Semaphore → List Permit → List WakerCall →
    Except Fault (Semaphore × List Permit)
  | s, live, [] => .ok (s, live)
  | s, live, c :: cs => do
    let (s, live) ← s.wakerCall live c
    s.wakerCalls live cs

/-- The loop of `release_permits`, `src/semaphore.rs:395–420`, where `wake_one` runs the
waker of the waiter that it dequeued. -/
def releaseLoopWith (wakers : Acquire → List WakerCall) (fairness : Fairness) :
    Nat → Semaphore → List Permit → Nat → Except Fault (Semaphore × List Permit)
  | 0, _, _, _ => .error .outOfFuel
  | fuel + 1, s, live, permits =>
    match s.waiters.parked with
    | [] => .ok (s, live)
    | (call, wantedPermits) :: _ =>
      match checkedSub permits wantedPermits with
      | none => .ok (s, live)
      | some permits =>
        -- Only a fair release commits the deduction.
        let s := match fairness with
          | .fair => { s with permits := permits }
          | .unfair => s
        match s.waiters.wakeOne (wakeUp fairness wantedPermits) with
        | (.error _, _) => .error .unreachable
        | (.ok _, waiters) => do
          let (s, live) ← { s with waiters := waiters }.wakerCalls live (wakers call)
          releaseLoopWith wakers fairness fuel s live permits

/-- `Semaphore::release_permits`, `src/semaphore.rs:389–421`, with the wakers that it runs. -/
def releasePermitsWith [Target] (s : Semaphore) (wakers : Acquire → List WakerCall)
    (live : List Permit) (permits : Nat) (fairness : Fairness) :
    Except Fault (Semaphore × List Permit) := do
  let permits ← addUsize s.permits permits
  let waiters ← s.waiters.borrow
  let s := { s with permits := permits, waiters := waiters }
  let (s, live) ← releaseLoopWith wakers fairness (waiters.parked.length + 1) s live permits
  let waiters ← s.waiters.unborrow
  .ok ({ s with waiters := waiters }, live)

private theorem releaseLoopWith_silent (fairness : Fairness) (fuel : Nat) (s : Semaphore)
    (live : List Permit) (permits : Nat) :
    releaseLoopWith (fun _ => []) fairness fuel s live permits =
      (do let s ← releaseLoop fairness fuel s permits; .ok (s, live)) := by
  induction fuel generalizing s permits with
  | zero => rfl
  | succ fuel ih =>
    simp only [releaseLoopWith, releaseLoop, WaitQueue.headInput]
    cases hq : s.waiters.parked with
    | nil => rfl
    | cons p rest =>
      simp only [List.head?_cons, Option.map_some]
      cases checkedSub permits p.2 with
      | none => rfl
      | some left =>
        cases fairness <;> simp only [WaitQueue.wakeOne, hq, wakerCalls, ok_bind, ih]

/-- With wakers that only record the wake-up this is the release modelled without them. -/
theorem releasePermitsWith_silent [Target] (s : Semaphore) (live : List Permit) (permits : Nat)
    (fairness : Fairness) :
    s.releasePermitsWith (fun _ => []) live permits fairness =
      (do let s ← s.releasePermits permits fairness; .ok (s, live)) := by
  unfold releasePermitsWith releasePermits
  cases addUsize s.permits permits with
  | error e => rfl
  | ok permits =>
    cases hb : s.waiters.borrow with
    | error e => simp only [ok_bind, error_bind]
    | ok waiters =>
      simp only [ok_bind, releaseLoopWith_silent]
      cases releaseLoop fairness (waiters.parked.length + 1)
          { s with permits := permits, waiters := waiters } permits with
      | error e => rfl
      | ok t =>
        simp only [ok_bind]
        cases t.waiters.unborrow <;> rfl

/-- The permits in the pool, in guards alive and in grants that were not collected. -/
def accounted (s : Semaphore) (live : List Permit) : Nat :=
  s.permits + total Permit.permits live + grants s.waiters.woken

/-- No waker but that of the last waiter served takes permits: if the pool covers the queue
through `q`, the waker of the waiter before `q` asks for none, or for more than is left. -/
def Quiet (wakers : Acquire → List WakerCall) (permits : Nat) (queue : List (Acquire × Nat)) :
    Prop :=
  ∀ l p q r, queue = l ++ p :: q :: r → total wanted (l ++ [p, q]) ≤ permits →
    ∀ k, .tryAcquireUnfair k ∈ wakers p.1 → k = 0 ∨ permits < total wanted (l ++ [p]) + k

/-- The calls of one waker find less than they ask for in a pool, or ask for nothing. -/
def Idle (calls : List WakerCall) (permits : Nat) : Prop :=
  ∀ k, .tryAcquireUnfair k ∈ calls → k = 0 ∨ permits < k

private theorem idle_cons (c : WakerCall) (cs : List WakerCall) (permits : Nat) :
    Idle (c :: cs) permits ↔ Idle [c] permits ∧ Idle cs permits := by
  constructor
  · intro h
    constructor
    · intro k hk
      rw [List.mem_singleton] at hk
      exact h k (by rw [hk]; exact List.mem_cons_self)
    · intro k hk
      exact h k (List.mem_cons_of_mem c hk)
  · rintro ⟨hc, hcs⟩ k hk
    rcases List.mem_cons.mp hk with hk | hk
    · exact hc k (by rw [hk]; exact List.mem_cons_self)
    · exact hcs k hk

private theorem idle_leak (p : Permit) (permits : Nat) : Idle [.leak p] permits := by
  intro k hk
  rw [List.mem_singleton] at hk
  cases hk

private theorem idle_tryAcquireUnfair (n permits : Nat) :
    Idle [.tryAcquireUnfair n] permits ↔ n = 0 ∨ permits < n := by
  constructor
  · intro h
    exact h n List.mem_cons_self
  · intro h k hk
    rw [List.mem_singleton] at hk
    cases hk
    exact h

section Calls

variable {s t : Semaphore} {live live' : List Permit}

/-- A call of a waker moves permits out of the pool or out of the total. -/
theorem wakerCall_ledger {c : WakerCall} (h : s.wakerCall live c = .ok (t, live')) :
    t.waiters = s.waiters ∧ t.permits ≤ s.permits ∧
      (t.permits = s.permits ↔ Idle [c] s.permits) ∧
      t.accounted live' + s.totalPermits = s.accounted live + t.totalPermits := by
  cases c with
  | tryAcquireUnfair n =>
    rw [idle_tryAcquireUnfair]
    by_cases hn : n ≤ s.permits
    · simp only [wakerCall, tryAcquireUnfair_some hn] at h
      cases h
      have hpool : (s.take n).permits = s.permits - n := rfl
      refine ⟨rfl, Nat.sub_le _ _, by omega, ?_⟩
      simp only [accounted, take, Option.toList_some, List.singleton_append, total_cons]
      omega
    · have hlt : s.permits < n := Nat.lt_of_not_le hn
      simp only [wakerCall, tryAcquireUnfair_none hlt] at h
      cases h
      exact ⟨rfl, Nat.le_refl _, iff_of_true rfl (Or.inr hlt), rfl⟩
  | leak p =>
    have hidle := idle_leak p s.permits
    by_cases hp : p ∈ live
    · simp only [wakerCall, if_pos hp, leak, subUsize] at h
      split at h
      · next hle =>
        cases h
        have he := total_erase Permit.permits hp
        refine ⟨rfl, Nat.le_refl _, iff_of_true rfl hidle, ?_⟩
        simp only [accounted]
        omega
      · cases h
    · simp only [wakerCall, if_neg hp] at h
      cases h
      exact ⟨rfl, Nat.le_refl _, iff_of_true rfl hidle, rfl⟩

private theorem wakerCall_ok (c : WakerCall) (h : s.accounted live ≤ s.totalPermits) :
    ∃ r, s.wakerCall live c = .ok r := by
  cases c with
  | tryAcquireUnfair n => exact ⟨_, rfl⟩
  | leak p =>
    by_cases hp : p ∈ live
    · have he := total_erase Permit.permits hp
      have hle : p.permits ≤ s.totalPermits := by
        simp only [accounted] at h
        omega
      simp only [wakerCall, if_pos hp, leak, subUsize, if_pos hle, ok_bind]
      exact ⟨_, rfl⟩
    · exact ⟨(s, live), by simp only [wakerCall, if_neg hp]⟩

/-- The calls of a waker move permits out of the pool or out of the total, and leave the
pool alone exactly when they are idle. -/
theorem wakerCalls_ledger {cs : List WakerCall} (h : s.wakerCalls live cs = .ok (t, live')) :
    t.waiters = s.waiters ∧ t.permits ≤ s.permits ∧
      (t.permits = s.permits ↔ Idle cs s.permits) ∧
      t.accounted live' + s.totalPermits = s.accounted live + t.totalPermits := by
  induction cs generalizing s live with
  | nil =>
    cases h
    exact ⟨rfl, Nat.le_refl _, iff_of_true rfl (fun k hk => by cases hk), rfl⟩
  | cons c cs ih =>
    rw [wakerCalls] at h
    cases hc : s.wakerCall live c with
    | error e =>
      rw [hc] at h
      cases h
    | ok r =>
      obtain ⟨u, mid⟩ := r
      rw [hc, ok_bind] at h
      obtain ⟨hw, hle, hidle, hsum⟩ := wakerCall_ledger hc
      obtain ⟨hw', hle', hidle', hsum'⟩ := ih h
      refine ⟨hw'.trans hw, hle'.trans hle, ?_, by omega⟩
      rw [idle_cons, ← hidle]
      constructor
      · intro he
        have hu : u.permits = s.permits := by omega
        rw [hu] at hidle'
        exact ⟨hu, hidle'.mp he⟩
      · rintro ⟨hu, hrest⟩
        rw [hu] at hidle'
        exact hidle'.mpr hrest

private theorem wakerCalls_ok (cs : List WakerCall) (h : s.accounted live = s.totalPermits) :
    ∃ r, s.wakerCalls live cs = .ok r := by
  induction cs generalizing s live with
  | nil => exact ⟨_, rfl⟩
  | cons c cs ih =>
    obtain ⟨⟨u, mid⟩, hc⟩ := wakerCall_ok c h.le
    obtain ⟨-, -, -, hsum⟩ := wakerCall_ledger hc
    rw [wakerCalls, hc, ok_bind]
    exact ih (by omega)

end Calls

/-! ### The loop -/

/-- The pool does not cover whoever is at the head of the queue. -/
def Short (permits : Nat) (queue : List (Acquire × Nat)) : Prop :=
  ∀ q r, queue = q :: r → permits < q.2

private theorem head_of_not_short {permits : Nat} {queue : List (Acquire × Nat)}
    (h : ¬ Short permits queue) : ∃ p rest, queue = p :: rest ∧ p.2 ≤ permits := by
  cases queue with
  | nil => exact absurd (fun q r he => by cases he) h
  | cons p rest =>
    refine ⟨p, rest, rfl, ?_⟩
    by_contra hlt
    apply h
    rintro q r ⟨⟩
    exact Nat.lt_of_not_le hlt

private theorem quiet_of_short {wakers : Acquire → List WakerCall} {permits : Nat}
    {queue : List (Acquire × Nat)} (h : Short permits queue) : Quiet wakers permits queue := by
  rintro l p q r rfl hq
  cases l with
  | nil =>
    have hlt := h p (q :: r) rfl
    simp only [List.nil_append, total_cons, wanted] at hq
    omega
  | cons x l =>
    have hlt := h x (l ++ p :: q :: r) rfl
    simp only [List.cons_append, total_cons, wanted] at hq
    omega

/-- The waker of a served waiter is idle or the last that runs. -/
theorem quiet_cons {wakers : Acquire → List WakerCall} {permits : Nat} {p : Acquire × Nat}
    {rest : List (Acquire × Nat)} (hp : p.2 ≤ permits) :
    Quiet wakers permits (p :: rest) ↔
      (Short (permits - p.2) rest ∨ Idle (wakers p.1) (permits - p.2)) ∧
        Quiet wakers (permits - p.2) rest := by
  constructor
  · intro h
    constructor
    · by_cases hs : Short (permits - p.2) rest
      · exact Or.inl hs
      · obtain ⟨q, r, rfl, hq⟩ := head_of_not_short hs
        refine Or.inr fun k hk => ?_
        have htotal : total wanted ([] ++ [p, q]) ≤ permits := by
          simp only [List.nil_append, total_cons, total_nil, wanted]
          omega
        have hk' := h [] p q r rfl htotal k hk
        simp only [List.nil_append, total_cons, total_nil, wanted] at hk'
        omega
    · rintro l p' q r rfl hq k hk
      have htotal : total wanted (p :: l ++ [p', q]) ≤ permits := by
        simp only [List.cons_append, total_cons, wanted] at hq ⊢
        omega
      have hk' := h (p :: l) p' q r rfl htotal k hk
      simp only [List.cons_append, total_cons, wanted] at hk' ⊢
      omega
  · rintro ⟨hnext, hrest⟩ l p' q r he hq k hk
    cases l with
    | nil =>
      simp only [List.nil_append, List.cons.injEq] at he
      obtain ⟨rfl, rfl⟩ := he
      simp only [List.nil_append, total_cons, total_nil, wanted] at hq ⊢
      have hle : ¬ permits - p.2 < q.2 := by omega
      have hidle := hnext.resolve_left fun hs => hle (hs q r rfl)
      have hk' := hidle k hk
      omega
    | cons x l =>
      simp only [List.cons_append, List.cons.injEq] at he
      obtain ⟨rfl, rfl⟩ := he
      simp only [List.cons_append, total_cons, wanted] at hq ⊢
      have hk' := hrest l p' q r rfl (by omega) k hk
      omega

/-- The semaphore when a served waiter's waker is called. -/
def serve (s : Semaphore) (fairness : Fairness) (permits : Nat) (p : Acquire × Nat)
    (rest : List (Acquire × Nat)) : Semaphore :=
  { s with
    permits := match fairness with
      | .fair => permits - p.2
      | .unfair => s.permits
    waiters := { s.waiters with
      parked := rest, woken := s.waiters.woken ++ [(p.1, wakeUp fairness p.2)] } }

section Loop

variable {wakers : Acquire → List WakerCall} {fairness : Fairness} {fuel permits : Nat}
  {s t : Semaphore} {live live' : List Permit}

private theorem releaseLoopWith_short (h : Short permits s.waiters.parked) :
    releaseLoopWith wakers fairness (fuel + 1) s live permits = .ok (s, live) := by
  cases hq : s.waiters.parked with
  | nil => simp only [releaseLoopWith, hq]
  | cons p rest =>
    have hlt := h p rest hq
    simp only [releaseLoopWith, hq, checkedSub, if_neg (Nat.not_le.mpr hlt)]

private theorem releaseLoopWith_serve {p : Acquire × Nat} {rest : List (Acquire × Nat)}
    (hq : s.waiters.parked = p :: rest) (hp : p.2 ≤ permits) :
    releaseLoopWith wakers fairness (fuel + 1) s live permits =
      (do let (s, live) ← (s.serve fairness permits p rest).wakerCalls live (wakers p.1)
          releaseLoopWith wakers fairness fuel s live (permits - p.2)) := by
  simp only [releaseLoopWith, hq, checkedSub, if_pos hp]
  cases fairness <;> simp only [WaitQueue.wakeOne, hq, serve]

/-- An unfair round moves no permits; a fair one restores what the pool lacks of the local
copy. -/
private theorem accounted_serve (s : Semaphore) (live : List Permit) {p : Acquire × Nat}
    (rest : List (Acquire × Nat)) (hp : p.2 ≤ permits) :
    ((s.serve .unfair permits p rest).accounted live = s.accounted live) ∧
      (s.serve .fair permits p rest).accounted live + s.permits = s.accounted live + permits := by
  simp only [accounted, serve, grants, total_append, total_cons, total_nil, wakeUp, granted]
  omega

/-- The pool agrees with the local copy whenever a fair loop writes that back. -/
def Intact (wakers : Acquire → List WakerCall) (s : Semaphore) (permits : Nat) : Prop :=
  Quiet wakers permits s.waiters.parked ∧
    (s.permits = permits ∨ Short permits s.waiters.parked)

/-- The pool agrees with the local copy before a round that serves a waiter and in what
the waker leaves for the rounds after it. -/
private theorem intact_serve {p : Acquire × Nat} {rest : List (Acquire × Nat)}
    (hq : s.waiters.parked = p :: rest) (hp : p.2 ≤ permits)
    (hc : (s.serve .fair permits p rest).wakerCalls live (wakers p.1) = .ok (t, live')) :
    Intact wakers s permits ↔ s.permits = permits ∧ Intact wakers t (permits - p.2) := by
  obtain ⟨hw, -, hidle, -⟩ := wakerCalls_ledger hc
  have hparked : t.waiters.parked = rest := congrArg WaitQueue.parked hw
  have hshort : ¬ Short permits (p :: rest) := fun h => Nat.not_lt.mpr hp (h p rest rfl)
  change t.permits = permits - p.2 ↔ Idle (wakers p.1) (permits - p.2) at hidle
  unfold Intact
  rw [hq, hparked, quiet_cons hp, hidle]
  tauto

/-- The loop keeps all permits accounted for, unless it is fair and writes the local copy
over a pool from which a waker took permits. -/
theorem releaseLoopWith_keeps (hf : s.waiters.parked.length < fuel)
    (hs : s.accounted live = s.totalPermits)
    (hq : fairness = .fair → Intact wakers s permits) :
    ∃ t live', releaseLoopWith wakers fairness fuel s live permits = .ok (t, live') ∧
      t.waiters.borrowed = s.waiters.borrowed ∧ t.accounted live' = t.totalPermits := by
  induction fuel generalizing s live permits with
  | zero => omega
  | succ fuel ih =>
    by_cases hshort : Short permits s.waiters.parked
    · exact ⟨s, live, releaseLoopWith_short hshort, rfl, hs⟩
    · obtain ⟨p, rest, hparked, hp⟩ := head_of_not_short hshort
      rw [hparked, List.length_cons] at hf
      have hserved : (s.serve fairness permits p rest).accounted live = s.totalPermits := by
        obtain ⟨hunfair, hfair⟩ := accounted_serve s live rest hp
        cases fairness with
        | unfair => exact hunfair.trans hs
        | fair =>
          have hpool := (hq rfl).2.resolve_right hshort
          omega
      obtain ⟨⟨u, mid⟩, hc⟩ := wakerCalls_ok (wakers p.1) hserved
      obtain ⟨hw, -, -, hsum⟩ := wakerCalls_ledger hc
      have hlen : u.waiters.parked.length < fuel := by
        rw [hw]
        exact Nat.lt_of_succ_lt_succ hf
      have hu : u.accounted mid = u.totalPermits := by
        change _ + s.totalPermits = _ at hsum
        omega
      have hnext : fairness = .fair → Intact wakers u (permits - p.2) := by
        rintro rfl
        exact ((intact_serve hparked hp hc).mp (hq rfl)).2
      obtain ⟨t, live', ht, hb, hkept⟩ := ih hlen hu hnext
      rw [hw] at hb
      refine ⟨t, live', ?_, hb, hkept⟩
      rw [releaseLoopWith_serve hparked hp, hc]
      exact ht

/-- A fair loop never accounts for fewer permits than before, and for more where it writes
the local copy over a pool from which a waker took permits. -/
theorem releaseLoopWith_restores (hle : s.permits ≤ permits)
    (h : releaseLoopWith wakers .fair fuel s live permits = .ok (t, live')) :
    s.accounted live + t.totalPermits ≤ t.accounted live' + s.totalPermits ∧
      (¬ Intact wakers s permits →
        s.accounted live + t.totalPermits < t.accounted live' + s.totalPermits) := by
  induction fuel generalizing s live permits with
  | zero => cases h
  | succ fuel ih =>
    by_cases hshort : Short permits s.waiters.parked
    · rw [releaseLoopWith_short hshort] at h
      cases h
      exact ⟨Nat.le_refl _, fun hi => absurd ⟨quiet_of_short hshort, Or.inr hshort⟩ hi⟩
    · obtain ⟨p, rest, hparked, hp⟩ := head_of_not_short hshort
      rw [releaseLoopWith_serve hparked hp] at h
      cases hc : (s.serve .fair permits p rest).wakerCalls live (wakers p.1) with
      | error e =>
        rw [hc] at h
        cases h
      | ok r =>
        obtain ⟨u, mid⟩ := r
        rw [hc, ok_bind] at h
        obtain ⟨-, hpool, -, hsum⟩ := wakerCalls_ledger hc
        obtain ⟨-, hfair⟩ := accounted_serve s live rest hp
        obtain ⟨hmore, hstrict⟩ := ih hpool h
        change _ + s.totalPermits = _ at hsum
        refine ⟨by omega, ?_⟩
        rw [intact_serve hparked hp hc]
        intro hi
        by_cases he : s.permits = permits
        · have hlt := hstrict fun hu => hi ⟨he, hu⟩
          omega
        · omega

end Loop

/-- The semaphore in which the loop of a release starts. -/
def credited (s : Semaphore) (permits : Nat) : Semaphore :=
  { s with permits := s.permits + permits, waiters := { s.waiters with borrowed := true } }

private theorem releasePermitsWith_eq [Target] {s : Semaphore} {live : List Permit} {permits : Nat}
    (wakers : Acquire → List WakerCall) (fairness : Fairness)
    (hi : s.waiters.borrowed = false) (hb : s.permits + permits ≤ usizeMax) :
    s.releasePermitsWith wakers live permits fairness =
      (do let (t, live) ← releaseLoopWith wakers fairness (s.waiters.parked.length + 1)
            (s.credited permits) live (s.permits + permits)
          let waiters ← t.waiters.unborrow
          .ok ({ t with waiters := waiters }, live)) := by
  simp only [releasePermitsWith, addUsize, if_pos hb, ok_bind, WaitQueue.borrow_idle hi, credited]

/-- A release whose wakers call `try_acquire_unfair` and `leak` keeps permits, guards alive and
grants adding up to the total exactly when it is unfair, or no waker but that of the last
waiter served takes permits. Otherwise it returns permits to the pool that a guard holds. -/
theorem release_keeps_wakers_deductions_iff [Target] {s : Semaphore} {live : List Permit}
    {permits : Nat} (wakers : Acquire → List WakerCall) (fairness : Fairness)
    (hi : s.waiters.borrowed = false) (hs : s.accounted live + permits = s.totalPermits)
    (ht : s.totalPermits ≤ usizeMax) :
    (∃ t live', s.releasePermitsWith wakers live permits fairness = .ok (t, live') ∧
      t.accounted live' = t.totalPermits) ↔
    fairness = .unfair ∨ Quiet wakers (s.permits + permits) s.waiters.parked := by
  have hb : s.permits + permits ≤ usizeMax := by
    simp only [accounted] at hs
    omega
  have hcredit : (s.credited permits).accounted live = (s.credited permits).totalPermits := by
    simp only [accounted, credited] at hs ⊢
    omega
  rw [releasePermitsWith_eq wakers fairness hi hb]
  constructor
  · rintro ⟨t, live', h, hsum⟩
    cases fairness with
    | unfair => exact Or.inl rfl
    | fair =>
      right
      by_contra hquiet
      cases hl : releaseLoopWith wakers .fair (s.waiters.parked.length + 1) (s.credited permits)
          live (s.permits + permits) with
      | error e =>
        rw [hl] at h
        cases h
      | ok r =>
        obtain ⟨u, mid⟩ := r
        have hlt := (releaseLoopWith_restores (Nat.le_refl _) hl).2 fun hi => hquiet hi.1
        rw [hl, ok_bind] at h
        simp only [WaitQueue.unborrow] at h
        split at h
        · cases h
          change u.accounted _ = u.totalPermits at hsum
          omega
        · cases h
  · intro hcond
    have hintact : fairness = .fair → Intact wakers (s.credited permits) (s.permits + permits) := by
      rintro rfl
      exact ⟨hcond.resolve_left (by decide), Or.inl rfl⟩
    obtain ⟨t, live', hl, hborrowed, hsum⟩ :=
      releaseLoopWith_keeps (Nat.lt_succ_self _) hcredit hintact
    have htrue : t.waiters.borrowed = true := hborrowed
    refine ⟨{ t with waiters := { t.waiters with borrowed := false } }, live', ?_, hsum⟩
    change releaseLoopWith wakers fairness (s.waiters.parked.length + 1) _ _ _ = _ at hl
    rw [hl, ok_bind]
    simp only [WaitQueue.unborrow, if_pos htrue, ok_bind]

/-- A fair release to two waiters, where the waker of the last one takes a permit. -/
theorem release_keeps_wakers_deductions_iff_two_waiters :
    (∃ t live',
      @releasePermitsWith ⟨64, by decide⟩
        ⟨⟨false, [(⟨0, false, 1⟩, 1), (⟨1, false, 2⟩, 2)], []⟩, 0, 4⟩
        (fun call => if call.serial = 1 then [.tryAcquireUnfair 1] else []) [] 4 .fair =
          .ok (t, live') ∧
      t.accounted live' = t.totalPermits) ↔
    Fairness.fair = .unfair ∨
      Quiet (fun call => if call.serial = 1 then [.tryAcquireUnfair 1] else []) 4
        [(⟨0, false, 1⟩, 1), (⟨1, false, 2⟩, 2)] :=
  @release_keeps_wakers_deductions_iff ⟨64, by decide⟩
    ⟨⟨false, [(⟨0, false, 1⟩, 1), (⟨1, false, 2⟩, 2)], []⟩, 0, 4⟩ [] 4 _ _ rfl rfl (by decide)

/-- Two futures wait for the permits of one guard. When it is released fairly and the waker
of the first takes a permit, serving the second returns that permit to the pool. -/
theorem fair_release_overwrites_deduction :
    ∃ s t live',
      (do let (_, s) ← (new 3).tryAcquire 3
          let (_, s) ← s.acquireRound ⟨0, false, 1⟩
          let (_, s) ← s.acquireRound ⟨1, false, 1⟩
          .ok s : Except Fault Semaphore) = .ok s ∧
      s.accounted [] + 3 = s.totalPermits ∧
      @releasePermitsWith ⟨64, by decide⟩ s
        (fun call => if call.serial = 0 then [.tryAcquireUnfair 1] else []) [] 3 .fair =
          .ok (t, live') ∧
      t.permits = 1 ∧ live' = [⟨1⟩] ∧ grants t.waiters.woken = 2 ∧ t.totalPermits = 3 ∧
      t.accounted live' ≠ t.totalPermits :=
  ⟨_, _, _, rfl, rfl, rfl, rfl, rfl, rfl, rfl, by decide⟩

end Semaphore
end Unsync
