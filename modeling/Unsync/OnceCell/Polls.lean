import Unsync.OnceCell.Agreement

/-!
# What a poll of a call comes to

What a cell is for: it is empty, it is claimed by the one call that is to fill it, with others
in line behind it, or it is full. A poll of a future that exists leaves it in line, or the
future leaves its place and is resolved, panics or runs its initializer. No poll ends another
call, and what it produces is what the initializer of the call gave.
-/

namespace Unsync
namespace OnceCell

open Runs

variable {V E : Type}

/-- What a cell holds: nothing, nothing yet with one call that is to fill it and others in line
behind that one, or a value. -/
inductive Content (V : Type) where
  | empty
  | claimed (owner : Call) (line : List Call)
  | full (value : V)
  deriving DecidableEq, Repr

namespace Content

/-- The value, if there is one. -/
def value : Content V → Option V
  | .full value => some value
  | _ => none

/-- There is no value yet, and no other call is ahead. -/
def Free (call : Call) : Content V → Prop
  | .empty => True
  | .claimed owner _ => owner = call
  | .full _ => False

/-- The first in line claims the cell. -/
def next : List Call → Content V
  | [] => .empty
  | heir :: rest => .claimed heir rest

/-- A call asks for its turn. -/
def join (call : Call) : Content V → Content V
  | .claimed owner line => .claimed owner (if call ∈ line then line else line ++ [call])
  | content => content

/-- A call is not ahead of the others any more. -/
def without (call : Call) : Content V → Content V
  | .claimed owner line => if owner = call then next line else .claimed owner (line.erase call)
  | content => content

end Content

/-- What the cell holds. While it is initializing, the owner of the job has claimed it. -/
def Sys.content (s : Sys V E) : Content V :=
  match s.cell.state with
  | .uninit => .empty
  | .initializing =>
    match s.running ++ s.cell.waiters.woken.map Prod.fst with
    | [] => .empty
    | owner :: _ => .claimed owner (s.cell.waiters.parked.map Prod.fst)
  | .initialized value => .full value

/-- The call is in the queue of the cell. -/
def Queued (s : Sys V E) (call : Call) : Prop := call ∈ s.cell.waiters.parked.map Prod.fst

instance (s : Sys V E) (call : Call) : Decidable (Queued s call) :=
  inferInstanceAs (Decidable (_ ∈ _))

/-- The calls that are not over. -/
def Sys.alive (s : Sys V E) : List Call := s.pending ++ s.running

/-- A poll of the initializer of a call gives the value. -/
def Yields (s : Sys V E) (call : Call) (outcome : Outcome V E) (value : V) : Prop :=
  if call.kind = .insert then s.given call = some value else outcome = .ok value

/-- What a poll of a call leaves alone. -/
structure Effect (s : Sys V E) (call : Call) (outcome : Outcome V E) (t : Sys V E) : Prop where
  fresh : t.fresh = s.fresh.erase call
  queued : ∀ other, other ≠ call → Queued t other → Queued s other
  calls : t.calls = s.calls
  given : t.given = s.given
  sets : t.sets = s.sets
  resolved : s.resolved ⊆ t.resolved
  produced : ∀ p ∈ t.produced,
    p ∈ s.produced ∨ ∃ v, p = (.call call, v) ∧ Yields s call outcome v

/-- A poll that leaves a call in line behind the owner of the cell. -/
structure Lines (s : Sys V E) (call : Call) (t : Sys V E) : Prop where
  queued : Queued t call
  asked : call ∈ s.fresh ∨ Queued s call
  alive : t.alive.Perm s.alive
  behind : ∃ owner line, s.content = .claimed owner line ∧ owner ≠ call
  content : t.content = s.content.join call

/-- What a poll of a call that leaves its place comes to, with the other calls and the line as
given. -/
inductive Comes (call : Call) (outcome : Outcome V E) (others line : List Call) (t : Sys V E) :
    Out V E → Prop where
  | runs (ho : outcome = .pending) (hr : call ∈ t.running) (hc : t.content = .claimed call line)
    (hp : t.alive.Perm (call :: others)) : Comes call outcome others line t .pending
  | ready (result : Resolved V E) (hm : (call, result) ∈ t.resolved)
    (he : ∀ error, result = .err error → outcome = .err error)
    (hp : t.alive.Perm others) : Comes call outcome others line t (.ready result)
  | panicked (ho : outcome = .panic) (hk : call.kind ≠ .insert) (hp : t.alive.Perm others) :
    Comes call outcome others line t .panicked

section Polls

variable {s t : Sys V E} {call : Call} {outcome : Outcome V E}

/-- The calls that are alive, place by place. -/
theorem alive_count (s : Sys V E) (c : Call) : s.alive.count c = s.fresh.count c +
    (s.cell.waiters.parked.map Prod.fst).count c + (s.cell.waiters.woken.map Prod.fst).count c +
      s.running.count c := by
  simp only [Sys.alive, Sys.pending, List.count_append]

/-- Passing the job on moves a caller from the queue to the woken. -/
theorem passOn_places (cell : OnceCell V) :
    (∀ c, (cell.passOn.waiters.parked.map Prod.fst).count c +
        (cell.passOn.waiters.woken.map Prod.fst).count c =
      (cell.waiters.parked.map Prod.fst).count c + (cell.waiters.woken.map Prod.fst).count c) ∧
    cell.passOn.waiters.parked ⊆ cell.waiters.parked := by
  unfold OnceCell.passOn
  split
  · next hp => exact ⟨fun c => rfl, fun p hp => hp⟩
  · next heir u rest _ hp =>
    refine ⟨fun c => ?_, fun p hm => ?_⟩
    · simp only [hp, List.map_cons, List.map_append, List.map_nil, List.count_append,
        List.count_cons, List.count_nil]
      omega
    · rw [hp]
      exact List.mem_cons_of_mem _ hm
  · exact ⟨fun c => rfl, fun p hp => hp⟩

private theorem queued_passOn (s : Sys V E) {other : Call}
    (h : Queued { s with cell := s.cell.passOn } other) : Queued s other := by
  obtain ⟨p, hp, rfl⟩ := List.mem_map.mp h
  exact List.mem_map_of_mem ((passOn_places s.cell).2 hp)

private theorem alive_passOn (s : Sys V E) :
    ({ s with cell := s.cell.passOn } : Sys V E).alive.Perm s.alive := by
  rw [List.perm_iff_count]
  intro c
  have hplaces := (passOn_places s.cell).1 c
  rw [alive_count, alive_count]
  show s.fresh.count c + (s.cell.passOn.waiters.parked.map Prod.fst).count c +
    (s.cell.passOn.waiters.woken.map Prod.fst).count c + s.running.count c = _
  omega

/-- A poll of the owner whose initializer gives a value. -/
theorem drive_ok {value : V} {line : List Call} (captured : Call → Option V) (hf : call ∉ s.fresh)
    (hy : Yields s call outcome value) (hc : call.kind = .insert → captured call = none) :
    ∃ out t, { s with
        cell := s.cell.settle value
        captured := captured
        produced := s.produced ++ [(Source.call call, value)] }.finish call value = (out, t) ∧
      Effect s call outcome t ∧ Comes call outcome s.alive line t out := by
  refine ⟨_, _, finish_ok (fun hk => hc hk) value,
    ⟨(List.erase_of_not_mem hf).symm, ?_, rfl, rfl, rfl, ?_, ?_⟩, .ready _ ?_ ?_ ?_⟩
  · intro other _ hq
    cases hq
  · exact List.subset_append_left _ _
  · intro p hp
    refine (List.mem_append.mp hp).imp_right fun hl => ⟨value, ?_, hy⟩
    exact List.mem_singleton.mp hl
  · exact List.mem_append_right _ (List.mem_singleton_self _)
  · intro error he
    cases he
  · have hkeys : (s.cell.waiters.parked.map fun p => (p.1, Baton.baton)).map Prod.fst =
        s.cell.waiters.parked.map Prod.fst := by
      rw [List.map_map]
      rfl
    rw [List.perm_iff_count]
    intro c
    rw [alive_count, alive_count]
    simp only [OnceCell.settle, List.map_append, hkeys, List.count_append, List.map_nil,
      List.count_nil]
    omega

/-- A poll of the owner. -/
theorem drive_effect (outcome : Outcome V E) (hi : s.cell.waiters.borrowed = false)
    (hs : s.cell.state = .initializing) (hr : s.running = []) (hf : call ∉ s.fresh)
    (hc : call.kind = .insert → ∃ value, s.captured call = some value ∧ s.given call = some value) :
    ∃ out t, s.drive call outcome = .ok (out, t) ∧ Effect s call outcome t ∧
      Comes call outcome s.alive (s.cell.waiters.parked.map Prod.fst) t out := by
  have hfresh := (List.erase_of_not_mem hf).symm
  by_cases hk : call.kind = .insert
  · obtain ⟨value, hv, hg⟩ := hc hk
    have hinit : s.pollInit call outcome = .ok (.ok value,
        { s with captured := Function.update s.captured call none }) := by
      simp [Sys.pollInit, hk, hv]
    have hy : Yields s call outcome value := by
      rw [Yields, if_pos hk]
      exact hg
    obtain ⟨out, t, ht, he, hcomes⟩ := drive_ok (Function.update s.captured call none) hf hy
      fun _ => Function.update_self _ _ _
    refine ⟨out, t, ?_, he, hcomes⟩
    simp only [Sys.drive, hinit, ok_bind, awaitInit_ok hi, Sys.credit, ht]
  · have hinit : s.pollInit call outcome = .ok (outcome, s) := by
      unfold Sys.pollInit
      cases hkind : call.kind with
      | insert => exact absurd hkind hk
      | _ => rfl
    cases outcome with
    | pending =>
      refine ⟨.pending, { s with running := s.running ++ [call] }, ?_,
        ⟨hfresh, fun _ _ hq => hq, rfl, rfl, rfl, List.Subset.refl _, fun p hp => Or.inl hp⟩,
        .runs rfl (List.mem_append_right _ (List.mem_singleton_self call)) ?_ ?_⟩
      · simp only [Sys.drive, hinit, ok_bind, awaitInit, Sys.credit]
      · simp [Sys.content, hs, hr]
      · show (s.pending ++ (s.running ++ [call])).Perm _
        rw [← List.append_assoc]
        exact List.perm_append_singleton _ _
    | ok value =>
      have hy : Yields s call (.ok value : Outcome V E) value := by
        rw [Yields, if_neg hk]
      obtain ⟨out, t, ht, he, hcomes⟩ := drive_ok s.captured hf hy fun hkind => absurd hkind hk
      refine ⟨out, t, ?_, he, hcomes⟩
      simp only [Sys.drive, hinit, ok_bind, awaitInit_ok hi, Sys.credit, ht]
    | err error =>
      refine ⟨.ready (.err error), ({ s with cell := s.cell.passOn }.resolve call (.err error)).2,
        ?_, ⟨hfresh, fun _ _ hq => queued_passOn s hq, rfl, rfl, rfl, ?_, fun p hp => Or.inl hp⟩,
        .ready _ ?_ ?_ ?_⟩
      · simp only [Sys.drive, hinit, ok_bind, awaitInit_err hi, Sys.credit]
        rfl
      · exact List.subset_append_left _ _
      · exact List.mem_append_right _ (List.mem_singleton_self _)
      · rintro e ⟨⟩
        rfl
      · exact alive_passOn s
    | panic =>
      refine ⟨.panicked, { s with cell := s.cell.passOn }, ?_,
        ⟨hfresh, fun _ _ hq => queued_passOn s hq, rfl, rfl, rfl, List.Subset.refl _,
          fun p hp => Or.inl hp⟩, .panicked rfl hk ?_⟩
      · simp only [Sys.drive, hinit, ok_bind, awaitInit_panic hi, Sys.credit]
      · exact alive_passOn s

private theorem finish_effect (hf : call ∉ s.fresh) (outcome : Outcome V E) (line : List Call)
    (value : V) :
    ∃ out t, s.finish call value = (out, t) ∧ Effect s call outcome t ∧
      Comes call outcome s.alive line t out := by
  have hres : ∀ result : Resolved V E, (∀ error, result ≠ .err error) →
      Effect s call outcome (s.resolve call result).2 ∧
        Comes call outcome s.alive line (s.resolve call result).2 (.ready result) := by
    intro result hn
    refine ⟨⟨(List.erase_of_not_mem hf).symm, fun _ _ hq => hq, rfl, rfl, rfl,
      List.subset_append_left _ _, fun p hp => Or.inl hp⟩, .ready result ?_ ?_ (List.Perm.refl _)⟩
    · exact List.mem_append_right _ (List.mem_singleton_self _)
    · intro error he
      exact absurd he (hn error)
  unfold Sys.finish
  split
  · exact ⟨_, _, rfl, hres _ fun error he => by cases he⟩
  · exact ⟨_, _, rfl, hres _ fun error he => by cases he⟩

private theorem Effect.after {u : Sys V E} (h : Effect u call outcome t)
    (hfresh : u.fresh.erase call = s.fresh.erase call)
    (hq : ∀ other, Queued u other → Queued s other) (hc : u.calls = s.calls)
    (hg : u.given = s.given) (hs : u.sets = s.sets) (hr : u.resolved = s.resolved)
    (hp : u.produced = s.produced) : Effect s call outcome t := by
  refine ⟨h.fresh.trans hfresh, fun other hne hqueued => hq other (h.queued other hne hqueued),
    h.calls.trans hc, h.given.trans hg, h.sets.trans hs, hr ▸ h.resolved, ?_⟩
  intro p hmem
  rw [← hp]
  refine (h.produced p hmem).imp_right fun ⟨v, he, hy⟩ => ⟨v, he, ?_⟩
  unfold Yields at hy ⊢
  rwa [hg] at hy

/-- What a poll of a call comes to: the call is in line, or it leaves its place, which it does
only where no other call is ahead. -/
structure Polls (s : Sys V E) (call : Call) (outcome : Outcome V E) (out : Out V E)
    (t : Sys V E) : Prop where
  inv : Inv t
  effect : Effect s call outcome t
  comes : (out = .pending ∧ Lines s call t) ∨
    (¬ Queued s call ∧ (s.content.Free call ∨ ∃ value, s.content = .full value) ∧
      ∃ others, s.alive.Perm (call :: others) ∧
        Comes call outcome others (s.cell.waiters.parked.map Prod.fst) t out)

/-- The owner of the job has claimed the cell. -/
theorem Inv.content_owner (h : Inv s) (ho : Owner s call) :
    s.content = .claimed call (s.cell.waiters.parked.map Prod.fst) := by
  have hj := h.job
  rw [Job, ho.1] at hj
  obtain ⟨owner, howner⟩ := List.length_eq_one_iff.mp hj
  have hm : call ∈ s.running ++ s.cell.waiters.woken.map Prod.fst := List.mem_append.mpr ho.2
  rw [howner, List.mem_singleton] at hm
  simp only [Sys.content, ho.1, howner, hm]

/-- The owner of the job is alive. -/
theorem Owner.alive (ho : Owner s call) : call ∈ s.alive := by
  have hm := ho.2
  simp only [Sys.alive, Sys.pending, List.mem_append]
  tauto

/-- While the cell is initializing, somebody owns the job. -/
theorem Inv.has_owner (h : Inv s) (hs : s.cell.state = .initializing) : ∃ owner, Owner s owner := by
  have hj := h.job
  rw [Job, hs] at hj
  obtain ⟨owner, hm⟩ := List.exists_mem_of_length_pos (hj ▸ Nat.one_pos)
  exact ⟨owner, hs, List.mem_append.mp hm⟩

/-- Somebody waits in the queue only while the cell is initializing. -/
theorem Inv.queued_state (h : Inv s) (hq : Queued s call) : s.cell.state = .initializing := by
  have hj := h.job
  cases hs : s.cell.state with
  | initializing => rfl
  | _ =>
    rw [Job, hs] at hj
    rw [Queued, hj.1] at hq
    cases hq

/-- Who was not polled yet or waits in the queue is not the owner. -/
theorem Inv.behind (h : Inv s) (hs : s.cell.state = .initializing)
    (hm : call ∈ s.fresh ∨ Queued s call) :
    ∃ owner, Owner s owner ∧ owner ≠ call := by
  obtain ⟨owner, ho⟩ := h.has_owner hs
  obtain ⟨hfresh, hparked, -⟩ := h.owner_place ho
  refine ⟨owner, ho, ?_⟩
  rintro rfl
  exact hm.elim hfresh hparked

/-- Calls that are alive are distinct. -/
theorem Inv.alive_nodup (h : Inv s) : s.alive.Nodup := by
  have hd := List.nodup_append.mp h.ledger.distinct
  refine List.nodup_append.mpr ⟨hd.1, ?_, ?_⟩
  · cases hrun : s.running with
    | nil => exact List.nodup_nil
    | cons c rest =>
      have hc : c ∈ s.running := by
        rw [hrun]
        exact List.mem_cons_self
      rw [← hrun, (h.sole_running hc).2.1]
      exact List.nodup_singleton c
  · intro c hc d hr
    exact hd.2.2 c hc d (h.begun d hr).1

/-- Who was not polled yet is not in the queue. -/
theorem Inv.fresh_not_queued (h : Inv s) (hf : call ∈ s.fresh) : ¬ Queued s call := by
  intro hq
  have hp := (List.nodup_append.mp (List.nodup_append.mp h.alive_nodup).1).1
  exact (List.nodup_append.mp hp).2.2 call hf call hq rfl

/-- The first poll of a call. -/
theorem Inv.polls_fresh (h : Inv s) (ha : Sys.admits call outcome = true)
    (hf : call ∈ s.fresh) : ∃ out t, s.poll call outcome = .ok (out, t) ∧
      Polls s call outcome out t := by
  have hl := h.ledger
  obtain ⟨out, t, hs, hinv, -⟩ := h.poll call outcome
  refine ⟨out, t, hs, ?_⟩
  simp only [Sys.poll, ha, hf, if_true, Bool.true_eq_false, if_false] at hs
  have hd : s.fresh.Nodup :=
    (List.nodup_append.mp (List.nodup_append.mp (List.nodup_append.mp h.alive_nodup).1).1).1
  have hgone : call ∉ s.fresh.erase call := List.Nodup.not_mem_erase hd
  have hno : ¬ Queued s call := h.fresh_not_queued hf
  have hperm : s.alive.Perm (call :: Sys.alive { s with fresh := s.fresh.erase call }) := by
    have hp := (List.perm_cons_erase hf).append_right
      (s.cell.waiters.parked.map Prod.fst ++ s.cell.waiters.woken.map Prod.fst ++ s.running)
    simpa [Sys.alive, Sys.pending] using hp
  cases hstate : s.cell.state with
  | uninit =>
    have hj := h.job
    rw [Job, hstate] at hj
    have hfree : s.content = .empty := by simp only [Sys.content, hstate]
    simp only [enter, hstate, ok_bind, Sys.proceed] at hs
    obtain ⟨out', t', hs', he, hc⟩ := drive_effect (s := { s with
      cell := { s.cell with state := .initializing }
      fresh := s.fresh.erase call
      invoked := s.invoked ++ [call]
      clashed := s.clashed ++ s.running }) outcome hl.idle rfl hj.2.2 hgone
      (hl.captured call (List.mem_append_left _ (List.mem_append_left _ hf)))
    cases hs.symm.trans hs'
    exact ⟨hinv, he.after (List.erase_of_not_mem hgone) (fun _ hq => hq) rfl rfl rfl rfl rfl,
      Or.inr ⟨hno, Or.inl (hfree ▸ trivial), _, hperm, hc⟩⟩
  | initializing =>
    obtain ⟨owner, ho, hne⟩ := h.behind hstate (Or.inl hf)
    simp only [enter, hstate, WaitQueue.park_idle hl.idle, ok_bind, Sys.proceed] at hs
    cases hs
    refine ⟨hinv, ⟨rfl, ?_, rfl, rfl, rfl, List.Subset.refl _, fun p hp => Or.inl hp⟩,
      Or.inl ⟨rfl, ?_, Or.inl hf, ?_, ⟨owner, _, h.content_owner ho, hne⟩, ?_⟩⟩
    · intro other hne hq
      simp only [Queued, List.map_append, List.map_cons, List.map_nil, List.mem_append,
        List.mem_singleton] at hq
      exact hq.resolve_right hne
    · simp [Queued]
    · refine List.Perm.trans ?_ hperm.symm
      rw [List.perm_iff_count]
      intro c
      rw [List.count_cons, alive_count, alive_count]
      simp only [List.map_append, List.map_cons, List.map_nil, List.count_append,
        List.count_cons, List.count_nil]
      omega
    · rw [h.content_owner ho, hinv.content_owner ⟨rfl, ho.2⟩, Content.join,
        if_neg (show call ∉ s.cell.waiters.parked.map Prod.fst from hno), List.map_append]
      rfl
  | initialized v =>
    have hfull : s.content = .full v := by simp only [Sys.content, hstate]
    simp only [enter, hstate, ok_bind, Sys.proceed] at hs
    obtain ⟨out', t', hs', he, hc⟩ := finish_effect (s := { s with
      fresh := s.fresh.erase call }) hgone outcome _ v
    cases (Except.ok.inj hs).symm.trans hs'
    exact ⟨hinv, he.after (List.erase_of_not_mem hgone) (fun _ hq => hq) rfl rfl rfl rfl rfl,
      Or.inr ⟨hno, Or.inr ⟨v, hfull⟩, _, hperm, hc⟩⟩

/-- A poll of a call that is suspended in `wait`. -/
theorem Inv.polls_waiting (h : Inv s) (ha : Sys.admits call outcome = true)
    (hf : call ∉ s.fresh) (hwait : s.waiting call) :
    ∃ out t, s.poll call outcome = .ok (out, t) ∧ Polls s call outcome out t := by
  have hl := h.ledger
  obtain ⟨out, t, hs, hinv, -⟩ := h.poll call outcome
  refine ⟨out, t, hs, ?_⟩
  simp only [Sys.poll, ha, hf, hwait, if_true, Bool.true_eq_false, if_false] at hs
  cases hw : s.cell.waiters.woken.lookup call with
  | none =>
    simp only [resume_parked hl.idle hw, ok_bind, Sys.proceed] at hs
    cases hs
    have hq : Queued s call := hwait.resolve_right (lookup_none.mp hw)
    obtain ⟨owner, ho, hne⟩ := h.behind (h.queued_state hq) (Or.inr hq)
    refine ⟨hinv, ⟨(List.erase_of_not_mem hf).symm, fun _ _ hq => hq, rfl, rfl, rfl,
      List.Subset.refl _, fun p hp => Or.inl hp⟩,
      Or.inl ⟨rfl, hq, Or.inr hq, List.Perm.refl _,
        ⟨owner, _, h.content_owner ho, hne⟩, ?_⟩⟩
    rw [h.content_owner ho, Content.join,
      if_pos (show call ∈ s.cell.waiters.parked.map Prod.fst from hq)]
  | some b =>
    have hm : call ∈ s.pending :=
      List.mem_append_right _ (List.mem_map.mpr ⟨_, mem_of_lookup hw, rfl⟩)
    have hno : ¬ Queued s call := by
      intro hq
      have hp := List.nodup_append.mp (List.nodup_append.mp h.alive_nodup).1
      refine hp.2.2 call (List.mem_append_right _ hq) call ?_ rfl
      exact List.mem_map.mpr ⟨_, mem_of_lookup hw, rfl⟩
    have hperm : s.alive.Perm (call :: Sys.alive { s with cell := s.cell.collect call }) := by
      rw [List.perm_iff_count]
      intro c
      have hcount := count_eraseKey hw c
      rw [List.count_cons, alive_count, alive_count]
      simp only [collect, List.count_cons, List.count_nil] at hcount ⊢
      omega
    cases hstate : s.cell.state with
    | uninit =>
      have hj := h.job
      rw [Job, hstate] at hj
      simp [hj.2.1] at hw
    | initializing =>
      have hfree : s.content.Free call := by
        rw [h.content_owner ⟨hstate, Or.inr (List.mem_map.mpr ⟨_, mem_of_lookup hw, rfl⟩)⟩]
        rfl
      simp only [resume_invoke hl.idle hw hstate, ok_bind, Sys.proceed] at hs
      obtain ⟨out', t', hs', he, hc⟩ := drive_effect (s := { s with
        cell := s.cell.collect call
        invoked := s.invoked ++ [call]
        clashed := s.clashed ++ s.running }) outcome hl.idle hstate (h.sole_woken hstate hw).2 hf
        (hl.captured call hm)
      cases hs.symm.trans hs'
      exact ⟨hinv, he.after rfl (fun _ hq => hq) rfl rfl rfl rfl rfl,
        Or.inr ⟨hno, Or.inl hfree, _, hperm, hc⟩⟩
    | initialized v =>
      have hfull : s.content = .full v := by simp only [Sys.content, hstate]
      simp only [resume_ready hl.idle hw hstate, ok_bind, Sys.proceed] at hs
      obtain ⟨out', t', hs', he, hc⟩ := finish_effect (s := { s with
        cell := s.cell.collect call }) hf outcome _ v
      cases (Except.ok.inj hs).symm.trans hs'
      exact ⟨hinv, he.after rfl (fun _ hq => hq) rfl rfl rfl rfl rfl,
        Or.inr ⟨hno, Or.inr ⟨v, hfull⟩, _, hperm, hc⟩⟩

private theorem Inv.polls_running (h : Inv s) (ha : Sys.admits call outcome = true)
    (hf : call ∉ s.fresh) (hwait : ¬ s.waiting call) (hr : call ∈ s.running) :
    ∃ out t, s.poll call outcome = .ok (out, t) ∧ Polls s call outcome out t := by
  obtain ⟨out, t, hs, hinv, -⟩ := h.poll call outcome
  refine ⟨out, t, hs, ?_⟩
  simp only [Sys.poll, ha, hf, hwait, hr, if_true, Bool.true_eq_false, if_false] at hs
  obtain ⟨hstate, hrun, -⟩ := h.sole_running hr
  have hfree : s.content.Free call := by
    rw [h.content_owner ⟨hstate, Or.inl hr⟩]
    rfl
  obtain ⟨out', t', hs', he, hc⟩ := drive_effect (s := { s with
    running := s.running.erase call }) outcome h.ledger.idle hstate (by simp [hrun]) hf
    (fun hk => absurd hk (h.begun call hr).2)
  cases hs.symm.trans hs'
  refine ⟨hinv, he.after rfl (fun _ hq => hq) rfl rfl rfl rfl rfl,
    Or.inr ⟨fun hq => hwait (Or.inl hq), Or.inl hfree, _, ?_, hc⟩⟩
  exact ((List.perm_cons_erase hr).append_left s.pending).trans List.perm_middle

/-- A poll of a call that is alive. -/
theorem Inv.polls (h : Inv s) (ha : Sys.admits call outcome = true) (hm : call ∈ s.alive) :
    ∃ out t, s.step (.poll call outcome) = .ok (out, t) ∧ Polls s call outcome out t := by
  by_cases hf : call ∈ s.fresh
  · exact h.polls_fresh ha hf
  · by_cases hwait : s.waiting call
    · exact h.polls_waiting ha hf hwait
    · refine h.polls_running ha hf hwait ?_
      simp only [Sys.alive, Sys.pending, List.mem_append] at hm
      simp only [Sys.waiting, not_or] at hwait
      tauto

end Polls

end OnceCell
end Unsync
