import Unsync.WaitList.Handover
import Unsync.Wakes

/-!
# Wake-ups reach the latest waker

The waker of a waiter is its registration, the tag of its union and the mark of being
linked. A run is watched for the waker of each future's most recent poll and for the wakers
that `wake_one` takes. A pending future keeps a waker of its latest task in the list, or one
call of `wake_one` took such a waker and woke it, with the waiter unlinked and its output
stored. A `wake` that panics leaves what a `wake` that returns leaves.
-/

namespace Unsync
namespace WaitList

open DoublyLinked Runs

variable {I O W : Type}

/-- How a call ends. -/
inductive Outcome (I O : Type) where
  | returned (out : Out I O)
  /-- The waker panicked inside `wake_one`. -/
  | panicked
  deriving DecidableEq, Repr

/-- `list.borrow().wake_one(output)` with a waker whose `wake` panics. The input is dropped
and `Borrowed::drop` runs while the stack unwinds, `src/wait_list.rs:456–469`. -/
def Sys.wakeOnePanics (s : Sys I O W) (output : O) : Except Fault (Outcome I O × Sys I O W) := do
  let l ← s.list.borrow
  let (taken, l') ← l.takeHead output
  match taken with
  | .error o => do
    let l' ← l'.unborrow
    .ok (.returned (.wakeOneError o), { s with
      list := l'
      log := { s.log with
        passed := s.log.passed ++ [output]
        refused := s.log.refused ++ [o] } })
  | .ok (i, waker) => do
    let l' ← (l'.wake waker).unborrow
    .ok (.panicked, { s with
      list := l'
      log := { s.log with
        passed := s.log.passed ++ [output]
        handed := s.log.handed ++ l.head.toList.map fun a => (a, i, output) } })

/-- A panic in `wake` changes how `wake_one` ends and nothing that it leaves. -/
theorem wakeOnePanics_of_wakeOne {s t : Sys I O W} {output : O} {out : Out I O}
    (hs : s.wakeOne output = .ok (out, t)) :
    (∃ o, out = .wakeOneError o ∧ s.wakeOnePanics output = .ok (.returned out, t)) ∨
      ∃ i, out = .woke i ∧ s.wakeOnePanics output = .ok (.panicked, t) := by
  unfold Sys.wakeOne at hs
  unfold Sys.wakeOnePanics
  cases hb : s.list.borrow with
  | error e =>
    rw [hb] at hs
    cases hs
  | ok l =>
    simp only [hb, ok_bind, wakeOne_eq] at hs ⊢
    cases ht : l.takeHead output with
    | error e =>
      rw [ht] at hs
      cases hs
    | ok r =>
      obtain ⟨taken, l'⟩ := r
      cases taken with
      | error o =>
        simp only [ht, ok_bind] at hs ⊢
        cases hu : l'.unborrow with
        | error e =>
          rw [hu] at hs
          cases hs
        | ok l'' =>
          simp only [hu, ok_bind] at hs ⊢
          cases hs
          exact .inl ⟨o, rfl, rfl⟩
      | ok p =>
        simp only [ht, ok_bind] at hs ⊢
        cases hu : (l'.wake p.2).unborrow with
        | error e =>
          rw [hu] at hs
          cases hs
        | ok l'' =>
          simp only [hu, ok_bind] at hs ⊢
          cases hs
          exact .inr ⟨p.1, rfl, rfl⟩

/-- The waiter that `wake_one` would dequeue, with the waker in its slot. -/
def atHead (l : WaitList I O W) : Option (Addr × W) := do
  let a ← l.head
  let (_, waker) ← l.contents a
  let w ← waker
  some (a, w)

/-- The calls that a watched run is made of. -/
inductive Call (I O W : Type) where
  | op (op : Op I O W)
  | wakeOnePanics (output : O)

/-- The state of a run with what is observed of it. -/
structure Watched (I O W : Type) where
  sys : Sys I O W
  /-- The waker of a future whose most recent poll returned `Pending`. -/
  latest : Addr → Option W
  /-- The waiters dequeued by `wake_one` with the wakers that it took from them. -/
  taken : List (Addr × W)

namespace Watched

/-- A new list, before any poll. -/
def new : Watched I O W := ⟨Sys.new, fun _ => none, []⟩

/-- The wakers of the most recent polls after an operation. -/
def poll (latest : Addr → Option W) : Op I O W → Out I O → Addr → Option W
  | .poll a cx, .pending => Function.update latest a (some cx)
  | .poll a _, .ready _ => Function.update latest a none
  | .drop a, .dropped => Function.update latest a none
  | _, _ => latest

/-- The wakers taken by `wake_one` after it ended. -/
def take (x : Watched I O W) : Outcome I O → List (Addr × W)
  | .returned (.woke _) | .panicked => x.taken ++ x.sys.list.atHead.toList
  | _ => x.taken

variable [Waker W]

/-- One call. -/
def step (x : Watched I O W) : Call I O W → Except Fault (Outcome I O × Watched I O W)
  | .op op => do
    let (out, s) ← x.sys.step op
    .ok (.returned out, ⟨s, poll x.latest op out, x.take (.returned out)⟩)
  | .wakeOnePanics output => do
    let (out, s) ← x.sys.wakeOnePanics output
    .ok (out, ⟨s, x.latest, x.take out⟩)

private theorem step_op {x : Watched I O W} {op : Op I O W} {out : Out I O} {t : Sys I O W}
    (hs : x.sys.step op = .ok (out, t)) :
    x.step (.op op) =
      .ok (.returned out, ⟨t, poll x.latest op out, x.take (.returned out)⟩) := by
  simp only [step, hs, ok_bind]

private theorem step_panics {x : Watched I O W} {o : O} {out : Outcome I O} {t : Sys I O W}
    (hs : x.sys.wakeOnePanics o = .ok (out, t)) :
    x.step (.wakeOnePanics o) = .ok (out, ⟨t, x.latest, x.take out⟩) := by
  simp only [step, hs, ok_bind]

end Watched

variable {s t : Sys I O W} {q : WaitQueue Addr I O}

private theorem Inv.count_handed (h : Inv s q) {p : Addr × I × O} (hp : p ∈ s.log.handed) :
    (s.log.handed.map (·.1)).count p.1 = 1 := by
  have hd := h.keys_nodup
  rw [List.append_assoc, List.append_assoc, List.nodup_append] at hd
  have hk : (s.log.handed.map (·.1)).Nodup := by
    have hr := (List.nodup_append.mp (List.nodup_append.mp hd.2.1).2.1).1
    simpa [Log.returned, Function.comp_def] using hr
  apply List.count_eq_one_of_mem hk
  exact List.mem_map.mpr ⟨p, hp, rfl⟩

private theorem Inv.parked_waiting (h : Inv s q) {a : Addr} {i : I} {k : Option W}
    (hc : s.list.contents a = some (.input i, k)) :
    a ∈ s.log.waiting ∧ a ∉ s.log.handed.map (·.1) := by
  have hp : a ∈ q.parked.map Prod.fst := by
    rcases h.rep.owned a (by rw [hc]; simp) with hp | hw
    · exact hp
    · obtain ⟨⟨a, o⟩, ho, rfl⟩ := List.mem_map.mp hw
      rw [h.rep.woken a o ho] at hc
      cases hc
  rw [h.order] at hp
  have hn := of_decide_eq_true (List.mem_filter.mp hp).2
  exact ⟨hp, hn.1⟩

variable [Waker W]

/-- The latest waker of a pending future is in its waiter, or was taken from it. -/
inductive Reached (x : Watched I O W) (a : Addr) (cx : W) : Prop where
  | parked {i : I} {k : Option W} (hc : x.sys.list.contents a = some (.input i, k))
    (hk : Registered k cx)
  | woken {i : I} {o : O} {w : W} (hc : x.sys.list.contents a = some (.output o, none))
    (hh : (a, i, o) ∈ x.sys.log.handed) (hw : (a, w) ∈ x.taken)
    (ht : Waker.task w = Waker.task cx)

/-- What a watched run keeps. -/
structure Watching (x : Watched I O W) : Prop where
  dequeued : x.taken.map Prod.fst = x.sys.log.handed.map (·.1)
  wakes : x.taken.map Prod.snd = x.sys.list.wakes
  reached : ∀ a cx, x.latest a = some cx → Reached x a cx

variable {x : Watched I O W}

/-- Nothing was polled on a new list. -/
theorem Watching.new : Watching (Watched.new : Watched I O W) := by
  refine ⟨rfl, rfl, ?_⟩
  intro a cx h
  cases h

private theorem Reached.keep {y : Watched I O W} {a : Addr} {cx : W} (h : Reached x a cx)
    (hc : y.sys.list.contents a = x.sys.list.contents a)
    (hh : x.sys.log.handed ⊆ y.sys.log.handed) (hw : x.taken ⊆ y.taken) : Reached y a cx := by
  cases h with
  | parked hx hk => exact .parked (hc.trans hx) hk
  | woken hx hm ht htask => exact .woken (hc.trans hx) (hh hm) (hw ht) htask

private theorem Watching.touch (h : Watching x) {a : Addr} {k : Option W}
    (he : Elsewhere x.sys.list t.list a) (hw : t.list.wakes = x.sys.list.wakes)
    (hl : t.log.handed = x.sys.log.handed)
    (hk : ∀ cx, k = some cx → Reached ⟨t, Function.update x.latest a k, x.taken⟩ a cx) :
    Watching ⟨t, Function.update x.latest a k, x.taken⟩ where
  dequeued := h.dequeued.trans (by rw [hl])
  wakes := h.wakes.trans hw.symm
  reached := by
    intro b cx hb
    change Function.update x.latest a k b = some cx at hb
    by_cases hba : b = a
    · subst hba
      rw [Function.update_self] at hb
      exact hk cx hb
    · rw [Function.update_of_ne hba] at hb
      apply (h.reached b cx hb).keep (he b hba)
      · rw [hl]
        exact List.Subset.refl _
      · exact List.Subset.refl _

private theorem Watching.idle (h : Watching x) (he : t.list = x.sys.list)
    (hl : t.log.handed = x.sys.log.handed) : Watching ⟨t, x.latest, x.taken⟩ where
  dequeued := h.dequeued.trans (by rw [hl])
  wakes := h.wakes.trans (by rw [he])
  reached := by
    intro a cx ha
    apply (h.reached a cx ha).keep
    · rw [he]
    · rw [hl]
      exact List.Subset.refl _
    · exact List.Subset.refl _

/-- A successful `wake_one` takes the waker that the oldest waiter has and wakes it. -/
theorem Watching.woke (h : Watching x) {a : Addr} {i : I} {o : O} {w : W}
    (he : Elsewhere x.sys.list t.list a) (hh : x.sys.list.head = some a)
    (hs : x.sys.list.contents a = some (.input i, some w))
    (ht : t.list.contents a = some (.output o, none))
    (hw : t.list.wakes = x.sys.list.wakes ++ [w])
    (hl : t.log.handed = x.sys.log.handed ++ [(a, i, o)]) :
    Watching ⟨t, x.latest, x.taken ++ x.sys.list.atHead.toList⟩ := by
  have hhead : x.sys.list.atHead = some (a, w) := by simp [atHead, hh, hs]
  rw [hhead]
  constructor
  · simp [h.dequeued, hl]
  · simp [h.wakes, hw]
  · intro b cx hb
    have hr := h.reached b cx hb
    by_cases hba : b = a
    · subst hba
      cases hr with
      | parked hc hk =>
        obtain ⟨v, rfl, htask⟩ := hk
        rw [hs] at hc
        simp only [Option.some.injEq, Prod.mk.injEq] at hc
        rw [← hc.2] at htask
        have hmem : (b, i, o) ∈ t.log.handed := by simp [hl]
        exact .woken ht hmem (by simp) htask
      | woken hc =>
        rw [hs] at hc
        cases hc
    · apply hr.keep (he b hba)
      · rw [hl]
        exact List.subset_append_left _ _
      · exact List.subset_append_left _ _

/-- Every operation keeps the wakers of the latest polls reached. -/
theorem Watching.change (h : Watching x) {op : Op I O W} {out : Out I O}
    (hc : Change x.sys t op out) :
    Watching ⟨t, Watched.poll x.latest op out, x.take (.returned out)⟩ := by
  cases hc with
  | parked he hw hl ha ht =>
    apply h.touch he hw hl
    rintro cx ⟨⟩
    exact .parked ha ⟨_, rfl, ht⟩
  | resolved he hw hl =>
    apply h.touch he hw hl
    rintro cx ⟨⟩
  | dropped he hw hl =>
    apply h.touch he hw hl
    rintro cx ⟨⟩
  | woke he hh hs ht hw hl => exact h.woke he hh hs ht hw hl
  | created he hl => exact h.idle he hl
  | refused he hl => exact h.idle he hl
  | head ht =>
    subst ht
    exact h.idle rfl rfl
  | @ignored op ht =>
    subst ht
    have hp : Watched.poll x.latest op .ignored = x.latest := by cases op <;> rfl
    rw [hp]
    exact h.idle rfl rfl

private theorem Watching.call (h : Watching x) (hi : Inv x.sys q) (c : Call I O W) :
    ∃ out y q', x.step c = .ok (out, y) ∧ Watching y ∧ Inv y.sys q' := by
  cases c with
  | op op =>
    obtain ⟨out, t, q', hs, hi', hc⟩ := hi.step op
    exact ⟨_, _, q', Watched.step_op hs, h.change hc, hi'⟩
  | wakeOnePanics o =>
    obtain ⟨out, t, q', hs, hi', hc⟩ := hi.step (.wakeOne o)
    have hw := h.change hc
    rcases wakeOnePanics_of_wakeOne hs with ⟨r, rfl, hp⟩ | ⟨i, rfl, hp⟩
    · exact ⟨_, _, q', Watched.step_panics hp, hw, hi'⟩
    · exact ⟨_, _, q', Watched.step_panics hp, hw, hi'⟩

/-- The watched runs succeed and keep both invariants. -/
theorem run_watching (calls : List (Call I O W)) :
    ∃ outs x q, run Watched.step (Watched.new : Watched I O W) calls = .ok (outs, x) ∧
      Watching x ∧ Inv x.sys q := by
  have hstep : ∀ (x : Watched I O W) (c : Call I O W), (Watching x ∧ ∃ q, Inv x.sys q) →
      ∃ out y, x.step c = .ok (out, y) ∧ Watching y ∧ ∃ q, Inv y.sys q := by
    rintro x c ⟨hw, q, hi⟩
    obtain ⟨out, y, q', hs, hw', hi'⟩ := hw.call hi c
    exact ⟨out, y, hs, hw', q', hi'⟩
  obtain ⟨outs, x, hr, hw, q, hi⟩ := run_invariant hstep ⟨.new, WaitQueue.empty, Inv.new⟩ calls
  exact ⟨outs, x, q, hr, hw, hi⟩

/-- A waiter with an output is unlinked, and the next poll of its future returns it. -/
theorem Inv.woken_resolves (h : Inv s q) {a : Addr} {o : O}
    (hc : s.list.contents a = some (.output o, none)) :
    a ∉ s.log.waiting ∧ ∀ cx, ∃ t, s.step (.poll a cx) = .ok (.ready o, t) := by
  have hmem : (a, o) ∈ q.woken := by
    rcases h.rep.owned a (by rw [hc]; simp) with hp | hw
    · obtain ⟨⟨a, i⟩, hi, rfl⟩ := List.mem_map.mp hp
      obtain ⟨w, hw⟩ := h.rep.parked a i hi
      rw [hw] at hc
      cases hc
    · obtain ⟨⟨a, r⟩, hr, rfl⟩ := List.mem_map.mp hw
      rw [h.rep.woken a r hr] at hc
      cases hc
      exact hr
  have hk : a ∈ q.woken.map Prod.fst := List.mem_map.mpr ⟨_, hmem, rfl⟩
  have hlook := lookup_of_mem (List.nodup_append.mp h.rep.nodup).2.1 hmem
  have hm : (s.list.memory a).isSome := by
    unfold contents at hc
    cases hn : s.list.memory a with
    | none => simp [hn] at hc
    | some n => rfl
  have hu : s.unresumed.lookup a = none := by
    apply lookup_none.mpr
    intro hu
    have hf := h.unresumed_fresh hu
    rw [hc] at hf
    cases hf
  constructor
  · rw [← h.order]
    intro hp
    exact (List.nodup_append.mp h.rep.nodup).2.2 a hp a hk rfl
  · intro cx
    obtain ⟨t, q', hs, -, -⟩ := h.pollWoken hu hm hlook cx
    exact ⟨t, hs⟩

/-- `wake_one` wakes last: the oldest waiter is unlinked by then and has its output. -/
theorem Inv.wakes_last (h : Inv s q) {a : Addr} {rest : List Addr}
    (hw : s.log.waiting = a :: rest) (o : O) :
    ∃ i w l, s.list.atHead = some (a, w) ∧
      ({ s.list with borrowed := true } : WaitList I O W).takeHead o = .ok (.ok (i, w), l) ∧
      Represents l rest ∧ l.contents a = some (.output o, none) ∧ l.wakes = s.list.wakes ∧
      ∃ t, s.step (.wakeOne o) = .ok (.woke i, t) ∧
        t.list = { l.wake w with borrowed := false } := by
  rw [← h.order] at hw
  obtain ⟨⟨a, i⟩, rest, hq, rfl, rfl⟩ := List.map_eq_cons_iff.mp hw
  have hh : s.list.head = some a := by rw [h.rep.linked.head_eq, hq]; rfl
  obtain ⟨w, l, hc, hl, hrep, -, hwakes⟩ := takeHead_spec (h.rep.withBorrowed true) hq o
  change s.list.contents a = _ at hc
  refine ⟨i, w, l, by simp [atHead, hh, hc], hl, hrep.represents, ?_, hwakes, ?_⟩
  · apply hrep.woken a o
    simp
  · have hb : s.list.borrowed = false := h.rep.borrowed.trans h.idle
    exact ⟨_, wakeOne_of_takeHead hb hh hl hrep.borrowed, rfl⟩

/-- Wake-ups reach the latest waker. After every run, with any sequence of polls, wakers and
cancellations and with wakers that panic, a future whose most recent poll returned `Pending`
was not dequeued, is linked and stores a waker of that poll's task; or one `wake_one` took
such a waker from it and woke it, and the next poll returns the output passed to that call.
Every `wake_one` wakes the one waker it took, with the waiter unlinked and its output stored,
and leaves the same when that waker panics. -/
theorem wake_ups_reach_latest_waker (calls : List (Call I O W)) :
    ∃ outs x, run Watched.step (Watched.new : Watched I O W) calls = .ok (outs, x) ∧
      Represents x.sys.list x.sys.log.waiting ∧ x.sys.list.borrowed = false ∧
      x.taken.map Prod.fst = x.sys.log.handed.map (·.1) ∧
      x.taken.map Prod.snd = x.sys.list.wakes ∧
      (∀ a cx, x.latest a = some cx →
        (a ∈ x.sys.log.waiting ∧ a ∉ x.sys.log.handed.map (·.1) ∧
          ∃ i w, x.sys.list.contents a = some (.input i, some w) ∧
            Waker.task w = Waker.task cx) ∨
        a ∉ x.sys.log.waiting ∧ (x.sys.log.handed.map (·.1)).count a = 1 ∧
          ∃ i o w, (a, i, o) ∈ x.sys.log.handed ∧ (a, w) ∈ x.taken ∧
            Waker.task w = Waker.task cx ∧ x.sys.list.contents a = some (.output o, none) ∧
            ∀ cx', ∃ y, x.step (.op (.poll a cx')) = .ok (.returned (.ready o), y)) ∧
      (∀ a rest o, x.sys.log.waiting = a :: rest →
        ∃ i w l, x.sys.list.atHead = some (a, w) ∧
          ({ x.sys.list with borrowed := true } : WaitList I O W).takeHead o =
            .ok (.ok (i, w), l) ∧
          Represents l rest ∧ l.contents a = some (.output o, none) ∧
          l.wakes = x.sys.list.wakes ∧
          ∃ t, x.sys.step (.wakeOne o) = .ok (.woke i, t) ∧
            t.list = { l.wake w with borrowed := false } ∧
            x.sys.wakeOnePanics o = .ok (.panicked, t)) := by
  obtain ⟨outs, x, q, hr, h, hi⟩ := run_watching calls
  refine ⟨outs, x, hr, ?_, hi.rep.borrowed.trans hi.idle, h.dequeued, h.wakes, ?_, ?_⟩
  · rw [← hi.order]
    exact hi.rep.represents
  · intro a cx ha
    cases h.reached a cx ha with
    | parked hc hk =>
      obtain ⟨w, rfl, ht⟩ := hk
      have hp := hi.parked_waiting hc
      exact .inl ⟨hp.1, hp.2, _, w, hc, ht⟩
    | woken hc hh hw ht =>
      obtain ⟨hn, hready⟩ := hi.woken_resolves hc
      refine .inr ⟨hn, hi.count_handed hh, _, _, _, hh, hw, ht, hc, ?_⟩
      intro cx'
      obtain ⟨t, hs⟩ := hready cx'
      exact ⟨_, Watched.step_op hs⟩
  · intro a rest o hw
    obtain ⟨i, w, l, hhead, hl, hrep, hc, hwakes, t, hs, ht⟩ := hi.wakes_last hw o
    refine ⟨i, w, l, hhead, hl, hrep, hc, hwakes, t, hs, ht, ?_⟩
    rcases wakeOnePanics_of_wakeOne hs with ⟨r, he, -⟩ | ⟨j, -, hp⟩
    · cases he
    · exact hp

end WaitList
end Unsync
