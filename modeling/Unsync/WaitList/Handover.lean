import Unsync.WaitList.Runs

/-!
# Queue order and ownership on the wait list

The two guarantees of `src/wait_list.rs` over every run. The pointers represent the queue of
waiters that were enqueued and neither woken nor dropped. Every input is in its future, in
its waiter, returned by one `wake_one` or dropped; every output is in a waiter, returned by
the future it was handed to, dropped with it or given back.
-/

namespace Unsync
namespace WaitList

open DoublyLinked Runs

variable {I O W : Type}

/-- The pointers of a wait list represent the waiters `xs`, oldest first. -/
structure Represents (l : WaitList I O W) (xs : List Addr) : Prop where
  forward : ∀ n, xs.length ≤ n → follow l.nextOf n l.head = xs
  backward : ∀ n, xs.length ≤ n → follow l.prevOf n l.tail = xs.reverse
  head_none : l.head = none ↔ xs = []
  tail_none : l.tail = none ↔ xs = []
  waker : ∀ a ∈ xs, ∃ w, l.memory a = some w ∧ w.waker.isSome = true
  ends : ∀ a, l.head = some a ∨ l.tail = some a → a ∈ xs
  links : ∀ a ∈ xs, ∀ b, l.nextOf a = some b ∨ l.prevOf a = some b → b ∈ xs

private theorem memory_of_contents {l : WaitList I O W} {a : Addr} {st : State I O}
    {k : Option W} (h : l.contents a = some (st, k)) :
    ∃ w, l.memory a = some w ∧ w.state = st ∧ w.waker = k := by
  unfold contents at h
  obtain ⟨w, hw, he⟩ := Option.map_eq_some_iff.mp h
  exact ⟨w, hw, congrArg Prod.fst he, congrArg Prod.snd he⟩

/-- A represented queue is represented by its pointers. -/
theorem Rep.represents {l : WaitList I O W} {q : WaitQueue Addr I O} (h : Rep l q) :
    Represents l (q.parked.map Prod.fst) where
  forward := h.linked.follow_next
  backward := h.linked.follow_prev
  head_none := h.linked.head_none
  tail_none := h.linked.tail_none
  waker a ha := by
    obtain ⟨⟨a, i⟩, hi, rfl⟩ := List.mem_map.mp ha
    obtain ⟨w, hw⟩ := h.parked a i hi
    obtain ⟨n, hn, -, hk⟩ := memory_of_contents hw
    exact ⟨n, hn, by rw [hk]; rfl⟩
  ends a ha := by
    rcases ha with ha | ha
    · rw [h.linked.head_eq] at ha
      exact List.mem_of_mem_head? ha
    · rw [h.linked.tail_eq] at ha
      exact List.mem_of_mem_getLast? ha
  links a ha b hb := by
    rcases hb with hb | hb
    · exact h.linked.next_mem ha hb
    · exact h.linked.prev_mem ha hb

variable {s : Sys I O W} {q : WaitQueue Addr I O}

private theorem Inv.entered_parked (h : Inv s q) {a : Addr} {i : I} (ha : (a, i) ∈ q.parked) :
    s.log.entered.lookup a = some i := by
  apply lookup_of_mem h.calls
  rw [h.inputs.mem_iff]
  simp [ha]

section Fifo

variable [Waker W]

/-- The intrusive list is a queue with removal: after every run its pointers represent the
waiters that were enqueued and neither woken nor dropped, in order, no operation reaches an
assertion or `unreachable!()`, and `head_input` and `wake_one` act on the oldest of them. -/
theorem waitList_represents_waiting (ops : List (Op I O W)) :
    ∃ outs s, run Sys.step (Sys.new : Sys I O W) ops = .ok (outs, s) ∧
      Represents s.list s.log.waiting ∧
      (∀ op, ∃ r, s.step op = .ok r) ∧
      (s.log.waiting = [] →
        s.step .headInput = .ok (.head none, s) ∧
        ∀ o, ∃ s', s.step (.wakeOne o) = .ok (.wakeOneError o, s') ∧ s'.list = s.list) ∧
      ∀ a rest, s.log.waiting = a :: rest →
        ∃ i, s.log.entered.lookup a = some i ∧
          s.step .headInput = .ok (.head (some i), s) ∧
          ∀ o, ∃ s', s.step (.wakeOne o) = .ok (.woke i, s') ∧
            s'.log.handed = s.log.handed ++ [(a, i, o)] ∧ s'.log.waiting = rest := by
  obtain ⟨outs, s, q, hr, h⟩ := run_inv ops
  refine ⟨outs, s, hr, ?_, ?_, ?_, ?_⟩
  · rw [← h.order]
    exact h.rep.represents
  · intro op
    obtain ⟨out, s', -, hs, -⟩ := h.step op
    exact ⟨_, hs⟩
  · intro hw
    have hq : q.parked = [] := by
      rw [← h.order] at hw
      exact List.map_eq_nil_iff.mp hw
    refine ⟨?_, fun o => ⟨_, (h.wakeNone hq o).1, rfl⟩⟩
    have hh : q.headInput = none := by simp [WaitQueue.headInput, hq]
    rw [← hh]
    exact h.head
  · intro a rest hw
    rw [← h.order] at hw
    obtain ⟨⟨a, i⟩, rest, hq, rfl, rfl⟩ := List.map_eq_cons_iff.mp hw
    refine ⟨i, h.entered_parked (by simp [hq]), ?_, ?_⟩
    · have hh : q.headInput = some i := by simp [WaitQueue.headInput, hq]
      rw [← hh]
      exact h.head
    · intro o
      obtain ⟨s', hs, hl, hi, -⟩ := h.wakeHead hq o
      refine ⟨s', hs, by rw [hl], ?_⟩
      exact hi.order.symm

end Fifo

/-! ### Inputs and outputs held in memory -/

/-- The inputs stored in waiters that were not woken, read from the memory below `n`. -/
def heldInputs (l : WaitList I O W) (n : Addr) : List (Addr × I) :=
  (List.range n).filterMap fun a =>
    match l.contents a with
    | some (.input i, some _) => some (a, i)
    | _ => none

/-- The outputs stored in woken waiters, read from the memory below `n`. -/
def heldOutputs (l : WaitList I O W) (n : Addr) : List (Addr × O) :=
  (List.range n).filterMap fun a =>
    match l.contents a with
    | some (.output o, none) => some (a, o)
    | _ => none

private theorem mem_heldInputs (l : WaitList I O W) (n a : Addr) (i : I) :
    (a, i) ∈ l.heldInputs n ↔ a < n ∧ ∃ w, l.contents a = some (.input i, some w) := by
  simp only [heldInputs, List.mem_filterMap, List.mem_range]
  constructor
  · rintro ⟨b, hb, he⟩
    split at he
    · next j w hc =>
      simp only [Option.some.injEq, Prod.mk.injEq] at he
      obtain ⟨rfl, rfl⟩ := he
      exact ⟨hb, w, hc⟩
    · cases he
  · rintro ⟨hn, w, hc⟩
    exact ⟨a, hn, by rw [hc]⟩

private theorem mem_heldOutputs (l : WaitList I O W) (n a : Addr) (o : O) :
    (a, o) ∈ l.heldOutputs n ↔ a < n ∧ l.contents a = some (.output o, none) := by
  simp only [heldOutputs, List.mem_filterMap, List.mem_range]
  constructor
  · rintro ⟨b, hb, he⟩
    split at he
    · next p hc =>
      simp only [Option.some.injEq, Prod.mk.injEq] at he
      obtain ⟨rfl, rfl⟩ := he
      exact ⟨hb, hc⟩
    · cases he
  · rintro ⟨hn, hc⟩
    exact ⟨a, hn, by rw [hc]⟩

private theorem filterMap_range_nodup {V : Type} (n : Nat) (f : Addr → Option (Addr × V))
    (hf : ∀ a p, f a = some p → p.1 = a) : ((List.range n).filterMap f).Nodup := by
  refine List.Nodup.filterMap ?_ List.nodup_range
  intro a b p ha hb
  rw [← hf a p ha, ← hf b p hb]

/-- What the waiters in memory hold is what the represented queue holds. -/
theorem Inv.held (h : Inv s q) :
    (s.list.heldInputs s.next).Perm q.parked ∧ (s.list.heldOutputs s.next).Perm q.woken := by
  have hlt : ∀ a ∈ q.parked.map Prod.fst ++ q.woken.map Prod.fst, a < s.next := by
    intro a ha
    apply h.bound
    have hp := h.inputs.map Prod.fst
    rw [hp.mem_iff]
    simp only [List.map_append, List.mem_append]
    rcases List.mem_append.mp ha with ha | ha
    · exact Or.inl (Or.inl (Or.inr ha))
    · exact Or.inl (Or.inr (h.woken_handed ha))
  have hd := List.nodup_append.mp h.rep.nodup
  constructor
  · apply (List.perm_ext_iff_of_nodup _ (List.Nodup.of_map _ hd.1)).mpr
    · rintro ⟨a, i⟩
      rw [mem_heldInputs]
      constructor
      · rintro ⟨-, w, hc⟩
        rcases h.rep.owned a (by rw [hc]; simp) with hp | hw
        · obtain ⟨⟨a, j⟩, hj, rfl⟩ := List.mem_map.mp hp
          obtain ⟨w', hc'⟩ := h.rep.parked a j hj
          simp only at hc
          rw [hc] at hc'
          simp only [Option.some.injEq, Prod.mk.injEq, State.input.injEq] at hc'
          rwa [hc'.1]
        · obtain ⟨⟨a, o⟩, ho, rfl⟩ := List.mem_map.mp hw
          simp only at hc
          rw [h.rep.woken a o ho] at hc
          cases hc
      · intro hm
        exact ⟨hlt a (List.mem_append_left _ (List.mem_map.mpr ⟨_, hm, rfl⟩)), h.rep.parked a i hm⟩
    · apply filterMap_range_nodup
      intro a p hp
      split at hp
      · cases hp; rfl
      · cases hp
  · apply (List.perm_ext_iff_of_nodup _ (List.Nodup.of_map _ hd.2.1)).mpr
    · rintro ⟨a, o⟩
      rw [mem_heldOutputs]
      constructor
      · rintro ⟨-, hc⟩
        rcases h.rep.owned a (by rw [hc]; simp) with hp | hw
        · obtain ⟨⟨a, i⟩, hi, rfl⟩ := List.mem_map.mp hp
          obtain ⟨w, hc'⟩ := h.rep.parked a i hi
          simp only at hc
          rw [hc] at hc'
          cases hc'
        · obtain ⟨⟨a, p⟩, hp, rfl⟩ := List.mem_map.mp hw
          simp only at hc
          rw [h.rep.woken a p hp] at hc
          simp only [Option.some.injEq, Prod.mk.injEq, State.output.injEq, and_true] at hc
          rwa [← hc]
      · intro hm
        exact ⟨hlt a (List.mem_append_right _ (List.mem_map.mpr ⟨_, hm, rfl⟩)), h.rep.woken a o hm⟩
    · apply filterMap_range_nodup
      intro a p hp
      split at hp
      · cases hp; rfl
      · cases hp

variable [Waker W]

/-- Inputs and outputs are handed over exactly once. After every run the union of each
waiter holds the field that its waker announces; each call's input is still in the future,
in its waiter, returned by the `wake_one` that dequeued it or dropped; each stored output is
in the waiter it was handed to, returned by that waiter's future or dropped with it; and an
output is given back exactly when no waiter was queued. -/
theorem waitList_hands_over_once (ops : List (Op I O W)) :
    ∃ outs s, run Sys.step (Sys.new : Sys I O W) ops = .ok (outs, s) ∧
      (∀ a w, s.list.memory a = some w →
        (∃ i, w.state = .input i ∧ w.waker.isSome = true) ∨
          ∃ o, w.state = .output o ∧ w.waker.isSome = false) ∧
      (s.log.entered.map Prod.fst).Nodup ∧
      s.log.entered.Perm (s.unresumed ++ s.list.heldInputs s.next ++ s.log.returned ++
        s.log.droppedInputs) ∧
      s.log.stored.Perm (s.list.heldOutputs s.next ++ s.log.resolved ++ s.log.droppedOutputs) ∧
      s.log.passed.Perm (s.log.handed.map (·.2.2) ++ s.log.refused) ∧
      (∀ op, ∃ r, s.step op = .ok r) ∧
      ∀ o, (∃ s', s.step (.wakeOne o) = .ok (.wakeOneError o, s')) ↔ s.log.waiting = [] := by
  obtain ⟨outs, s, q, hr, h⟩ := run_inv ops
  obtain ⟨hin, hout⟩ := h.held
  refine ⟨outs, s, hr, ?_, h.calls, ?_, ?_, h.passed, ?_, ?_⟩
  · intro a w hm
    have hc : s.list.contents a = some (w.state, w.waker) := by simp [contents, hm]
    rcases h.rep.owned a (by rw [hc]; simp) with hp | hw
    · obtain ⟨⟨a, i⟩, hi, rfl⟩ := List.mem_map.mp hp
      obtain ⟨k, hk⟩ := h.rep.parked a i hi
      rw [hk, Option.some.injEq, Prod.mk.injEq] at hc
      exact Or.inl ⟨i, hc.1.symm, by rw [← hc.2]; rfl⟩
    · obtain ⟨⟨a, o⟩, ho, rfl⟩ := List.mem_map.mp hw
      rw [h.rep.woken a o ho, Option.some.injEq, Prod.mk.injEq] at hc
      exact Or.inr ⟨o, hc.1.symm, by rw [← hc.2]; rfl⟩
  · refine h.inputs.trans ?_
    exact ((hin.symm.append_left _).append_right _).append_right _
  · refine h.outputs.trans ?_
    exact (hout.symm.append_right _).append_right _
  · intro op
    obtain ⟨out, s', -, hs, -⟩ := h.step op
    exact ⟨_, hs⟩
  · intro o
    rw [← h.order, List.map_eq_nil_iff]
    constructor
    · rintro ⟨s', hs⟩
      cases hq : q.parked with
      | nil => rfl
      | cons p rest =>
        obtain ⟨t, ht, -⟩ := h.wakeHead (a := p.1) (i := p.2) hq o
        change s.wakeOne o = _ at hs
        rw [ht] at hs
        cases hs
    · intro hq
      exact ⟨_, (h.wakeNone hq o).1⟩

end WaitList
end Unsync
