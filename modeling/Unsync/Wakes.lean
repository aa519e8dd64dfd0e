import Unsync.Base

/-!
# Wake-ups of pending polls

The channels keep wakers in slots. A run records the wakers woken and, for a future whose
latest poll was pending, its waker with the number of wake-ups before that poll. `Awake`
says that such a poll was woken since or is still justified: the operations of a channel
wake whoever is in the slot, park the caller there, or leave what the caller waits for.
-/

namespace Unsync

variable {W : Type} [Waker W]

/-- Some waker of the task was woken since the given point of the record. -/
def WokenSince (wakes : List W) (waker : W) (mark : Nat) : Prop :=
  ∃ w ∈ wakes.drop mark, Waker.task w = Waker.task waker

/-- A waker of the task is in the slot. -/
def Registered (slot : Option W) (waker : W) : Prop :=
  ∃ w, slot = some w ∧ Waker.task w = Waker.task waker

/-- The latest poll of a live future was woken or leaves its future asleep. -/
structure Awake (wakes : List W) (pending : Option (W × Nat)) (live : Bool)
    (asleep : W → Prop) : Prop where
  live : ∀ w n, pending = some (w, n) → live = true ∧ n ≤ wakes.length
  asleep : ∀ w n, pending = some (w, n) → ¬ WokenSince wakes w n → asleep w

/-- What was woken before an operation stays on record. -/
theorem wokenSince_append {wakes new : List W} {w : W} {n : Nat} (hn : n ≤ wakes.length) :
    WokenSince (wakes ++ new) w n ↔
      WokenSince wakes w n ∨ ∃ v ∈ new, Waker.task v = Waker.task w := by
  unfold WokenSince
  rw [List.drop_append_of_le_length hn]
  simp only [List.mem_append, or_and_right, exists_or]

/-- Waking the slot wakes whoever is registered. -/
theorem Registered.woken {slot : Option W} {w : W} (h : Registered slot w) :
    ∃ v ∈ slot.toList, Waker.task v = Waker.task w := by
  obtain ⟨v, rfl, hv⟩ := h
  exact ⟨v, List.mem_singleton_self v, hv⟩

namespace Awake

variable {wakes new : List W} {pending : Option (W × Nat)} {live live' : Bool}
  {asleep asleep' : W → Prop}

/-- No poll is pending. -/
theorem idle : Awake wakes none live asleep := by
  refine ⟨?_, ?_⟩
  · intro w n h
    cases h
  · intro w n h
    cases h

/-- Without a future no poll is pending. -/
theorem pending_none (h : Awake wakes pending live asleep) (hl : live = false) :
    pending = none := by
  cases hp : pending with
  | none => rfl
  | some p =>
    have hlive := (h.live p.1 p.2 hp).1
    rw [hl] at hlive
    cases hlive

/-- An operation that leaves a sleeping future asleep. -/
theorem keep (h : Awake wakes pending live asleep) (hl : live = true → live' = true)
    (hk : ∀ w, asleep w → asleep' w) : Awake (wakes ++ new) pending live' asleep' := by
  refine ⟨?_, ?_⟩
  · intro w n hp
    obtain ⟨hlive, hn⟩ := h.live w n hp
    refine ⟨hl hlive, ?_⟩
    rw [List.length_append]
    omega
  · intro w n hp hnot
    rw [wokenSince_append (h.live w n hp).2] at hnot
    exact hk w (h.asleep w n hp fun hold => hnot (Or.inl hold))

/-- An operation that wakes nobody and leaves a sleeping future asleep. -/
theorem keep_wakes (h : Awake wakes pending live asleep) (hl : live = true → live' = true)
    (hk : ∀ w, asleep w → asleep' w) : Awake wakes pending live' asleep' := by
  have hkeep : Awake (wakes ++ []) pending live' asleep' := h.keep hl hk
  rwa [List.append_nil] at hkeep

/-- An operation that wakes a waker of the task of a sleeping future. -/
theorem wake_among (h : Awake wakes pending live asleep)
    (hk : ∀ w, asleep w → ∃ v ∈ new, Waker.task v = Waker.task w) :
    Awake (wakes ++ new) pending live asleep' := by
  constructor
  · intro w n hp
    obtain ⟨hlive, hn⟩ := h.live w n hp
    constructor
    · exact hlive
    · rw [List.length_append]
      omega
  · intro w n hp hnot
    rw [wokenSince_append (h.live w n hp).2, not_or] at hnot
    exact absurd (hk w (h.asleep w n hp hnot.1)) hnot.2

/-- An operation that wakes the slot where a sleeping future is registered. -/
theorem wake (h : Awake wakes pending live asleep) {slot : Option W}
    (hk : ∀ w, asleep w → Registered slot w) :
    Awake (wakes ++ slot.toList) pending live asleep' :=
  h.wake_among fun w ha => (hk w ha).woken

/-- A poll that is pending. -/
theorem park {w : W} (hl : live = true) (ha : asleep w) :
    Awake wakes (some (w, wakes.length)) live asleep := by
  refine ⟨?_, ?_⟩
  · rintro _ _ ⟨⟩
    exact ⟨hl, Nat.le_refl _⟩
  · rintro _ _ ⟨⟩ -
    exact ha

end Awake

end Unsync
