import Unsync.Lib.Runs
import Mathlib.Algebra.BigOperators.Group.Finset.Piecewise
import Mathlib.Algebra.Order.BigOperators.Group.Finset
import Mathlib.Data.Fintype.Basic

/-!
# Tasks that share one thread

An executor polls the tasks that are scheduled, in any order. A turn of a task tells whether
the task goes on by itself and which tasks it woke; every other suspended task stays off the
schedule. Tasks cooperate when each turn leaves the sleeping ones a reason to sleep and uses
up some of a potential, where a scheduled task has a cost. Then every schedule comes to an
end, and there either all tasks have finished or none of them would ever be woken again,
which the reasons to sleep exclude.
-/

namespace Executor

open Runs

universe u v w x

/-- What a turn comes to: whether the task goes on without being woken, and the tasks that
were woken. -/
structure Turn (ι : Type v) where
  again : Bool
  woken : List ι
  deriving DecidableEq, Repr

/-- Tasks that share a state. The context of a turn names the task whose turn it is. -/
structure Tasks (ε : Type x) (σ : Type u) (κ : Type w) (ι : Type v) where
  task : κ → ι
  finished : σ → ι → Bool
  turn : σ → κ → Except ε (Turn ι × σ)

/-- The shared state, and the tasks that are scheduled. -/
structure Machine (σ : Type u) (ι : Type v) where
  shared : σ
  scheduled : ι → Bool

variable {ε : Type x} {σ : Type u} {κ : Type w} {ι : Type v}

/-- All tasks have been spawned. -/
def Machine.start (s : σ) : Machine σ ι := ⟨s, fun _ => true⟩

/-- The turn of a task is over. A task that does not go on leaves the schedule, and woken
tasks enter it. -/
def Machine.after [DecidableEq ι] (m : Machine σ ι) (i : ι) (r : Turn ι) (t : σ) :
    Machine σ ι :=
  ⟨t, fun j => decide (j ∈ r.woken) || if j = i then r.again else m.scheduled j⟩

namespace Tasks

/-- The task can be polled. -/
def Ready (p : Tasks ε σ κ ι) (m : Machine σ ι) (i : ι) : Prop :=
  m.scheduled i = true ∧ p.finished m.shared i = false

instance (p : Tasks ε σ κ ι) (m : Machine σ ι) (i : ι) : Decidable (p.Ready m i) :=
  inferInstanceAs (Decidable (_ ∧ _))

/-- One turn. -/
def poll [DecidableEq ι] (p : Tasks ε σ κ ι) (m : Machine σ ι) (k : κ) :
    Except ε (Unit × Machine σ ι) := do
  let (turn, shared) ← p.turn m.shared k
  .ok ((), m.after (p.task k) turn shared)

/-- Only tasks that are ready get their turns. -/
abbrev Schedule [DecidableEq ι] (p : Tasks ε σ κ ι) (m : Machine σ ι) (ks : List κ) : Prop :=
  Along p.poll (fun m k => p.Ready m (p.task k)) m ks

/-- What a turn of a task owes to the others. -/
structure Advances (p : Tasks ε σ κ ι) (asleep : σ → ι → Prop) (potential : σ → Nat)
    (cost : ι → Nat) (s : σ) (i : ι) (r : Turn ι) (t : σ) : Prop where
  stays : ∀ j, p.finished s j = true → p.finished t j = true
  rests : r.again = false → p.finished t i = false → asleep t i
  sleeps : ∀ j, j ≠ i → j ∉ r.woken → asleep s j → asleep t j
  pays : potential t + (if r.again then cost i else 0) + (r.woken.map cost).sum <
    potential s + cost i

/-- Every turn of an unfinished task advances, and tasks do not all sleep before they have
finished. -/
structure Cooperates (p : Tasks ε σ κ ι) (inv : σ → Prop) (asleep : σ → ι → Prop)
    (potential : σ → Nat) (cost : ι → Nat) : Prop where
  turn : ∀ s k, inv s → p.finished s (p.task k) = false → ∃ r t, p.turn s k = .ok (r, t) ∧
    inv t ∧ p.Advances asleep potential cost s (p.task k) r t
  awake : ∀ s, inv s → (∀ i, p.finished s i = false → asleep s i) → ∀ i, p.finished s i = true

section Rank

variable [Fintype ι] [DecidableEq ι] {p : Tasks ε σ κ ι} {inv : σ → Prop}
  {asleep : σ → ι → Prop} {potential : σ → Nat} {cost : ι → Nat}

/-- The potential, and the cost of the tasks that can be polled. -/
def rank (p : Tasks ε σ κ ι) (potential : σ → Nat) (cost : ι → Nat) (m : Machine σ ι) : Nat :=
  potential m.shared + ∑ i, if p.Ready m i then cost i else 0

/-- Each woken task costs at most once. -/
theorem sum_woken_le (cost : ι → Nat) (woken : List ι) :
    (∑ i, if i ∈ woken then cost i else 0) ≤ (woken.map cost).sum := by
  induction woken with
  | nil => simp
  | cons j woken ih =>
    have hsplit : ∀ i, (if i ∈ j :: woken then cost i else 0) ≤
        (if i = j then cost i else 0) + (if i ∈ woken then cost i else 0) := by
      intro i
      by_cases hi : i = j
      · simp [hi]
      · simp [hi]
    calc (∑ i, if i ∈ j :: woken then cost i else 0)
        ≤ ∑ i, ((if i = j then cost i else 0) + (if i ∈ woken then cost i else 0)) :=
          Finset.sum_le_sum fun i _ => hsplit i
      _ = cost j + ∑ i, (if i ∈ woken then cost i else 0) := by
          rw [Finset.sum_add_distrib, Finset.sum_ite_eq' Finset.univ j cost,
            if_pos (Finset.mem_univ j)]
      _ ≤ ((j :: woken).map cost).sum := by
          rw [List.map_cons, List.sum_cons]
          exact Nat.add_le_add_left ih _

omit [DecidableEq ι] in
/-- All tasks are there to be polled when a machine is started. -/
theorem rank_start_le (s : σ) :
    p.rank potential cost (.start s) ≤ potential s + ∑ i, cost i := by
  refine Nat.add_le_add_left (Finset.sum_le_sum fun i _ => ?_) _
  split
  · exact Nat.le_refl _
  · exact Nat.zero_le _

omit [Fintype ι] in
/-- A task that a turn leaves ready was woken, goes on, or was ready before. -/
theorem Advances.ready_of_after {m : Machine σ ι} {i j : ι} {r : Turn ι} {t : σ}
    (h : p.Advances asleep potential cost m.shared i r t) (hj : p.Ready (m.after i r t) j) :
    j ∈ r.woken ∨ j = i ∧ r.again = true ∨ j ≠ i ∧ p.Ready m j := by
  obtain ⟨hs, hf⟩ := hj
  simp only [Machine.after, Bool.or_eq_true, decide_eq_true_eq] at hs
  rcases hs with hw | hs
  · exact Or.inl hw
  · by_cases hji : j = i
    · rw [if_pos hji] at hs
      exact Or.inr (Or.inl ⟨hji, hs⟩)
    · rw [if_neg hji] at hs
      refine Or.inr (Or.inr ⟨hji, hs, ?_⟩)
      by_contra hn
      have hstays := h.stays j (by simpa using hn)
      rw [show (m.after i r t).shared = t from rfl, hstays] at hf
      cases hf

/-- A turn that advances lowers the rank. -/
theorem Advances.rank_lt {m : Machine σ ι} {i : ι} {r : Turn ι} {t : σ}
    (h : p.Advances asleep potential cost m.shared i r t) (hr : p.Ready m i) :
    p.rank potential cost (m.after i r t) < p.rank potential cost m := by
  have hsplit : ∀ j, (if p.Ready (m.after i r t) j then cost j else 0) +
        (if j = i then cost j else 0) ≤
      (if p.Ready m j then cost j else 0) + (if j ∈ r.woken then cost j else 0) +
        (if j = i then if r.again = true then cost i else 0 else 0) := by
    intro j
    by_cases hji : j = i
    · subst hji
      rw [if_pos hr, if_pos rfl, if_pos rfl]
      by_cases ha : p.Ready (m.after j r t) j
      · rw [if_pos ha]
        rcases h.ready_of_after ha with hw | ⟨-, hag⟩ | ⟨hne, -⟩
        · rw [if_pos hw]
          omega
        · rw [if_pos hag]
          omega
        · exact absurd rfl hne
      · rw [if_neg ha]
        omega
    · rw [if_neg hji, if_neg hji]
      by_cases ha : p.Ready (m.after i r t) j
      · rw [if_pos ha]
        rcases h.ready_of_after ha with hw | ⟨hj, -⟩ | ⟨-, hm⟩
        · rw [if_pos hw]
          omega
        · exact absurd hj hji
        · rw [if_pos hm]
          omega
      · rw [if_neg ha]
        omega
  have hsum := Finset.sum_le_sum fun j (_ : j ∈ Finset.univ) => hsplit j
  rw [Finset.sum_add_distrib, Finset.sum_add_distrib, Finset.sum_add_distrib] at hsum
  simp only [Finset.sum_ite_eq', Finset.mem_univ, if_true] at hsum
  have hwoken := sum_woken_le cost r.woken
  have hpays := h.pays
  show potential t + _ < potential m.shared + _
  omega

/-- What a machine keeps: suspended tasks have a reason to sleep. -/
def Sound (p : Tasks ε σ κ ι) (inv : σ → Prop) (asleep : σ → ι → Prop)
    (m : Machine σ ι) : Prop :=
  inv m.shared ∧
    ∀ i, m.scheduled i = false → p.finished m.shared i = false → asleep m.shared i

/-- One turn keeps the reasons to sleep and lowers the rank. -/
theorem Cooperates.poll (h : p.Cooperates inv asleep potential cost) {m : Machine σ ι} {k : κ}
    (hm : p.Sound inv asleep m) (hr : p.Ready m (p.task k)) :
    ∃ o m', p.poll m k = .ok (o, m') ∧ p.Sound inv asleep m' ∧
      p.rank potential cost m' < p.rank potential cost m := by
  obtain ⟨r, t, ht, hI, ha⟩ := h.turn m.shared k hm.1 hr.2
  refine ⟨(), m.after (p.task k) r t, by simp only [Tasks.poll, ht, ok_bind], ⟨hI, ?_⟩,
    ha.rank_lt hr⟩
  intro j hj hf
  simp only [Machine.after, Bool.or_eq_false_iff, decide_eq_false_iff_not] at hj
  obtain ⟨hw, hs⟩ := hj
  by_cases hji : j = p.task k
  · rw [if_pos hji] at hs
    subst hji
    exact ha.rests hs hf
  · rw [if_neg hji] at hs
    refine ha.sleeps j hji hw (hm.2 j hs ?_)
    by_contra hn
    have hstays := ha.stays j (by simpa using hn)
    exact Bool.false_ne_true (hf.symm.trans hstays)

omit [DecidableEq ι] in
/-- Tasks that cooperate have finished when none of them is ready. -/
theorem Cooperates.ready_or_finished (h : p.Cooperates inv asleep potential cost)
    {m : Machine σ ι} (hm : p.Sound inv asleep m) :
    (∃ i, p.Ready m i) ∨ ∀ i, p.finished m.shared i = true := by
  by_cases hr : ∃ i, p.Ready m i
  · exact Or.inl hr
  · refine Or.inr (h.awake m.shared hm.1 fun i hf => hm.2 i ?_ hf)
    by_contra hs
    exact hr ⟨i, by simpa using hs, hf⟩

/-- Every schedule of tasks that cooperate succeeds, is no longer than the rank it starts
from, and leaves some task ready unless all have finished. -/
theorem Cooperates.run (h : p.Cooperates inv asleep potential cost) {m : Machine σ ι}
    (hm : p.Sound inv asleep m) {ks : List κ} (hk : p.Schedule m ks) :
    ∃ os m', run p.poll m ks = .ok (os, m') ∧ inv m'.shared ∧
      ks.length + p.rank potential cost m' ≤ p.rank potential cost m ∧
      ((∃ i, p.Ready m' i) ∨ ∀ i, p.finished m'.shared i = true) := by
  have hstep : ∀ m k, p.Sound inv asleep m → p.Ready m (p.task k) →
      ∃ o m', p.poll m k = .ok (o, m') ∧ p.Sound inv asleep m' ∧
        p.rank potential cost m' < p.rank potential cost m := fun m k hm hr => h.poll hm hr
  obtain ⟨os, m', hrun, hm', hlen⟩ := run_ranked hstep hm hk
  exact ⟨os, m', hrun, hm'.1, hlen, h.ready_or_finished hm'⟩

end Rank

/-! ### Potentials that sum up weights -/

section Weights

variable {ι : Type v} [Fintype ι] [DecidableEq ι]

/-- Replacing one summand replaces its share of the sum. -/
theorem sum_update_add {M : Type w} [AddCommMonoid M] (f : ι → M) (i : ι) (x : M) :
    (∑ j, Function.update f i x j) + f i = (∑ j, f j) + x := by
  rw [Finset.sum_update_of_mem (Finset.mem_univ i),
    Finset.sum_eq_add_sum_sdiff_singleton_of_mem (Finset.mem_univ i) f, add_comm x,
    add_right_comm, add_comm (f i)]

/-- Every item of a list is held by one task. -/
def Divided {α : Type*} (xs : List α) (held : ι → List α) : Prop :=
  (xs : Multiset α) = ∑ j, (held j : Multiset α)

section Divided

variable {α β : Type*} {xs ys : List α} {held : ι → List α} {i j : ι} {a b : α}

omit [DecidableEq ι] in
/-- What is held by a task is an item. -/
theorem Divided.mem_iff (h : Divided xs held) : a ∈ xs ↔ ∃ j, a ∈ held j := by
  rw [← Multiset.mem_coe, h, Multiset.mem_sum]
  simp

omit [DecidableEq ι] in
/-- Tasks hold different items where items are distinct. -/
theorem Divided.ne (h : Divided xs held) (hd : xs.Nodup) (hj : j ≠ i) (ha : a ∈ held i)
    (hb : b ∈ held j) : b ≠ a := by
  rintro rfl
  have hle := Finset.add_le_sum (fun j _ => zero_le) (Finset.mem_univ j) (Finset.mem_univ i) hj
    (f := fun j => (held j : Multiset α))
  rw [← h, Multiset.coe_add] at hle
  have hnodup : (held j ++ held i).Nodup := Multiset.nodup_of_le hle hd
  exact (List.nodup_append.mp hnodup).2.2 b hb b ha rfl

/-- A task may exchange what it holds for something else. -/
theorem Divided.update {f : ι → β} (g : β → List α) {x : β}
    (h : Divided xs fun j => g (f j)) (hp : (ys ++ g (f i)).Perm (xs ++ g x)) :
    Divided ys fun j => g (Function.update f i x j) := by
  have hsum := sum_update_add (fun j => (g (f j) : Multiset α)) i (g x)
  have hperm := Multiset.coe_eq_coe.mpr hp
  rw [← Multiset.coe_add, ← Multiset.coe_add, h, ← hsum] at hperm
  rw [Divided, add_right_cancel hperm]
  refine Finset.sum_congr rfl fun j _ => ?_
  by_cases hj : j = i
  · subst hj
    rw [Function.update_self, Function.update_self]
  · rw [Function.update_of_ne hj, Function.update_of_ne hj]

end Divided

/-- A turn may put some slack on each weight if the task whose turn it is gives up that much
for every other one, and woken tasks give up what polling them costs. -/
theorem sum_pays {f g : ι → Nat} {i : ι} {woken : List ι} (again slack : Nat)
    (hd : woken.Nodup) (hi : i ∉ woken)
    (hself : g i + again + slack * Fintype.card ι ≤ f i + slack)
    (hothers : ∀ j, j ≠ i → g j + (if j ∈ woken then 1 else 0) ≤ f j + slack) :
    (∑ j, g j) + again + woken.length ≤ ∑ j, f j := by
  have hsplit : ∀ j, g j + (if j ∈ woken then 1 else 0) +
      (if j = i then again + slack * Fintype.card ι else 0) ≤ f j + slack := by
    intro j
    by_cases hj : j = i
    · subst hj
      rw [if_neg hi, if_pos rfl]
      omega
    · rw [if_neg hj]
      exact hothers j hj
  have hsum := Finset.sum_le_sum fun j (_ : j ∈ Finset.univ) => hsplit j
  have hwoken : (∑ j, if j ∈ woken then 1 else 0) = woken.length := by
    rw [← List.toFinset_card_of_nodup hd, Finset.card_eq_sum_ones,
      ← Fintype.sum_ite_mem woken.toFinset]
    simp only [List.mem_toFinset]
  rw [Finset.sum_add_distrib, Finset.sum_add_distrib, Finset.sum_add_distrib, hwoken,
    Finset.sum_ite_eq', if_pos (Finset.mem_univ i), Finset.sum_const, Finset.card_univ,
    Nat.nsmul_eq_mul, Nat.mul_comm] at hsum
  omega

/-- A turn that wakes who leaves its reason to sleep advances when the weights pay for it. -/
theorem Advances.of_weights {p : Tasks ε σ κ ι} {asleep : σ → ι → Prop} {potential : σ → Nat}
    {s t : σ} {i : ι} {again : Bool} {woken : List ι} {f g : ι → Nat} (slack : Nat)
    (hf : p.finished s i = false)
    (hstays : ∀ j, j ≠ i → p.finished s j = true → p.finished t j = true)
    (hrests : again = false → p.finished t i = false → asleep t i)
    (hi : asleep s i → asleep t i) (hd : woken.Nodup)
    (hw : ∀ j, j ∈ woken ↔ asleep s j ∧ ¬ asleep t j)
    (hs : potential s = ∑ j, f j) (ht : potential t = ∑ j, g j)
    (hself : g i + (if again then 1 else 0) + slack * Fintype.card ι ≤ f i + slack)
    (hothers : ∀ j, j ≠ i → g j + (if j ∈ woken then 1 else 0) ≤ f j + slack) :
    p.Advances asleep potential (fun _ => 1) s i ⟨again, woken⟩ t := by
  refine ⟨?_, hrests, ?_, ?_⟩
  · intro j hj
    refine hstays j ?_ hj
    rintro rfl
    rw [hf] at hj
    cases hj
  · intro j _ hno hasleep
    by_contra hn
    exact hno ((hw j).mpr ⟨hasleep, hn⟩)
  · have hpays := sum_pays (if again then 1 else 0) slack hd
      (fun hmem => ((hw i).mp hmem).2 (hi ((hw i).mp hmem).1)) hself hothers
    rw [List.map_const', List.sum_replicate, Nat.nsmul_eq_mul, Nat.mul_one, hs, ht]
    exact Nat.lt_succ_of_le hpays

end Weights

/-- Every task of a machine that was just started is scheduled. -/
theorem Sound.start {p : Tasks ε σ κ ι} {inv : σ → Prop} {asleep : σ → ι → Prop} {s : σ}
    (hs : inv s) : p.Sound inv asleep (.start s) :=
  ⟨hs, fun _ h => by cases h⟩

end Tasks

end Executor
