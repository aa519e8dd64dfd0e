import Mathlib.Algebra.Ring.Nat
import Mathlib.Data.List.Basic

/-!
# Runs of faulting step functions

A step function maps a state and an operation to a fault, or to an output and the next
state. A run is a list of operations, taken from left to right. `Along` asks a guard of
every state that a run steps from; an invariant that every guarded step keeps holds at
the end of every guarded run, and such a run never faults.
-/

namespace Runs

universe u v w x y

variable {σ : Type u} {ι : Type v} {ο : Type w} {ε : Type x}

/-- A computation that succeeded continues with its value. -/
@[simp] theorem ok_bind {α β : Type w} (a : α) (f : α → Except ε β) :
    (Except.ok a >>= f) = f a := rfl

/-- A computation that faulted does not continue. -/
@[simp] theorem error_bind {α β : Type w} (e : ε) (f : α → Except ε β) :
    ((Except.error e : Except ε α) >>= f) = .error e := rfl

/-- Execute the operations from left to right and collect their outputs. -/
def run (step : σ → ι → Except ε (ο × σ)) : σ → List ι → Except ε (List ο × σ)
  | s, [] => .ok ([], s)
  | s, i :: is =>
    match step s i with
    | .error e => .error e
    | .ok (o, t) =>
      match run step t is with
      | .error e => .error e
      | .ok (os, t') => .ok (o :: os, t')

/-- A step in front of a run. -/
theorem run_cons {step : σ → ι → Except ε (ο × σ)} {s t u : σ} {i : ι} {is : List ι} {o : ο}
    {os : List ο} (hs : step s i = .ok (o, t)) (hr : run step t is = .ok (os, u)) :
    run step s (i :: is) = .ok (o :: os, u) := by
  simp only [run, hs, hr]

/-- A run behind a run. -/
theorem run_append {step : σ → ι → Except ε (ο × σ)} {s t u : σ} {is js : List ι}
    {os ps : List ο} (hs : run step s is = .ok (os, t)) (hr : run step t js = .ok (ps, u)) :
    run step s (is ++ js) = .ok (os ++ ps, u) := by
  induction is generalizing s os with
  | nil =>
    cases hs
    exact hr
  | cons i is ih =>
    rw [run] at hs
    split at hs
    · cases hs
    · next o v hstep =>
      split at hs
      · cases hs
      · next os' t' hrest =>
        cases hs
        exact run_cons hstep (ih hrest)

/-- A run of operations that are read through a function. -/
theorem run_map {κ : Type y} (step : σ → ι → Except ε (ο × σ)) (f : κ → ι) (s : σ) (ks : List κ) :
    run (fun s k => step s (f k)) s ks = run step s (ks.map f) := by
  induction ks generalizing s with
  | nil => rfl
  | cons k ks ih => simp only [run, List.map_cons, ih]

/-- A run of a machine that watches another one is a run of that one. -/
theorem run_of_watched {τ : Type y} {step : σ → ι → Except ε (ο × σ)}
    {step' : τ → ι → Except ε (ο × τ)} {f : σ → τ}
    (h : ∀ s i, step' (f s) i = (step s i).map (Prod.map id f)) {s t : σ}
    {is : List ι} {os : List ο} (hr : run step s is = .ok (os, t)) :
    run step' (f s) is = .ok (os, f t) := by
  induction is generalizing s os with
  | nil =>
    cases hr
    rfl
  | cons i is ih =>
    rw [run] at hr
    split at hr
    · cases hr
    · next o u hs =>
      split at hr
      · cases hr
      · next os' u' hrest =>
        cases hr
        have hstep : step' (f s) i = .ok (o, f u) := by
          rw [h, hs]
          rfl
        exact run_cons hstep (ih hrest)

/-- Every step of the run meets the guard in the state it starts from. -/
def Along (step : σ → ι → Except ε (ο × σ)) (G : σ → ι → Prop) : σ → List ι → Prop
  | _, [] => True
  | s, i :: is =>
    G s i ∧ match step s i with
      | .error _ => True
      | .ok (_, t) => Along step G t is

/-- Guarded runs can be tested whenever the guard can. -/
instance Along.decidable (step : σ → ι → Except ε (ο × σ)) (G : σ → ι → Prop)
    [∀ s i, Decidable (G s i)] : ∀ s is, Decidable (Along step G s is)
  | _, [] => isTrue trivial
  | s, i :: is =>
    have : Decidable (match step s i with
        | .error _ => True
        | .ok (_, t) => Along step G t is) :=
      match step s i with
      | .error _ => isTrue trivial
      | .ok (_, t) => Along.decidable step G t is
    inferInstanceAs (Decidable (_ ∧ _))

variable {step : σ → ι → Except ε (ο × σ)} {G : σ → ι → Prop} {I : σ → Prop}

/-- A guard that looks at the operations only. -/
theorem along_of_forall {G : ι → Prop} {s : σ} {is : List ι} (h : ∀ i ∈ is, G i) :
    Along step (fun _ i => G i) s is := by
  induction is generalizing s with
  | nil => trivial
  | cons i is ih =>
    have hrest : ∀ j ∈ is, G j := fun j hj => h j (List.mem_cons_of_mem i hj)
    constructor
    · exact h i List.mem_cons_self
    · split
      · trivial
      · exact ih hrest

/-- A guard may be weakened. -/
theorem Along.mono {H : σ → ι → Prop} (h : ∀ s i, G s i → H s i) {s : σ} {is : List ι}
    (ha : Along step G s is) : Along step H s is := by
  induction is generalizing s with
  | nil => trivial
  | cons i is ih =>
    obtain ⟨hg, hrest⟩ := ha
    refine ⟨h s i hg, ?_⟩
    cases hs : step s i with
    | error e => trivial
    | ok p =>
      rw [hs] at hrest
      exact ih hrest

/-- The guarded run rule: one step lemma gives safety and the invariant of every run. -/
theorem run_guarded
    (hstep : ∀ s i, I s → G s i → ∃ o t, step s i = .ok (o, t) ∧ I t)
    {s : σ} (hs : I s) {is : List ι} (ha : Along step G s is) :
    ∃ os t, run step s is = .ok (os, t) ∧ I t := by
  induction is generalizing s with
  | nil => exact ⟨[], s, rfl, hs⟩
  | cons i is ih =>
    obtain ⟨hg, hrest⟩ := ha
    obtain ⟨o, t, ht, hI⟩ := hstep s i hs hg
    rw [ht] at hrest
    obtain ⟨os, t', hr, hI'⟩ := ih hI hrest
    exact ⟨o :: os, t', run_cons ht hr, hI'⟩

/-- The run rule for steps that fault where the guard fails: a run is guarded, or it faults. -/
theorem run_or_fault {e : ε}
    (hstep : ∀ s i, I s → G s i → ∃ o t, step s i = .ok (o, t) ∧ I t)
    (hfault : ∀ s i, I s → ¬ G s i → step s i = .error e)
    {s : σ} (hs : I s) (is : List ι) :
    (∃ os t, run step s is = .ok (os, t) ∧ I t ∧ Along step G s is) ∨
      (run step s is = .error e ∧ ¬ Along step G s is) := by
  induction is generalizing s with
  | nil => exact Or.inl ⟨[], s, rfl, hs, trivial⟩
  | cons i is ih =>
    by_cases hg : G s i
    · obtain ⟨o, t, ht, hI⟩ := hstep s i hs hg
      rcases ih hI with ⟨os, t', hr, hI', ha⟩ | ⟨hr, hn⟩
      · exact Or.inl ⟨o :: os, t', run_cons ht hr, hI', hg, by rw [ht]; exact ha⟩
      · refine Or.inr ⟨by simp only [run, ht, hr], ?_⟩
        rintro ⟨-, hrest⟩
        rw [ht] at hrest
        exact hn hrest
    · exact Or.inr ⟨by simp only [run, hfault s i hs hg], fun ha => hg ha.1⟩

/-- The run rule without a guard. -/
theorem run_invariant
    (hstep : ∀ s i, I s → ∃ o t, step s i = .ok (o, t) ∧ I t)
    {s : σ} (hs : I s) (is : List ι) : ∃ os t, run step s is = .ok (os, t) ∧ I t := by
  have ha : Along step (fun _ _ => True) s is := by
    induction is generalizing s with
    | nil => trivial
    | cons i is ih =>
      obtain ⟨o, t, ht, hI⟩ := hstep s i hs
      refine ⟨trivial, ?_⟩
      rw [ht]
      exact ih hI
  exact run_guarded (fun s i h _ => hstep s i h) hs ha

/-- The run rule for operations that have a cost: as long as the costs stay below the bound,
every step is safe, and what was spent stays within the costs. -/
theorem run_within {spent : σ → Nat} {cost : ι → Nat} {bound : Nat}
    (hstep : ∀ s i, I s → spent s + cost i < bound →
      ∃ o t, step s i = .ok (o, t) ∧ I t ∧ spent t ≤ spent s + cost i)
    {s : σ} (hs : I s) (is : List ι) (hb : spent s + (is.map cost).sum < bound) :
    ∃ os t, run step s is = .ok (os, t) ∧ I t ∧ spent t ≤ spent s + (is.map cost).sum := by
  induction is generalizing s with
  | nil => exact ⟨[], s, rfl, hs, Nat.le_refl _⟩
  | cons i is ih =>
    rw [List.map_cons, List.sum_cons] at hb ⊢
    obtain ⟨o, t, ht, hI, hle⟩ := hstep s i hs (by omega)
    obtain ⟨os, t', hr, hI', hle'⟩ := ih hI (by omega)
    exact ⟨o :: os, t', run_cons ht hr, hI', by omega⟩

/-- The run rule for steps that each use up some of a supply: a guarded run is no longer than
what there is to use up. -/
theorem run_ranked {rank : σ → Nat}
    (hstep : ∀ s i, I s → G s i → ∃ o t, step s i = .ok (o, t) ∧ I t ∧ rank t < rank s)
    {s : σ} (hs : I s) {is : List ι} (ha : Along step G s is) :
    ∃ os t, run step s is = .ok (os, t) ∧ I t ∧ is.length + rank t ≤ rank s := by
  induction is generalizing s with
  | nil => exact ⟨[], s, rfl, hs, by simp⟩
  | cons i is ih =>
    obtain ⟨hg, hrest⟩ := ha
    obtain ⟨o, t, ht, hI, hlt⟩ := hstep s i hs hg
    rw [ht] at hrest
    obtain ⟨os, t', hr, hI', hle⟩ := ih hI hrest
    refine ⟨o :: os, t', run_cons ht hr, hI', ?_⟩
    rw [List.length_cons]
    omega

end Runs
