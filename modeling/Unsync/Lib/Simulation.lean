import Unsync.Lib.Runs

/-!
# One computation follows another

A computation follows another one when it succeeds wherever that one does, with a related
result. The relation is composed along `bind`; step functions whose steps follow each other
run to related states with equal outputs. Operations may have a cost, and the relation may
depend on the budget that is left for the rest of the run. A machine may also be seen, through
a function on its states, as one that is given as a relation.
-/

namespace Runs

universe u u' v w w' x

variable {ε : Type x}

section Follows

variable {α : Type w} {β : Type w'} {α' : Type w} {β' : Type w'}

/-- The first computation succeeds wherever the second does, with a related result. -/
def Follows (R : α → β → Prop) (x : Except ε α) (y : Except ε β) : Prop :=
  ∀ b, y = .ok b → ∃ a, x = .ok a ∧ R a b

variable {R : α → β → Prop} {S : α' → β' → Prop}

/-- Related values are followed. -/
theorem Follows.ok {a : α} {b : β} (h : R a b) : Follows R (.ok a : Except ε α) (.ok b) := by
  intro c hc
  cases hc
  exact ⟨a, rfl, h⟩

/-- Nothing has to follow a fault. -/
theorem Follows.error (x : Except ε α) (e : ε) : Follows R x (.error e) := by
  intro b hb
  cases hb

/-- Computations in sequence follow computations in sequence. -/
theorem Follows.bind {x : Except ε α} {y : Except ε β} {f : α → Except ε α'}
    {g : β → Except ε β'} (h : Follows R x y) (hf : ∀ a b, R a b → Follows S (f a) (g b)) :
    Follows S (x >>= f) (y >>= g) := by
  cases hy : y with
  | error e => exact .error _ e
  | ok b =>
    obtain ⟨a, rfl, hr⟩ := h b hy
    exact hf a b hr

/-- The relation between the results may be weakened. -/
theorem Follows.mono {R' : α → β → Prop} {x : Except ε α} {y : Except ε β} (h : Follows R x y)
    (hr : ∀ a b, R a b → R' a b) : Follows R' x y := by
  intro b hb
  obtain ⟨a, ha, hab⟩ := h b hb
  exact ⟨a, ha, hr a b hab⟩

/-- Computations that branch on tests with the same outcome. -/
theorem Follows.ite {p q : Prop} [Decidable p] [Decidable q] {x x' : Except ε α}
    {y y' : Except ε β} (hpq : p ↔ q) (h : q → Follows R x y) (h' : ¬q → Follows R x' y') :
    Follows R (if p then x else x') (if q then y else y') := by
  by_cases hq : q
  · rw [if_pos (hpq.mpr hq), if_pos hq]
    exact h hq
  · rw [if_neg (mt hpq.mp hq), if_neg hq]
    exact h' hq

end Follows

variable {σ : Type u} {τ : Type u'} {ι : Type v} {ο : Type w}

/-- Equal outputs and related states. -/
def Agree (R : σ → τ → Prop) (p : ο × σ) (q : ο × τ) : Prop := p.1 = q.1 ∧ R p.2 q.2

/-- Steps that follow each other within a budget make runs that do. -/
theorem run_follows {step : σ → ι → Except ε (ο × σ)} {step' : τ → ι → Except ε (ο × τ)}
    {cost : ι → Nat} {R : Nat → σ → τ → Prop}
    (hstep : ∀ n s t i, R (n + cost i) s t → Follows (Agree (R n)) (step s i) (step' t i))
    {n : Nat} {s : σ} {t : τ} (is : List ι) (h : R (n + (is.map cost).sum) s t) :
    Follows (Agree (R n)) (run step s is) (run step' t is) := by
  induction is generalizing s t with
  | nil => exact .ok ⟨rfl, h⟩
  | cons i is ih =>
    rw [List.map_cons, List.sum_cons, Nat.add_comm (cost i), ← Nat.add_assoc] at h
    rintro ⟨os, t''⟩ hr
    rw [run] at hr
    split at hr
    · cases hr
    · next o t' ht =>
      obtain ⟨⟨o', s'⟩, hs, rfl, hrel⟩ := hstep _ s t i h _ ht
      split at hr
      · cases hr
      · next os' t'' hrest =>
        cases hr
        obtain ⟨⟨os'', s''⟩, hs', rfl, hrel'⟩ := ih hrel _ hrest
        exact ⟨_, run_cons hs hs', rfl, hrel'⟩

/-- The run rule for steps that follow each other whatever was run before. -/
theorem run_follows_always {step : σ → ι → Except ε (ο × σ)} {step' : τ → ι → Except ε (ο × τ)}
    {R : σ → τ → Prop} (hstep : ∀ s t i, R s t → Follows (Agree R) (step s i) (step' t i))
    {s : σ} {t : τ} (is : List ι) (h : R s t) :
    Follows (Agree R) (run step s is) (run step' t is) := by
  have hr (n : Nat) (s : σ) (t : τ) (i : ι) := hstep s t i
  exact @run_follows _ _ _ _ _ step step' (fun _ => 0) (fun _ => R) hr 0 s t is h

/-- A run of a machine that is given as a relation. -/
inductive Traced (R : σ → ι → ο → σ → Prop) : σ → List ι → List ο → σ → Prop where
  | nil (s : σ) : Traced R s [] [] s
  | cons {s t u : σ} {i : ι} {o : ο} {is : List ι} {os : List ο} (h : R s i o t)
      (hr : Traced R t is os u) : Traced R s (i :: is) (o :: os) u

/-- The run rule for steps that are steps of a relation in the eyes of a function. -/
theorem run_traced {step : σ → ι → Except ε (ο × σ)} {R : τ → ι → ο → τ → Prop}
    {I : σ → Prop} {f : σ → τ}
    (hstep : ∀ s i, I s → ∃ o t, step s i = .ok (o, t) ∧ I t ∧ R (f s) i o (f t))
    {s : σ} (hs : I s) (is : List ι) :
    ∃ os t, run step s is = .ok (os, t) ∧ I t ∧ Traced R (f s) is os (f t) := by
  induction is generalizing s with
  | nil => exact ⟨[], s, rfl, hs, .nil (f s)⟩
  | cons i is ih =>
    obtain ⟨o, t, ht, hI, hrel⟩ := hstep s i hs
    obtain ⟨os, u, hr, hu, htr⟩ := ih hI
    exact ⟨o :: os, u, run_cons ht hr, hu, .cons hrel htr⟩

end Runs
