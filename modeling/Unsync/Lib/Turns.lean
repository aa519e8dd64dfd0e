import Mathlib.Data.List.Basic
import Mathlib.Data.List.Nodup

/-!
# Taking turns

The log of a service: clients arrive, are granted what they came for or withdraw, and some
are served on the spot without ever being in line. Some clients are patient. Everybody waits
for their turn when a patient client is granted something only after all who arrived before
it were settled, and walk-ins are served only when nobody is left in line.
-/

namespace Turns

universe u

variable {K : Type u}

/-- What happens at a service. -/
inductive Event (K : Type u) where
  | arrived (client : K)
  | granted (client : K)
  | withdrawn (client : K)
  | walkIn
  deriving DecidableEq, Repr

/-- The clients that arrived, in order. -/
def arrivals (log : List (Event K)) : List K :=
  log.filterMap fun e => match e with
    | .arrived k => some k
    | _ => none

/-- The client was served or has left. -/
def Settled (log : List (Event K)) (k : K) : Prop := .granted k ∈ log ∨ .withdrawn k ∈ log

instance [DecidableEq K] (log : List (Event K)) (k : K) : Decidable (Settled log k) :=
  inferInstanceAs (Decidable (_ ∨ _))

/-- The line: who arrived and is not settled, in order. -/
def line [DecidableEq K] (log : List (Event K)) : List K :=
  (arrivals log).filter fun k => ¬ Settled log k

/-- Patient clients are served in their turn, and walk-ins only when nobody is in line. -/
structure InTurn (patient : K → Bool) (log : List (Event K)) : Prop where
  granted : ∀ past k future, log = past ++ .granted k :: future → patient k = true →
    ∃ l r, arrivals past = l ++ k :: r ∧ ∀ j ∈ l, Settled past j
  walkIn : ∀ past future, log = past ++ .walkIn :: future → ∀ j ∈ arrivals past, Settled past j

/-! ### One more event -/

section Append

variable (log : List (Event K)) (k : K)

@[simp] theorem arrivals_append (more : List (Event K)) :
    arrivals (log ++ more) = arrivals log ++ arrivals more := List.filterMap_append

variable [DecidableEq K]

/-- Who has arrived and is not in line is settled. -/
theorem settled_of_line {log : List (Event K)} {k : K} (hk : k ∈ arrivals log)
    (hl : k ∉ line log) : Settled log k := by
  by_contra hno
  apply hl
  rw [line, List.mem_filter]
  exact ⟨hk, by simpa using hno⟩

/-- A client that was never seen goes to the end of the line. -/
theorem line_arrived (h : ¬ Settled log k) : line (log ++ [.arrived k]) = line log ++ [k] := by
  have hs : ∀ j, Settled (log ++ [.arrived k]) j ↔ Settled log j := by
    intro j
    simp [Settled]
  simp [line, hs, h, arrivals]

/-- A client that is granted something leaves the line. -/
theorem line_granted : line (log ++ [.granted k]) = (line log).filter (· ≠ k) := by
  simp only [line, arrivals_append, List.filter_filter]
  simp only [arrivals, List.filterMap_cons, List.filterMap_nil, List.append_nil]
  apply List.filter_congr
  intro j _
  rw [Bool.eq_iff_iff]
  simp only [Settled, List.mem_append, List.mem_singleton, Event.granted.injEq, reduceCtorEq,
    or_false, decide_eq_true_eq, Bool.and_eq_true, not_or]
  tauto

/-- A client that withdraws leaves the line. -/
theorem line_withdrawn : line (log ++ [.withdrawn k]) = (line log).filter (· ≠ k) := by
  simp only [line, arrivals_append, List.filter_filter]
  simp only [arrivals, List.filterMap_cons, List.filterMap_nil, List.append_nil]
  apply List.filter_congr
  intro j _
  rw [Bool.eq_iff_iff]
  simp only [Settled, List.mem_append, List.mem_singleton, Event.withdrawn.injEq, reduceCtorEq,
    or_false, decide_eq_true_eq, Bool.and_eq_true, not_or]
  tauto

/-- Walk-ins are never in line. -/
theorem line_walkIn : line (log ++ [.walkIn]) = line log := by
  simp [line, arrivals, Settled]

end Append

namespace InTurn

variable {patient : K → Bool} {log : List (Event K)}

/-- Nothing happened. -/
theorem nil : InTurn patient [] := by
  constructor
  · intro past k future h
    simp at h
  · intro past future h
    simp at h

private theorem split_last {e x : Event K} {past future : List (Event K)}
    (h : log ++ [e] = past ++ x :: future) :
    log = past ∧ e = x ∨ ∃ future', log = past ++ x :: future' := by
  rcases List.eq_nil_or_concat' future with rfl | ⟨future', y, rfl⟩
  · have hinj := List.append_inj' h rfl
    exact Or.inl ⟨hinj.1, (List.cons.inj hinj.2).1⟩
  · rw [← List.cons_append, ← List.append_assoc] at h
    exact Or.inr ⟨future', (List.append_inj' h rfl).1⟩

/-- Another event, in its turn. -/
theorem snoc (h : InTurn patient log) {e : Event K}
    (hg : ∀ k, e = .granted k → patient k = true →
      ∃ l r, arrivals log = l ++ k :: r ∧ ∀ j ∈ l, Settled log j)
    (hw : e = .walkIn → ∀ j ∈ arrivals log, Settled log j) : InTurn patient (log ++ [e]) := by
  constructor
  · intro past k future hlog hp
    rcases split_last hlog with ⟨rfl, he⟩ | ⟨future', hlog'⟩
    · exact hg k he hp
    · exact h.granted past k future' hlog' hp
  · intro past future hlog
    rcases split_last hlog with ⟨rfl, he⟩ | ⟨future', hlog'⟩
    · exact hw he
    · exact h.walkIn past future' hlog'

/-- An arrival is always in order. -/
theorem arrived (h : InTurn patient log) (k : K) : InTurn patient (log ++ [.arrived k]) :=
  h.snoc (fun _ he => by cases he) fun he => by cases he

/-- A withdrawal is always in order. -/
theorem withdrawn (h : InTurn patient log) (k : K) : InTurn patient (log ++ [.withdrawn k]) :=
  h.snoc (fun _ he => by cases he) fun he => by cases he

/-- A client that is not patient may be served at any time. -/
theorem steal (h : InTurn patient log) {k : K} (hk : patient k = false) :
    InTurn patient (log ++ [.granted k]) := by
  apply h.snoc
  · rintro j ⟨⟩ hp
    rw [hk] at hp
    cases hp
  · intro he
    cases he

variable [DecidableEq K]

/-- With nobody in line a walk-in may be served. -/
theorem walk_in (h : InTurn patient log) (hl : line log = []) :
    InTurn patient (log ++ [.walkIn]) := by
  apply h.snoc
  · intro k he
    cases he
  · intro _ j hj
    exact settled_of_line hj (by rw [hl]; exact List.not_mem_nil)

/-- The client at the head of the line may be served. -/
theorem head (h : InTurn patient log) {k : K} {rest : List K} (hl : line log = k :: rest) :
    InTurn patient (log ++ [.granted k]) := by
  apply h.snoc
  · rintro j ⟨⟩ -
    obtain ⟨l, r, ha, hsettled, -⟩ := List.filter_eq_cons_iff.mp hl
    refine ⟨l, r, ha, ?_⟩
    intro j hj
    simpa using hsettled j hj
  · intro he
    cases he

/-- The clients at the head of the line may be served one after the other. -/
theorem serve (h : InTurn patient log) {ks rest : List K} (hl : line log = ks ++ rest)
    (hd : (ks ++ rest).Nodup) :
    InTurn patient (log ++ ks.map .granted) ∧ line (log ++ ks.map .granted) = rest := by
  induction ks generalizing log with
  | nil =>
    rw [List.map_nil, List.append_nil]
    exact ⟨h, hl⟩
  | cons k ks ih =>
    rw [List.cons_append] at hl hd
    obtain ⟨hk, hd⟩ := List.nodup_cons.mp hd
    have hline : line (log ++ [.granted k]) = ks ++ rest := by
      rw [line_granted, hl, List.filter_cons_of_neg (by simp), List.filter_eq_self]
      intro j hj
      rw [decide_eq_true_eq]
      rintro rfl
      exact hk hj
    rw [List.map_cons, List.append_cons]
    exact ih (h.head hl) hline hd

end InTurn
end Turns
