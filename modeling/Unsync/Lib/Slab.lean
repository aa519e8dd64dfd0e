import Mathlib.Data.List.Basic
import Mathlib.Data.List.Forall2
import Mathlib.Data.List.Nodup
import Mathlib.Data.List.Perm.Basic

/-!
# Slabs

A store whose entries are found by numeric keys. What is asked of such a store are laws, from
which its book-keeping follows; the store here, which keeps its entries in key order, meets
them. The keys are chosen by the caller, so that results hold for every policy of reusing
vacant keys.
-/

universe u v w

/-- Entries under distinct keys, in key order. -/
structure Slab (α : Type u) where
  entries : List (Nat × α)
  ordered : (entries.map Prod.fst).Pairwise (· < ·)
  deriving DecidableEq, Repr

namespace Slab

variable {α : Type u} {β : Type v} {σ : Type w}

/-- No entries. -/
def empty : Slab α := ⟨[], List.Pairwise.nil⟩

/-- The occupied keys. -/
def keys (s : Slab α) : List Nat := s.entries.map Prod.fst

/-- The number of entries. -/
def len (s : Slab α) : Nat := s.entries.length

/-- The entry under a key. -/
def get? (s : Slab α) (k : Nat) : Option α := s.entries.lookup k

private theorem ordered_insert (s : Slab α) (k : Nat) (a : α) :
    ((s.entries.filter (·.1 < k) ++ (k, a) :: s.entries.filter (k < ·.1)).map
      Prod.fst).Pairwise (· < ·) := by
  have hs := List.pairwise_map.mp s.ordered
  rw [List.pairwise_map, List.pairwise_append, List.pairwise_cons]
  refine ⟨hs.filter _, ⟨?_, hs.filter _⟩, ?_⟩
  · intro e he
    simpa using (List.mem_filter.mp he).2
  · intro e he f hf
    have hlt : e.1 < k := by simpa using (List.mem_filter.mp he).2
    rcases List.mem_cons.mp hf with rfl | hf
    · exact hlt
    · have hgt : k < f.1 := by simpa using (List.mem_filter.mp hf).2
      exact Nat.lt_trans hlt hgt

/-- Put an entry under a key. -/
def insert (s : Slab α) (k : Nat) (a : α) : Slab α :=
  ⟨s.entries.filter (·.1 < k) ++ (k, a) :: s.entries.filter (k < ·.1), ordered_insert s k a⟩

/-- Vacate a key. -/
def remove (s : Slab α) (k : Nat) : Slab α :=
  ⟨s.entries.filter (·.1 ≠ k),
    List.pairwise_map.mpr ((List.pairwise_map.mp s.ordered).filter _)⟩

/-- Change all entries. -/
def map (s : Slab α) (g : Nat → α → β) : Slab β :=
  ⟨s.entries.map fun e => (e.1, g e.1 e.2), by
    rw [List.map_map]
    exact s.ordered⟩

/-- Change the entry under a key, where there is one. -/
def set (s : Slab α) (k : Nat) (a : α) : Slab α := s.map fun j b => if j = k then a else b

/-- Visit entries from left to right with an accumulator, and change them. -/
def visit (body : σ → Nat → α → σ × α) : σ → List (Nat × α) → σ × List (Nat × α)
  | c, [] => (c, [])
  | c, (k, a) :: es =>
    let (c, a) := body c k a
    let (c, es) := visit body c es
    (c, (k, a) :: es)

/-- A visit stays at the keys. -/
theorem visit_keys (body : σ → Nat → α → σ × α) (c : σ) (es : List (Nat × α)) :
    (visit body c es).2.map Prod.fst = es.map Prod.fst := by
  induction es generalizing c with
  | nil => rfl
  | cons e es ih => simp [visit, ih]

/-- Iterate mutably over all entries, in key order. -/
def forEach (s : Slab α) (body : σ → Nat → α → σ × α) (c : σ) : σ × Slab α :=
  ((visit body c s.entries).1, ⟨(visit body c s.entries).2, by
    rw [visit_keys]
    exact s.ordered⟩)

/-! ### The laws of a slab -/

/-- What a store of entries under numeric keys does, whatever it is made of: a key is occupied
once and has an entry, an insertion under a vacant key and a removal change nothing under other
keys, and an iteration visits each entry once and keeps the keys. -/
structure Laws {S : Type u} (keys : S → List Nat) (get? : S → Nat → Option α)
    (insert : S → Nat → α → S) (remove : S → Nat → S)
    (forEach : S → (σ → Nat → α → σ × α) → σ → σ × S) : Prop where
  nodup_keys (s : S) : (keys s).Nodup
  mem_keys (s : S) (k : Nat) : k ∈ keys s ↔ ∃ a, get? s k = some a
  get?_insert (s : S) {k : Nat} (hk : k ∉ keys s) (j : Nat) (a : α) :
    get? (insert s k a) j = if j = k then some a else get? s j
  get?_remove (s : S) (k j : Nat) : get? (remove s k) j = if j = k then none else get? s j
  visited (s : S) (body : σ → Nat → α → σ × α) (c : σ) : ∃ es : List (Nat × α),
    es.map Prod.fst = keys s ∧ (∀ k a, (k, a) ∈ es ↔ get? s k = some a) ∧
      (forEach s body c).1 = (visit body c es).1 ∧
      keys (forEach s body c).2 = (visit body c es).2.map Prod.fst ∧
      ∀ k a, (k, a) ∈ (visit body c es).2 ↔ get? (forEach s body c).2 k = some a

namespace Laws

variable {S : Type u} {keys : S → List Nat} {get? : S → Nat → Option α}
  {insert : S → Nat → α → S} {remove : S → Nat → S}
  {forEach : S → (σ → Nat → α → σ × α) → σ → σ × S}

/-- Inserting at a vacant key adds that key. -/
theorem keys_insert (h : Laws keys get? insert remove forEach) {s : S} {k : Nat}
    (hk : k ∉ keys s) (a : α) : (keys (insert s k a)).Perm (k :: keys s) := by
  have hnodup := List.nodup_cons.mpr ⟨hk, h.nodup_keys s⟩
  rw [List.perm_ext_iff_of_nodup (h.nodup_keys _) hnodup]
  intro j
  rw [List.mem_cons, h.mem_keys, h.mem_keys, h.get?_insert s hk]
  split
  · next hj => simp [hj]
  · next hj => simp [hj]

/-- Vacating a key removes that key. -/
theorem keys_remove (h : Laws keys get? insert remove forEach) (s : S) (k : Nat) :
    (keys (remove s k)).Perm ((keys s).erase k) := by
  have hnodup := (h.nodup_keys s).erase k
  rw [List.perm_ext_iff_of_nodup (h.nodup_keys _) hnodup]
  intro j
  rw [(h.nodup_keys s).mem_erase_iff, h.mem_keys, h.mem_keys, h.get?_remove]
  split
  · next hj => simp [hj]
  · next hj => simp [hj]

/-- Iteration keeps the keys. -/
theorem keys_forEach (h : Laws keys get? insert remove forEach) (s : S)
    (body : σ → Nat → α → σ × α) (c : σ) : keys (forEach s body c).2 = keys s := by
  obtain ⟨es, hes, -, -, hkeys, -⟩ := h.visited s body c
  rw [hkeys, visit_keys, hes]

/-- Distinct keys below a bound are no more than the bound. -/
theorem length_le (h : Laws keys get? insert remove forEach) {s : S} {n : Nat}
    (hb : ∀ k ∈ keys s, k < n) : (keys s).length ≤ n := by
  have hsub : keys s ⊆ List.range n := fun k hk => List.mem_range.mpr (hb k hk)
  have hle := (List.subperm_of_subset (h.nodup_keys s) hsub).length_le
  rwa [List.length_range] at hle

/-- A vacant key below the bound leaves room for its entry. -/
theorem length_lt (h : Laws keys get? insert remove forEach) {s : S} {n k : Nat}
    (hb : ∀ j ∈ keys s, j < n) (hk : k ∉ keys s) (hn : k < n) : (keys s).length < n := by
  have hsub : k :: keys s ⊆ List.range n := by
    intro j hj
    rcases List.mem_cons.mp hj with rfl | hj
    · exact List.mem_range.mpr hn
    · exact List.mem_range.mpr (hb j hj)
  have hnodup := List.nodup_cons.mpr ⟨hk, h.nodup_keys s⟩
  have hle := (List.subperm_of_subset hnodup hsub).length_le
  rwa [List.length_cons, List.length_range] at hle

end Laws

/-! ### Keys and entries -/

/-- Keys do not repeat. -/
theorem nodup_keys (s : Slab α) : s.keys.Nodup := s.ordered.imp Nat.ne_of_lt

/-- A key has one entry. -/
theorem get?_eq_some {s : Slab α} {k : Nat} {a : α} : s.get? k = some a ↔ (k, a) ∈ s.entries := by
  have hd := s.nodup_keys
  unfold get? keys at *
  generalize s.entries = es at hd ⊢
  induction es with
  | nil => simp
  | cons e es ih =>
    obtain ⟨j, b⟩ := e
    rw [List.map_cons, List.nodup_cons] at hd
    rw [List.lookup_cons, List.mem_cons, Prod.mk.injEq]
    by_cases hk : k = j
    · subst hk
      have hno : (k, a) ∉ es := fun hm => hd.1 (List.mem_map.mpr ⟨_, hm, rfl⟩)
      simp [hno, eq_comm]
    · have hne : (k == j) = false := beq_eq_false_iff_ne.mpr hk
      simp [hne, hk, ih hd.2]

/-- The occupied keys are those with an entry. -/
theorem mem_keys {s : Slab α} {k : Nat} : k ∈ s.keys ↔ ∃ a, s.get? k = some a := by
  simp only [get?_eq_some, keys, List.mem_map, Prod.exists, exists_and_right, exists_eq_right]

/-- Each entry has its key. -/
@[simp] theorem length_keys (s : Slab α) : s.keys.length = s.len := List.length_map _

private theorem get?_ext {s : Slab α} {k : Nat} {o : Option α}
    (h : ∀ a, (k, a) ∈ s.entries ↔ o = some a) : s.get? k = o := by
  ext a
  rw [get?_eq_some, h]

/-- The entry inserted last is found. -/
theorem get?_insert (s : Slab α) (k j : Nat) (a : α) :
    (s.insert k a).get? j = if j = k then some a else s.get? j := by
  apply get?_ext
  intro b
  simp only [insert, List.mem_append, List.mem_filter, List.mem_cons, Prod.mk.injEq,
    decide_eq_true_eq]
  split
  · next hj =>
    rw [Option.some.injEq]
    constructor
    · rintro (⟨-, hlt⟩ | ⟨-, rfl⟩ | ⟨-, hlt⟩)
      · omega
      · rfl
      · omega
    · rintro rfl
      exact Or.inr (Or.inl ⟨hj, rfl⟩)
  · next hj =>
    rw [get?_eq_some]
    constructor
    · rintro (⟨hm, -⟩ | ⟨heq, -⟩ | ⟨hm, -⟩)
      · exact hm
      · exact absurd heq hj
      · exact hm
    · intro hm
      rcases Nat.lt_or_gt_of_ne hj with hlt | hlt
      · exact Or.inl ⟨hm, hlt⟩
      · exact Or.inr (Or.inr ⟨hm, hlt⟩)

/-- An entry that was not removed is still found. -/
theorem get?_remove (s : Slab α) (k j : Nat) :
    (s.remove k).get? j = if j = k then none else s.get? j := by
  apply get?_ext
  intro b
  simp only [remove, List.mem_filter, decide_eq_true_eq]
  split
  · next hj => simp [hj]
  · next hj => simp [hj, get?_eq_some]

/-- A changed entry is found under its key. -/
theorem get?_map (s : Slab α) (g : Nat → α → β) (k : Nat) :
    (s.map g).get? k = (s.get? k).map (g k) := by
  apply get?_ext
  intro b
  simp only [map, List.mem_map, Prod.mk.injEq, Prod.exists, Option.map_eq_some_iff, get?_eq_some]
  constructor
  · rintro ⟨j, a, hm, rfl, rfl⟩
    exact ⟨a, hm, rfl⟩
  · rintro ⟨a, hm, rfl⟩
    exact ⟨k, a, hm, rfl, rfl⟩

/-- Where a key is occupied, its entry is the one set last. -/
theorem get?_set (s : Slab α) (k j : Nat) (a : α) :
    (s.set k a).get? j = if j = k then (s.get? j).map (fun _ => a) else s.get? j := by
  rw [set, get?_map]
  split
  · rfl
  · simp

/-- A change of entries keeps the keys. -/
@[simp] theorem keys_map (s : Slab α) (g : Nat → α → β) : (s.map g).keys = s.keys := by
  simp [keys, map]

/-- Setting an entry keeps the keys. -/
@[simp] theorem keys_set (s : Slab α) (k : Nat) (a : α) : (s.set k a).keys = s.keys :=
  keys_map _ _

/-- Entries in key order meet the laws. -/
theorem laws : Laws keys get? insert remove (forEach : Slab α → (σ → Nat → α → σ × α) → _) where
  nodup_keys := nodup_keys
  mem_keys _ _ := mem_keys
  get?_insert s k _ j a := get?_insert s k j a
  get?_remove := get?_remove
  visited s body c :=
    ⟨s.entries, rfl, fun _ _ => get?_eq_some.symm, rfl, rfl,
      fun _ _ => (get?_eq_some (s := (s.forEach body c).2)).symm⟩

/-- Inserting at a vacant key adds that key. -/
theorem keys_insert {s : Slab α} {k : Nat} (h : k ∉ s.keys) (a : α) :
    (s.insert k a).keys.Perm (k :: s.keys) := (laws (σ := Unit)).keys_insert h a

/-- Vacating a key removes that key. -/
theorem keys_remove (s : Slab α) (k : Nat) : (s.remove k).keys.Perm (s.keys.erase k) :=
  (laws (σ := Unit)).keys_remove s k

/-- Distinct keys below a bound are no more than the bound. -/
theorem len_le {s : Slab α} {n : Nat} (h : ∀ k ∈ s.keys, k < n) : s.len ≤ n := by
  rw [← length_keys]
  exact (laws (σ := Unit)).length_le h

/-- A vacant key below the bound leaves room for its entry. -/
theorem len_lt {s : Slab α} {n k : Nat} (h : ∀ j ∈ s.keys, j < n) (hk : k ∉ s.keys)
    (hn : k < n) : s.len < n := by
  rw [← length_keys]
  exact (laws (σ := Unit)).length_lt h hk hn

/-- Counting entries is counting their keys. -/
theorem countP_entries (s : Slab α) (p : α → Bool) :
    s.entries.countP (fun e => p e.2) = s.keys.countP fun k => (s.get? k).any p := by
  rw [keys, List.countP_map]
  apply List.countP_congr
  intro e he
  have hget : s.get? e.1 = some e.2 := get?_eq_some.mpr he
  simp [hget]

/-- A key is selected once if its entry is. -/
theorem count_selected (s : Slab α) (p : α → Bool) (k : Nat) :
    ((s.entries.filter fun e => p e.2).map Prod.fst).count k = ((s.get? k).any p).toNat := by
  have hd : ((s.entries.filter fun e => p e.2).map Prod.fst).Nodup :=
    (List.filter_sublist.map Prod.fst).nodup s.nodup_keys
  have hmem : k ∈ (s.entries.filter fun e => p e.2).map Prod.fst ↔ (s.get? k).any p = true := by
    simp only [List.mem_map, List.mem_filter, Prod.exists, exists_and_right, exists_eq_right,
      Option.any_eq_true, get?_eq_some]
  rw [hd.count]
  by_cases h : (s.get? k).any p = true
  · rw [if_pos (hmem.mpr h), h]
    rfl
  · rw [if_neg (fun hm => h (hmem.mp hm)), Bool.eq_false_iff.mpr h]
    rfl

/-! ### Iteration -/

/-- Iteration keeps the keys. -/
@[simp] theorem keys_forEach (s : Slab α) (body : σ → Nat → α → σ × α) (c : σ) :
    (s.forEach body c).2.keys = s.keys := laws.keys_forEach s body c

/-- Iteration keeps the number of entries. -/
@[simp] theorem len_forEach (s : Slab α) (body : σ → Nat → α → σ × α) (c : σ) :
    (s.forEach body c).2.len = s.len := by
  rw [← length_keys, keys_forEach, length_keys]

/-- There is nothing to visit in an empty slab. -/
theorem forEach_of_len {s : Slab α} (h : s.len = 0) (body : σ → Nat → α → σ × α) (c : σ) :
    s.forEach body c = (c, s) := by
  obtain ⟨es, ho⟩ := s
  cases List.length_eq_zero_iff.mp h
  rfl

/-- A body whose change of an entry ignores the accumulator changes every entry, and the
accumulator runs over all entries. -/
theorem forEach_eq {s : Slab α} {body : σ → Nat → α → σ × α} {acc : σ → Nat → α → σ}
    {g : Nat → α → α} (h : ∀ c k a, body c k a = (acc c k a, g k a)) (c : σ) :
    s.forEach body c = (s.entries.foldl (fun c e => acc c e.1 e.2) c, s.map g) := by
  have hvisit : ∀ (es : List (Nat × α)) (c : σ), visit body c es =
      (es.foldl (fun c e => acc c e.1 e.2) c, es.map fun e => (e.1, g e.1 e.2)) := by
    intro es
    induction es with
    | nil => intro c; rfl
    | cons e es ih => intro c; simp [visit, h, ih]
  simp only [forEach, hvisit, map]

/-! ### Stores that differ in their entries only -/

section Related

variable {R : α → β → Prop} {s : Slab α} {t : Slab β}

/-- Stores with related entries under the same keys. -/
def Related (R : α → β → Prop) (s : Slab α) (t : Slab β) : Prop :=
  List.Forall₂ (fun e f => e.1 = f.1 ∧ R e.2 f.2) s.entries t.entries

/-- Related stores have the same keys. -/
theorem Related.keys_eq (h : Related R s t) : s.keys = t.keys := by
  unfold keys
  unfold Related at h
  generalize s.entries = es at h ⊢
  generalize t.entries = fs at h ⊢
  induction h with
  | nil => rfl
  | cons he _ ih => rw [List.map_cons, List.map_cons, he.1, ih]

/-- Related stores have the same number of entries. -/
theorem Related.len_eq (h : Related R s t) : s.len = t.len := h.length_eq

/-- The relation between the entries may be weakened. -/
theorem Related.mono {R' : α → β → Prop} (h : Related R s t) (hr : ∀ a b, R a b → R' a b) :
    Related R' s t := h.imp fun _ _ he => ⟨he.1, hr _ _ he.2⟩

/-- The entries under a key are related, or both are missing. -/
theorem Related.get? (h : Related R s t) (k : Nat) : Option.Rel R (s.get? k) (t.get? k) := by
  unfold Slab.get?
  unfold Related at h
  generalize s.entries = es at h ⊢
  generalize t.entries = fs at h ⊢
  induction h with
  | nil => exact .none
  | @cons e f _ _ he _ ih =>
    obtain ⟨j, a⟩ := e
    obtain ⟨j', b⟩ := f
    obtain ⟨rfl, hr⟩ := he
    rw [List.lookup_cons, List.lookup_cons]
    cases k == j with
    | true => exact .some hr
    | false => exact ih

private theorem related_filter (h : Related R s t) (p : Nat → Bool) :
    List.Forall₂ (fun e f => e.1 = f.1 ∧ R e.2 f.2) (s.entries.filter fun e => p e.1)
      (t.entries.filter fun e => p e.1) := by
  unfold Related at h
  generalize s.entries = es at h ⊢
  generalize t.entries = fs at h ⊢
  induction h with
  | nil => exact .nil
  | @cons e f _ _ he _ ih =>
    rw [List.filter_cons, List.filter_cons, he.1]
    cases p f.1 with
    | true => exact .cons he ih
    | false => exact ih

/-- Related entries under a new key. -/
theorem Related.insert (h : Related R s t) (k : Nat) {a : α} {b : β} (hr : R a b) :
    Related R (s.insert k a) (t.insert k b) :=
  List.rel_append (related_filter h fun j => decide (j < k))
    (.cons ⟨rfl, hr⟩ (related_filter h fun j => decide (k < j)))

/-- A key is vacated on both sides. -/
theorem Related.remove (h : Related R s t) (k : Nat) : Related R (s.remove k) (t.remove k) :=
  related_filter h fun j => decide (j ≠ k)

/-- Changes that keep entries related. -/
theorem Related.map {R' : α → β → Prop} {f : Nat → α → α} {g : Nat → β → β} (h : Related R s t)
    (hr : ∀ k a b, R a b → R' (f k a) (g k b)) : Related R' (s.map f) (t.map g) := by
  have hentry : ∀ (e : Nat × α) (e' : Nat × β), e.1 = e'.1 ∧ R e.2 e'.2 →
      e.1 = e'.1 ∧ R' (f e.1 e.2) (g e'.1 e'.2) := by
    rintro ⟨j, a⟩ ⟨j', b⟩ ⟨rfl, hab⟩
    exact ⟨rfl, hr j a b hab⟩
  unfold Related at h ⊢
  exact List.forall₂_map_left_iff.mpr (List.forall₂_map_right_iff.mpr (h.imp hentry))

/-- An entry is set on both sides. -/
theorem Related.set (h : Related R s t) (k : Nat) {a : α} {b : β} (hr : R a b) :
    Related R (s.set k a) (t.set k b) := by
  apply h.map
  intro j a' b' hr'
  by_cases hj : j = k
  · rw [if_pos hj, if_pos hj]
    exact hr
  · rw [if_neg hj, if_neg hj]
    exact hr'

/-- Visits that treat related entries alike accumulate the same and leave related entries. -/
theorem Related.forEach {R' : α → β → Prop} {body : σ → Nat → α → σ × α}
    {body' : σ → Nat → β → σ × β} (h : Related R s t)
    (hb : ∀ c k a b, R a b →
      (body c k a).1 = (body' c k b).1 ∧ R' (body c k a).2 (body' c k b).2) (c : σ) :
    (s.forEach body c).1 = (t.forEach body' c).1 ∧
      Related R' (s.forEach body c).2 (t.forEach body' c).2 := by
  show (visit body c s.entries).1 = (visit body' c t.entries).1 ∧
    List.Forall₂ _ (visit body c s.entries).2 (visit body' c t.entries).2
  unfold Related at h
  generalize s.entries = es at h ⊢
  generalize t.entries = fs at h ⊢
  induction h generalizing c with
  | nil => exact ⟨rfl, .nil⟩
  | @cons e f _ _ he _ ih =>
    obtain ⟨j, a⟩ := e
    obtain ⟨j', b⟩ := f
    obtain ⟨rfl, hr⟩ := he
    obtain ⟨hc, hr'⟩ := hb c j a b hr
    simp only [visit, ← hc]
    obtain ⟨hfst, hsnd⟩ := ih (body c j a).1
    exact ⟨hfst, .cons ⟨rfl, hr'⟩ hsnd⟩

end Related

end Slab
