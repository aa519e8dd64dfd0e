import Mathlib.Data.List.Nodup

/-!
# Doubly linked sequences

`Linked next prev head tail xs` says that the link functions and the two end pointers
represent the sequence `xs`. The laws below are those of a queue with removal: appending
behind the tail and unlinking a node from any position. Cells outside the sequence are
never constrained, so stale links of removed nodes are harmless.
-/

namespace DoublyLinked

universe u

variable {α : Type u} {next prev : α → Option α} {head tail : Option α} {xs : List α}

/-- The sequence `xs` as it is laid out by links and end pointers. Every split of `xs`
around a node determines that node's two links. -/
structure Linked (next prev : α → Option α) (head tail : Option α) (xs : List α) : Prop where
  nodup : xs.Nodup
  head_eq : head = xs.head?
  tail_eq : tail = xs.getLast?
  next_eq : ∀ l a r, xs = l ++ a :: r → next a = r.head?
  prev_eq : ∀ l a r, xs = l ++ a :: r → prev a = l.getLast?

/-- Two null ends represent the empty sequence. -/
theorem Linked.nil : Linked next prev none none [] :=
  ⟨List.nodup_nil, rfl, rfl, by simp, by simp⟩

/-- Links of nodes outside the sequence do not matter. -/
theorem Linked.congr {next' prev' : α → Option α} (h : Linked next prev head tail xs)
    (hn : ∀ a ∈ xs, next' a = next a) (hp : ∀ a ∈ xs, prev' a = prev a) :
    Linked next' prev' head tail xs where
  nodup := h.nodup
  head_eq := h.head_eq
  tail_eq := h.tail_eq
  next_eq l a r he := by rw [hn a (by simp [he]), h.next_eq l a r he]
  prev_eq l a r he := by rw [hp a (by simp [he]), h.prev_eq l a r he]

/-- The head is null exactly on the empty sequence. -/
theorem Linked.head_none (h : Linked next prev head tail xs) : head = none ↔ xs = [] := by
  rw [h.head_eq, List.head?_eq_none_iff]

/-- The tail is null exactly on the empty sequence. -/
theorem Linked.tail_none (h : Linked next prev head tail xs) : tail = none ↔ xs = [] := by
  rw [h.tail_eq, List.getLast?_eq_none_iff]

/-- Following a next link stays inside the sequence. -/
theorem Linked.next_mem (h : Linked next prev head tail xs) {a b : α} (ha : a ∈ xs)
    (hb : next a = some b) : b ∈ xs := by
  obtain ⟨l, r, he⟩ := List.append_of_mem ha
  rw [h.next_eq l a r he] at hb
  have hm : b ∈ r := List.mem_of_mem_head? hb
  simp [he, hm]

/-- Following a previous link stays inside the sequence. -/
theorem Linked.prev_mem (h : Linked next prev head tail xs) {a b : α} (ha : a ∈ xs)
    (hb : prev a = some b) : b ∈ xs := by
  obtain ⟨l, r, he⟩ := List.append_of_mem ha
  rw [h.prev_eq l a r he] at hb
  have hm : b ∈ l := List.mem_of_mem_getLast? hb
  simp [he, hm]

/-- The nodes met by following `step` from a start, for at most `n` nodes. -/
def follow (step : α → Option α) : Nat → Option α → List α
  | 0, _ => []
  | _ + 1, none => []
  | n + 1, some a => a :: follow step n (step a)

private theorem follow_next_suffix (h : Linked next prev head tail xs) (l r : List α)
    (he : xs = l ++ r) (n : Nat) (hn : r.length ≤ n) : follow next n r.head? = r := by
  induction r generalizing l n with
  | nil => cases n <;> rfl
  | cons a r ih =>
    cases n with
    | zero => simp at hn
    | succ n =>
      have hr := ih (l ++ [a]) (by simp [he]) n (by simpa using hn)
      simp only [List.head?_cons, follow]
      rw [h.next_eq l a r he, hr]

/-- Following next links from the head visits exactly the sequence, however long one looks. -/
theorem Linked.follow_next (h : Linked next prev head tail xs) (n : Nat) (hn : xs.length ≤ n) :
    follow next n head = xs := by
  rw [h.head_eq]
  exact follow_next_suffix h [] xs rfl n hn

/-- Read backwards, the links represent the reversed sequence. -/
theorem Linked.reverse (h : Linked next prev head tail xs) :
    Linked prev next tail head xs.reverse where
  nodup := List.nodup_reverse.mpr h.nodup
  head_eq := by rw [h.tail_eq, List.head?_reverse]
  tail_eq := by rw [h.head_eq, List.getLast?_reverse]
  next_eq l a r he := by
    have hx : xs = r.reverse ++ a :: l.reverse := by
      rw [← List.reverse_reverse xs, he]
      simp
    rw [h.prev_eq _ _ _ hx, List.getLast?_reverse]
  prev_eq l a r he := by
    have hx : xs = r.reverse ++ a :: l.reverse := by
      rw [← List.reverse_reverse xs, he]
      simp
    rw [h.next_eq _ _ _ hx, List.head?_reverse]

/-- Following previous links from the tail visits the sequence in reverse. -/
theorem Linked.follow_prev (h : Linked next prev head tail xs) (n : Nat) (hn : xs.length ≤ n) :
    follow prev n tail = xs.reverse :=
  h.reverse.follow_next n (by simpa using hn)

/-! ### Appending behind the tail -/

private theorem split_concat {b : α} {l r : List α} {a : α} (he : xs ++ [b] = l ++ a :: r) :
    (r = [] ∧ a = b ∧ l = xs) ∨ ∃ r', r = r' ++ [b] ∧ xs = l ++ a :: r' := by
  rcases List.eq_nil_or_concat r with rfl | ⟨r', c, rfl⟩
  · have := List.append_inj' he rfl
    simp only [List.cons.injEq, and_true] at this
    exact Or.inl ⟨rfl, this.2.symm, this.1.symm⟩
  · have he' : xs ++ [b] = (l ++ a :: r') ++ [c] := by simpa using he
    have := List.append_inj' he' rfl
    simp only [List.cons.injEq, and_true] at this
    exact Or.inr ⟨r', by simp [this.2], this.1⟩

/-- A fresh node behind the tail: its links close the end, the old tail's next link is the
node, and every other link of the sequence is as before. -/
theorem Linked.append {next' prev' : α → Option α} {b : α} (h : Linked next prev head tail xs)
    (hb : b ∉ xs) (hnb : next' b = none) (hpb : prev' b = tail)
    (hnt : ∀ a, tail = some a → next' a = some b)
    (hn : ∀ a ∈ xs, tail ≠ some a → next' a = next a) (hp : ∀ a ∈ xs, prev' a = prev a) :
    Linked next' prev' (head <|> some b) (some b) (xs ++ [b]) where
  nodup := by
    rw [List.nodup_append]
    refine ⟨h.nodup, List.nodup_singleton b, ?_⟩
    intro a ha c hc he
    rw [List.mem_singleton] at hc
    exact hb (by rwa [← hc, ← he])
  head_eq := by
    rw [h.head_eq]
    cases xs <;> rfl
  tail_eq := by simp
  next_eq l a r he := by
    rcases split_concat he with ⟨rfl, rfl, -⟩ | ⟨r', rfl, hx⟩
    · exact hnb
    · cases r' with
      | nil => rw [hnt a (by simp [h.tail_eq, hx])]; rfl
      | cons c r'' =>
        have hne : tail ≠ some a := by
          intro ht
          have hlast : (c :: r'').getLast? = some a := by
            rw [h.tail_eq, hx, List.getLast?_append, List.getLast?_cons_cons] at ht
            simpa using ht
          have hd := h.nodup
          rw [hx, List.nodup_append, List.nodup_cons] at hd
          exact hd.2.1.1 (List.mem_of_mem_getLast? hlast)
        rw [hn a (by simp [hx]) hne, h.next_eq l a _ hx]
        rfl
  prev_eq l a r he := by
    rcases split_concat he with ⟨rfl, rfl, rfl⟩ | ⟨r', rfl, hx⟩
    · rw [hpb, h.tail_eq]
    · rw [hp a (by simp [hx]), h.prev_eq l a r' hx]

/-! ### Unlinking a node -/

private theorem split_erase {l r l' r' : List α} {a : α} (he : l ++ r = l' ++ a :: r') :
    (∃ m, l = l' ++ a :: m ∧ r' = m ++ r) ∨ ∃ m, r = m ++ a :: r' ∧ l' = l ++ m := by
  rcases List.append_eq_append_iff.mp he with ⟨m, hl, hr⟩ | ⟨m, hl, hr⟩
  · exact Or.inr ⟨m, hr, hl⟩
  · cases m with
    | nil =>
      exact Or.inr ⟨[], by simpa using hr.symm, by simpa using hl.symm⟩
    | cons c m =>
      simp only [List.cons_append, List.cons.injEq] at hr
      obtain ⟨rfl, hr⟩ := hr
      exact Or.inl ⟨m, hl, hr⟩

/-- Unlinking `c`: its neighbours, or the end pointers where it has none, are joined and
every other link of the sequence is as before. The links of `c` itself may stay stale. -/
theorem Linked.remove {next' prev' : α → Option α} {head' tail' : Option α} {l r : List α} {c : α}
    (h : Linked next prev head tail (l ++ c :: r))
    (hhead : head' = if l = [] then r.head? else head)
    (htail : tail' = if r = [] then l.getLast? else tail)
    (hnl : ∀ a, l.getLast? = some a → next' a = r.head?)
    (hpr : ∀ a, r.head? = some a → prev' a = l.getLast?)
    (hn : ∀ a ∈ l ++ r, l.getLast? ≠ some a → next' a = next a)
    (hp : ∀ a ∈ l ++ r, r.head? ≠ some a → prev' a = prev a) :
    Linked next' prev' head' tail' (l ++ r) where
  nodup := by
    have hd := h.nodup
    exact hd.sublist (List.Sublist.append_left (List.sublist_cons_self c r) l)
  head_eq := by
    rw [hhead, h.head_eq]
    cases l <;> simp
  tail_eq := by
    rw [htail, h.tail_eq]
    rcases List.eq_nil_or_concat r with rfl | ⟨r', b, rfl⟩
    · simp
    · simp [List.getLast?_append, List.getLast?_cons]
  next_eq l' a r' he := by
    rcases split_erase he with ⟨m, rfl, rfl⟩ | ⟨m, rfl, rfl⟩
    · cases m with
      | nil => rw [hnl a (by simp)]; rfl
      | cons b m =>
        have hd := h.nodup
        have hne : (l' ++ a :: b :: m).getLast? ≠ some a := by
          intro ht
          have hlast : (b :: m).getLast? = some a := by
            rw [List.getLast?_append, List.getLast?_cons_cons] at ht
            simpa using ht
          simp only [List.append_assoc, List.cons_append, List.nodup_append, List.nodup_cons] at hd
          have hm : a ∈ b :: m := List.mem_of_mem_getLast? hlast
          exact hd.2.1.1 (by simpa using (List.mem_append_left (c :: r) hm))
        rw [hn a (by simp) hne, h.next_eq l' a (b :: m ++ c :: r) (by simp)]
        rfl
    · have hne : l.getLast? ≠ some a := by
        intro ht
        have hd := h.nodup
        rw [List.nodup_append] at hd
        exact hd.2.2 a (List.mem_of_mem_getLast? ht) a (by simp) rfl
      rw [hn a (by simp) hne, h.next_eq (l ++ c :: m) a r' (by simp)]
  prev_eq l' a r' he := by
    rcases split_erase he with ⟨m, rfl, rfl⟩ | ⟨m, rfl, rfl⟩
    · have hne : r.head? ≠ some a := by
        intro ht
        have hd := h.nodup
        rw [List.nodup_append] at hd
        exact hd.2.2 a (by simp) a (by simp [List.mem_of_mem_head? ht]) rfl
      rw [hp a (by simp) hne, h.prev_eq l' a (m ++ c :: r) (by simp)]
    · cases m with
      | nil => rw [hpr a (by simp)]; simp
      | cons b m =>
        have hne : (b :: m ++ a :: r').head? ≠ some a := by
          intro ht
          have hd := h.nodup
          simp only [List.cons_append, List.head?_cons, Option.some.injEq] at ht
          subst ht
          simp [List.nodup_append] at hd
        rw [hp a (by simp) hne, h.prev_eq (l ++ c :: b :: m) a r' (by simp)]
        simp [List.getLast?_append, List.getLast?_cons]

end DoublyLinked
