import Unsync.WaitList.Model
import Unsync.Lib.DoublyLinked

/-!
# The pointer structure represents the queue

`Rep l q` relates the wait list in memory to the queue it stands for. Each operation of
`src/wait_list.rs` is shown to succeed on a represented list, with the result of the queue
operation, and to end in a list that represents the queue's next state. In particular no
debug assertion fires, no union field is read that was not written last and no pointer to
a finished future is followed.
-/

namespace Unsync
namespace WaitList

open DoublyLinked Runs

variable {I O W : Type}

/-! ### Observing memory -/

/-- The `next` link stored at an address. -/
def nextOf (l : WaitList I O W) (a : Addr) : Option Addr := (l.memory a).bind (·.next)

/-- The `prev` link stored at an address. -/
def prevOf (l : WaitList I O W) (a : Addr) : Option Addr := (l.memory a).bind (·.prev)

/-- What a waiter holds besides its links. -/
def contents (l : WaitList I O W) (a : Addr) : Option (State I O × Option W) :=
  (l.memory a).map fun w => (w.state, w.waker)

/-- Linking and unlinking change links and end pointers only. -/
structure SameData (l l' : WaitList I O W) : Prop where
  contents : ∀ a, l'.contents a = l.contents a
  borrowed : l'.borrowed = l.borrowed
  wakes : l'.wakes = l.wakes

private theorem SameData.trans {l₁ l₂ l₃ : WaitList I O W} (h : SameData l₁ l₂)
    (h' : SameData l₂ l₃) :
    SameData l₁ l₃ :=
  ⟨fun a => (h'.contents a).trans (h.contents a), h'.borrowed.trans h.borrowed,
    h'.wakes.trans h.wakes⟩

@[simp] theorem nextOf_write (l : WaitList I O W) (a b : Addr) (w : Waiter I O W) :
    (l.write a w).nextOf b = if b = a then w.next else l.nextOf b := by
  simp only [nextOf, write, Function.update_apply]
  split <;> rfl

@[simp] theorem prevOf_write (l : WaitList I O W) (a b : Addr) (w : Waiter I O W) :
    (l.write a w).prevOf b = if b = a then w.prev else l.prevOf b := by
  simp only [prevOf, write, Function.update_apply]
  split <;> rfl

@[simp] theorem contents_write (l : WaitList I O W) (a b : Addr) (w : Waiter I O W) :
    (l.write a w).contents b = if b = a then some (w.state, w.waker) else l.contents b := by
  simp only [contents, write, Function.update_apply]
  split <;> rfl

/-- Writing a waiter back with the `next` link that it has. -/
theorem nextOf_write_same (l : WaitList I O W) (a b : Addr) (prev : Option Addr)
    (s : State I O) (k : Option W) :
    (l.write a ⟨l.nextOf a, prev, s, k⟩).nextOf b = l.nextOf b := by
  rw [nextOf_write]
  split
  · next h => rw [h]
  · rfl

/-- Writing a waiter back with the `prev` link that it has. -/
theorem prevOf_write_same (l : WaitList I O W) (a b : Addr) (next : Option Addr)
    (s : State I O) (k : Option W) :
    (l.write a ⟨next, l.prevOf a, s, k⟩).prevOf b = l.prevOf b := by
  rw [prevOf_write]
  split
  · next h => rw [h]
  · rfl

private theorem SameData.write {l : WaitList I O W} {a : Addr} {s : State I O} {k : Option W}
    (h : l.contents a = some (s, k)) (next prev : Option Addr) :
    SameData l (l.write a ⟨next, prev, s, k⟩) := by
  refine ⟨?_, rfl, rfl⟩
  intro b
  rw [contents_write]
  split
  · next hb => rw [hb, h]
  · rfl

@[simp] theorem contents_free (l : WaitList I O W) (a b : Addr) :
    (l.free a).contents b = if b = a then none else l.contents b := by
  simp only [contents, free, Function.update_apply]
  split <;> rfl

private theorem nextOf_free (l : WaitList I O W) {a b : Addr} (h : b ≠ a) :
    (l.free a).nextOf b = l.nextOf b := by
  simp [nextOf, free, h]

private theorem prevOf_free (l : WaitList I O W) {a b : Addr} (h : b ≠ a) :
    (l.free a).prevOf b = l.prevOf b := by
  simp [prevOf, free, h]

/-- A waiter in memory can be read, and is made of its observations. -/
theorem deref_ok {l : WaitList I O W} {a : Addr} {s : State I O} {k : Option W}
    (h : l.contents a = some (s, k)) :
    l.deref a = .ok ⟨l.nextOf a, l.prevOf a, s, k⟩ := by
  unfold contents at h
  unfold deref nextOf prevOf
  cases hm : l.memory a with
  | none => simp [hm] at h
  | some w =>
    simp only [hm, Option.map_some, Option.some.injEq, Prod.mk.injEq] at h
    obtain ⟨rfl, rfl⟩ := h
    rfl

private theorem assert_ok {p : Prop} [Decidable p] (h : p) : assert p = .ok () := by
  simp [assert, h]

/-! ### Linking and unlinking -/

/-- `Inner::enqueue` appends a fresh waiter, without failing its assertion. -/
theorem enqueue_spec {l : WaitList I O W} {xs : List Addr} {a : Addr}
    (hl : Linked l.nextOf l.prevOf l.head l.tail xs)
    (hm : ∀ b ∈ xs, ∃ s k, l.contents b = some (s, k)) (ha : a ∉ xs)
    (hf : ∃ s k, l.contents a = some (s, k)) (hn : l.nextOf a = none) :
    ∃ l', l.enqueue a = .ok l' ∧ Linked l'.nextOf l'.prevOf l'.head l'.tail (xs ++ [a]) ∧
      SameData l l' := by
  obtain ⟨s, k, hs⟩ := hf
  let l₁ := l.write a ⟨l.nextOf a, l.tail, s, k⟩
  have hsame : SameData l l₁ := .write hs _ _
  cases ht : l.tail with
  | none =>
    refine ⟨{ l₁ with tail := some a, head := l.head <|> some a }, ?_, ?_, ?_⟩
    · simp [enqueue, linkTail, deref_ok hs, ht, l₁, write]
    · have hx := (hl.tail_none).mp ht
      subst hx
      apply hl.append ha
      · change l₁.nextOf a = none
        simp [l₁, hn]
      · change l₁.prevOf a = l.tail
        simp [l₁]
      · intro b hb
        simp [ht] at hb
      · simp
      · simp
    · exact hsame.trans ⟨fun _ => rfl, rfl, rfl⟩
  | some p =>
    have hp : p ∈ xs := by
      rw [hl.tail_eq] at ht
      exact List.mem_of_mem_getLast? ht
    have hpa : p ≠ a := fun h => ha (h ▸ hp)
    obtain ⟨sp, kp, hcp⟩ := hm p hp
    have hc₁ : l₁.contents p = some (sp, kp) := by rw [hsame.contents, hcp]
    have hnp : l₁.nextOf p = none := by
      obtain ⟨ys, rfl⟩ : ∃ ys, xs = ys ++ [p] := by
        rw [hl.tail_eq] at ht
        exact List.getLast?_eq_some_iff.mp ht
      have hnext := hl.next_eq ys p [] rfl
      simpa [l₁, hpa] using hnext
    let l₂ := l₁.write p ⟨some a, l₁.prevOf p, sp, kp⟩
    refine ⟨{ l₂ with tail := some a, head := l.head <|> some a }, ?_, ?_, ?_⟩
    · have hlink : l₁.linkTail a = .ok l₂ := by
        have ht₁ : l₁.tail = some p := ht
        simp only [linkTail, ht₁, deref_ok hc₁, ok_bind, assert_ok hnp, l₂]
      simp only [l₁] at hlink
      simp only [enqueue, deref_ok hs, ok_bind, hlink]
      rfl
    · apply hl.append ha
      · change l₂.nextOf a = none
        simp [l₂, l₁, hpa.symm, hn]
      · change l₂.prevOf a = l.tail
        simp [l₂, l₁, hpa.symm]
      · intro b hb
        rw [ht, Option.some.injEq] at hb
        subst hb
        change l₂.nextOf p = some a
        simp [l₂]
      · intro b hb hne
        have hbp : b ≠ p := fun h => hne (by rw [h, ht])
        have hba : b ≠ a := fun h => ha (h ▸ hb)
        change l₂.nextOf b = l.nextOf b
        simp [l₂, l₁, hbp, hba]
      · intro b hb
        have hba : b ≠ a := fun h => ha (h ▸ hb)
        change l₂.prevOf b = l.prevOf b
        rw [prevOf_write_same, prevOf_write, if_neg hba]
    · have hback : SameData l₁ l₂ := .write hc₁ _ _
      exact hsame.trans ⟨hback.contents, rfl, rfl⟩

private theorem unlinkNext_spec {l : WaitList I O W} {xs ys : List Addr} {c : Addr}
    (hl : Linked l.nextOf l.prevOf l.head l.tail (xs ++ c :: ys))
    (hm : ∀ b ∈ xs ++ c :: ys, ∃ s k, l.contents b = some (s, k)) :
    ∃ l', l.unlinkNext c ys.head? xs.getLast? = .ok l' ∧ SameData l l' ∧
      l'.head = (if xs = [] then ys.head? else l.head) ∧ l'.tail = l.tail ∧
      (∀ a, l'.nextOf a = if xs.getLast? = some a then ys.head? else l.nextOf a) ∧
      ∀ a, l'.prevOf a = l.prevOf a := by
  cases hx : xs.getLast? with
  | none =>
    rw [List.getLast?_eq_none_iff] at hx
    subst hx
    have hh : l.head = some c := hl.head_eq
    refine ⟨{ l with head := ys.head? }, ?_, ⟨fun _ => rfl, rfl, rfl⟩, ?_, rfl, ?_, fun _ => rfl⟩
    · simp only [unlinkNext, assert_ok hh]
      rfl
    · simp
    · intro a
      simp [nextOf]
  | some p =>
    obtain ⟨zs, rfl⟩ := List.getLast?_eq_some_iff.mp hx
    obtain ⟨s, k, hs⟩ := hm p (by simp)
    have hn : l.nextOf p = some c := hl.next_eq zs p (c :: ys) (by simp)
    refine ⟨l.write p ⟨ys.head?, l.prevOf p, s, k⟩, ?_, .write hs _ _, by simp [write], rfl, ?_,
      fun a => prevOf_write_same l p a _ s k⟩
    · simp only [unlinkNext, deref_ok hs, ok_bind, assert_ok hn]
    · intro a
      simp only [nextOf_write, Option.some.injEq, eq_comm]

private theorem unlinkPrev_spec {l : WaitList I O W} {ys : List Addr} {c : Addr}
    (htail : ys = [] → l.tail = some c) (hprev : ∀ b, ys.head? = some b → l.prevOf b = some c)
    (hm : ∀ b ∈ ys, ∃ s k, l.contents b = some (s, k)) (xs : List Addr) :
    ∃ l', l.unlinkPrev c ys.head? xs.getLast? = .ok l' ∧ SameData l l' ∧
      l'.tail = (if ys = [] then xs.getLast? else l.tail) ∧ l'.head = l.head ∧
      (∀ a, l'.prevOf a = if ys.head? = some a then xs.getLast? else l.prevOf a) ∧
      ∀ a, l'.nextOf a = l.nextOf a := by
  cases ys with
  | nil =>
    refine ⟨{ l with tail := xs.getLast? }, ?_, ⟨fun _ => rfl, rfl, rfl⟩, by simp, rfl, ?_,
      fun _ => rfl⟩
    · simp only [List.head?_nil, unlinkPrev, assert_ok (htail rfl)]
      rfl
    · intro a
      simp [prevOf]
  | cons n ys =>
    obtain ⟨s, k, hs⟩ := hm n (by simp)
    have hn := hprev n rfl
    refine ⟨l.write n ⟨l.nextOf n, xs.getLast?, s, k⟩, ?_, .write hs _ _, by simp [write], rfl, ?_,
      fun a => nextOf_write_same l n a _ s k⟩
    · simp only [List.head?_cons, unlinkPrev, deref_ok hs, ok_bind, assert_ok hn]
    · intro a
      simp only [prevOf_write, List.head?_cons, Option.some.injEq, eq_comm]

/-- `Inner::dequeue` unlinks a waiter from any position, without failing its assertions. -/
theorem dequeue_spec {l : WaitList I O W} {xs ys : List Addr} {c : Addr}
    (hl : Linked l.nextOf l.prevOf l.head l.tail (xs ++ c :: ys))
    (hm : ∀ b ∈ xs ++ c :: ys, ∃ s k, l.contents b = some (s, k)) :
    ∃ l', l.dequeue c = .ok l' ∧ Linked l'.nextOf l'.prevOf l'.head l'.tail (xs ++ ys) ∧
      SameData l l' := by
  obtain ⟨s, k, hs⟩ := hm c (by simp)
  obtain ⟨l₁, h₁, hd₁, hhead₁, htail₁, hnext₁, hprev₁⟩ := unlinkNext_spec hl hm
  have htail : ys = [] → l₁.tail = some c := by
    rintro rfl
    rw [htail₁, hl.tail_eq]
    simp
  have hprev : ∀ b, ys.head? = some b → l₁.prevOf b = some c := by
    intro b hb
    obtain ⟨zs, rfl⟩ := List.head?_eq_some_iff.mp hb
    rw [hprev₁, hl.prev_eq (xs ++ [c]) b zs (by simp)]
    simp
  have hm₁ : ∀ b ∈ ys, ∃ s k, l₁.contents b = some (s, k) := by
    intro b hb
    rw [hd₁.contents]
    exact hm b (by simp [hb])
  obtain ⟨l₂, h₂, hd₂, htail₂, hhead₂, hprev₂, hnext₂⟩ :=
    unlinkPrev_spec htail hprev hm₁ xs
  refine ⟨l₂, ?_, ?_, hd₁.trans hd₂⟩
  · rw [hl.next_eq xs c ys rfl |>.symm, hl.prev_eq xs c ys rfl |>.symm] at h₁
    rw [hl.next_eq xs c ys rfl |>.symm, hl.prev_eq xs c ys rfl |>.symm] at h₂
    simp only [dequeue, deref_ok hs, ok_bind, h₁, h₂]
  · apply hl.remove
    · rw [hhead₂, hhead₁]
    · rw [htail₂, htail₁]
    · intro a ha
      rw [hnext₂, hnext₁, if_pos ha]
    · intro a ha
      rw [hprev₂, if_pos ha]
    · intro a _ hne
      rw [hnext₂, hnext₁, if_neg hne]
    · intro a _ hne
      rw [hprev₂, if_neg hne, hprev₁]

/-! ### The representation relation -/

/-- The wait list in memory stands for the queue: linked waiters are the parked ones, in
order and each with its input and a waker; the other waiters in memory are the woken ones,
each with its output and no waker. -/
structure Rep (l : WaitList I O W) (q : WaitQueue Addr I O) : Prop where
  borrowed : l.borrowed = q.borrowed
  linked : Linked l.nextOf l.prevOf l.head l.tail (q.parked.map Prod.fst)
  nodup : (q.parked.map Prod.fst ++ q.woken.map Prod.fst).Nodup
  parked : ∀ a i, (a, i) ∈ q.parked → ∃ w, l.contents a = some (.input i, some w)
  woken : ∀ a o, (a, o) ∈ q.woken → l.contents a = some (.output o, none)
  owned : ∀ a, l.contents a ≠ none → a ∈ q.parked.map Prod.fst ∨ a ∈ q.woken.map Prod.fst

/-- A new wait list is the empty queue. -/
theorem Rep.new : Rep (WaitList.new : WaitList I O W) WaitQueue.empty where
  borrowed := rfl
  linked := Linked.nil
  nodup := List.nodup_nil
  parked := by simp [WaitQueue.empty]
  woken := by simp [WaitQueue.empty]
  owned := by simp [contents, WaitList.new]

variable {l : WaitList I O W} {q : WaitQueue Addr I O}

private theorem Rep.in_memory (h : Rep l q) :
    ∀ b ∈ q.parked.map Prod.fst, ∃ s k, l.contents b = some (s, k) := by
  intro b hb
  obtain ⟨⟨b, i⟩, hi, rfl⟩ := List.mem_map.mp hb
  obtain ⟨w, hw⟩ := h.parked b i hi
  exact ⟨_, _, hw⟩

/-- An address outside memory is in neither list. -/
theorem Rep.fresh (h : Rep l q) {a : Addr} (ha : l.contents a = none) :
    a ∉ q.parked.map Prod.fst ∧ a ∉ q.woken.map Prod.fst := by
  constructor
  · intro hp
    obtain ⟨s, k, hs⟩ := h.in_memory a hp
    rw [ha] at hs
    cases hs
  · intro hw
    obtain ⟨⟨a, o⟩, ho, rfl⟩ := List.mem_map.mp hw
    rw [h.woken a o ho] at ha
    cases ha

private theorem Rep.disjoint (h : Rep l q) {a : Addr} (hp : a ∈ q.parked.map Prod.fst) :
    a ∉ q.woken.map Prod.fst := by
  intro hw
  exact (List.nodup_append.mp h.nodup).2.2 a hp a hw rfl

/-- Changing only whether the list is borrowed changes only that of the queue. -/
theorem Rep.withBorrowed (h : Rep l q) (b : Bool) :
    Rep { l with borrowed := b } { q with borrowed := b } :=
  ⟨rfl, h.linked, h.nodup, h.parked, h.woken, h.owned⟩

/-- The waker of a parked waiter may be replaced. -/
theorem Rep.setWaker (h : Rep l q) {a : Addr} {i : I} (ha : (a, i) ∈ q.parked) (cx : W) :
    Rep (l.write a ⟨l.nextOf a, l.prevOf a, .input i, some cx⟩) q where
  borrowed := h.borrowed
  linked := h.linked.congr (fun b _ => nextOf_write_same l a b _ _ _)
    fun b _ => prevOf_write_same l a b _ _ _
  nodup := h.nodup
  parked b j hb := by
    rw [contents_write]
    split
    · next he =>
      subst he
      have hd := (List.nodup_append.mp h.nodup).1
      have hij := (lookup_of_mem hd ha).symm.trans (lookup_of_mem hd hb)
      rw [Option.some.inj hij]
      exact ⟨cx, rfl⟩
    · exact h.parked b j hb
  woken b o hb := by
    have hne : b ≠ a := by
      rintro rfl
      exact h.disjoint (List.mem_map.mpr ⟨_, ha, rfl⟩) (List.mem_map.mpr ⟨_, hb, rfl⟩)
    rw [contents_write, if_neg hne]
    exact h.woken b o hb
  owned b hb := by
    rw [contents_write] at hb
    split at hb
    · next he => exact Or.inl (List.mem_map.mpr ⟨_, ha, he.symm⟩)
    · exact h.owned b hb

/-- A woken waiter may be freed once its output was taken. -/
theorem Rep.freeWoken (h : Rep l q) {xs ys : List (Addr × O)} {a : Addr} {o : O}
    (hq : q.woken = xs ++ (a, o) :: ys) : Rep (l.free a) { q with woken := xs ++ ys } where
  borrowed := h.borrowed
  linked := by
    have hd : ∀ b ∈ q.parked.map Prod.fst, b ≠ a := by
      rintro b hb rfl
      exact h.disjoint hb (by simp [hq])
    exact h.linked.congr (fun b hb => nextOf_free l (hd b hb)) fun b hb => prevOf_free l (hd b hb)
  nodup := by
    have hd := h.nodup
    rw [hq] at hd
    refine hd.sublist (List.Sublist.append_left ?_ _)
    simp
  parked b i hb := by
    have hne : b ≠ a := by
      rintro rfl
      exact h.disjoint (List.mem_map.mpr ⟨_, hb, rfl⟩) (by simp [hq])
    rw [contents_free, if_neg hne]
    exact h.parked b i hb
  woken b p hb := by
    have hne : b ≠ a := by
      rintro rfl
      have hd := (List.nodup_append.mp h.nodup).2.1
      rw [hq, List.map_append, List.map_cons, List.nodup_middle, List.nodup_cons] at hd
      exact hd.1 (by rw [← List.map_append]; exact List.mem_map.mpr ⟨_, hb, rfl⟩)
    rw [contents_free, if_neg hne]
    refine h.woken b p ?_
    rw [hq]
    rcases List.mem_append.mp hb with hb | hb
    · simp [hb]
    · simp [hb]
  owned b hb := by
    rw [contents_free] at hb
    split at hb
    · exact absurd rfl hb
    · next hne =>
      rcases h.owned b hb with hp | hw
      · exact Or.inl hp
      · rw [hq] at hw
        simp only [List.map_append, List.map_cons, List.mem_append, List.mem_cons, hne,
          false_or] at hw
        exact Or.inr (by simpa using hw)

/-- An unlinked waiter may be freed: it was the parked waiter `a`. -/
theorem Rep.freeParked (h : Rep l q) {l' : WaitList I O W} {xs ys : List (Addr × I)} {a : Addr}
    {i : I} (hq : q.parked = xs ++ (a, i) :: ys) (hd : SameData l l')
    (hl : Linked l'.nextOf l'.prevOf l'.head l'.tail (xs.map Prod.fst ++ ys.map Prod.fst)) :
    Rep (l'.free a) { q with parked := xs ++ ys } := by
  have hnd := h.nodup
  rw [hq, List.map_append, List.map_cons, List.append_assoc, List.cons_append,
    List.nodup_middle, List.nodup_cons] at hnd
  obtain ⟨ha, hnd⟩ := hnd
  have hne : ∀ b ∈ xs.map Prod.fst ++ ys.map Prod.fst, b ≠ a := by
    rintro b hb rfl
    apply ha
    rw [← List.append_assoc]
    exact List.mem_append_left _ hb
  refine ⟨hd.borrowed.trans h.borrowed, ?_, ?_, ?_, ?_, ?_⟩
  · rw [List.map_append]
    exact hl.congr (fun b hb => nextOf_free l' (hne b hb)) fun b hb => prevOf_free l' (hne b hb)
  · simpa using hnd
  · intro b j hb
    have hb' : b ≠ a := hne b (by rw [← List.map_append]; exact List.mem_map.mpr ⟨_, hb, rfl⟩)
    rw [contents_free, if_neg hb', hd.contents]
    refine h.parked b j ?_
    rw [hq]
    rcases List.mem_append.mp hb with hb | hb
    · simp [hb]
    · simp [hb]
  · intro b o hb
    have hb' : b ≠ a := by
      rintro rfl
      exact ha (by simp [List.mem_map.mpr ⟨(b, o), hb, rfl⟩])
    rw [contents_free, if_neg hb', hd.contents]
    exact h.woken b o hb
  · intro b hb
    rw [contents_free] at hb
    split at hb
    · exact absurd rfl hb
    · next hb' =>
      rw [hd.contents] at hb
      rcases h.owned b hb with hp | hw
      · rw [hq] at hp
        simp only [List.map_append, List.map_cons, List.mem_append, List.mem_cons, hb',
          false_or] at hp
        exact Or.inl (by simpa using hp)
      · exact Or.inr hw

/-! ### Operations -/

/-- A computation on the wait list and one on the queue fault alike, or return the same
value and related states. -/
def Refines {α : Type} (x : Except Fault (α × WaitList I O W))
    (y : Except Fault (α × WaitQueue Addr I O)) : Prop :=
  match x, y with
  | .ok (a, l), .ok (b, q) => a = b ∧ Rep l q
  | .error e, .error e' => e = e'
  | _, _ => False

/-- What a list computation does when the queue operation succeeds. -/
theorem Refines.ok {α : Type} {x : Except Fault (α × WaitList I O W)} {a : α}
    {q : WaitQueue Addr I O} (h : Refines x (.ok (a, q))) : ∃ l, x = .ok (a, l) ∧ Rep l q := by
  cases x with
  | error e => exact False.elim h
  | ok p =>
    obtain ⟨b, l⟩ := p
    obtain ⟨rfl, hrep⟩ := h
    exact ⟨l, rfl, hrep⟩

/-- `is_empty` reads the head pointer, which is null exactly on the empty queue. -/
theorem isEmpty_refines (h : Rep l q) : l.isEmpty = q.isEmpty := by
  unfold isEmpty WaitQueue.isEmpty
  rw [h.linked.head_eq]
  cases q.parked <;> rfl

/-- `head_input` reads the input of the oldest parked waiter. -/
theorem headInput_refines (h : Rep l q) : l.headInput = .ok q.headInput := by
  unfold headInput WaitQueue.headInput
  rw [h.linked.head_eq]
  cases hq : q.parked with
  | nil => rfl
  | cons p rest =>
    obtain ⟨a, i⟩ := p
    obtain ⟨w, hw⟩ := h.parked a i (by simp [hq])
    simp [deref_ok hw, takeInput]

/-- All waiters but one have what they had. -/
def Elsewhere (l l' : WaitList I O W) (a : Addr) : Prop :=
  ∀ b, b ≠ a → l'.contents b = l.contents b

/-- Up to its call of `wake`, `wake_one` has unlinked the oldest parked waiter, stored the
output there and taken its waker. -/
theorem takeHead_spec (h : Rep l q) {a : Addr} {i : I} {rest : List (Addr × I)}
    (hq : q.parked = (a, i) :: rest) (output : O) :
    ∃ w l', l.contents a = some (.input i, some w) ∧
      l.takeHead output = .ok (.ok (i, w), l') ∧
      Rep l' { q with parked := rest, woken := q.woken ++ [(a, output)] } ∧
      Elsewhere l l' a ∧ l'.wakes = l.wakes := by
  obtain ⟨w, hw⟩ := h.parked a i (by simp [hq])
  have hh : l.head = some a := by rw [h.linked.head_eq, hq]; rfl
  have hnd := h.nodup
  rw [hq, List.map_cons, List.cons_append, List.nodup_cons] at hnd
  obtain ⟨ha, hnd⟩ := hnd
  let l₁ := l.write a ⟨l.nextOf a, l.prevOf a, .output output, none⟩
  have hl₁ : Linked l₁.nextOf l₁.prevOf l₁.head l₁.tail ([] ++ a :: rest.map Prod.fst) := by
    have hl := h.linked
    rw [hq] at hl
    exact hl.congr (fun b _ => nextOf_write_same l a b _ _ _)
      fun b _ => prevOf_write_same l a b _ _ _
  have hm₁ : ∀ b ∈ [] ++ a :: rest.map Prod.fst, ∃ s k, l₁.contents b = some (s, k) := by
    intro b hb
    simp only [l₁, contents_write]
    split
    · exact ⟨_, _, rfl⟩
    · exact h.in_memory b (by rw [hq]; exact hb)
  obtain ⟨l₂, h₂, hl₂, hd₂⟩ := dequeue_spec hl₁ hm₁
  have hc : ∀ b, l₂.contents b = if b = a then some (.output output, none) else l.contents b := by
    intro b
    rw [hd₂.contents]
    exact contents_write l a b _
  have hne : ∀ b ∈ rest.map Prod.fst ++ q.woken.map Prod.fst, b ≠ a := by
    rintro b hb rfl
    exact ha hb
  simp only [l₁] at h₂
  refine ⟨w, l₂, hw, ?_, ?_, fun b hb => (hc b).trans (if_neg hb), hd₂.wakes⟩
  · simp only [takeHead, hh, deref_ok hw, ok_bind, takeInput, h₂]
  refine ⟨hd₂.borrowed.trans h.borrowed, hl₂, ?_, ?_, ?_, ?_⟩
  · rw [List.map_append, List.map_cons, List.map_nil, ← List.append_assoc,
      List.nodup_append_comm, List.singleton_append, List.nodup_cons]
    exact ⟨ha, hnd⟩
  · intro b j hb
    have hb' := hne b (List.mem_append_left _ (List.mem_map.mpr ⟨_, hb, rfl⟩))
    rw [hc, if_neg hb']
    exact h.parked b j (by simp [hq, hb])
  · intro b o hb
    rw [hc]
    rcases List.mem_append.mp hb with hb | hb
    · have hb' := hne b (List.mem_append_right _ (List.mem_map.mpr ⟨_, hb, rfl⟩))
      rw [if_neg hb']
      exact h.woken b o hb
    · simp only [List.mem_singleton, Prod.mk.injEq] at hb
      simp [hb.1, hb.2]
  · intro b hb
    rw [hc] at hb
    split at hb
    · next he => exact Or.inr (by simp [he])
    · next he =>
      rcases h.owned b hb with hp | hw
      · rw [hq, List.map_cons, List.mem_cons] at hp
        exact Or.inl (hp.resolve_left he)
      · exact Or.inr (by simp only [List.map_append, List.mem_append]; exact Or.inl hw)

/-- Recording a wake-up leaves the list alone. -/
theorem Rep.wake (h : Rep l q) (w : W) : Rep (l.wake w) q :=
  ⟨h.borrowed, h.linked, h.nodup, h.parked, h.woken, h.owned⟩

/-- `wake_one` wakes the oldest parked waiter. -/
theorem wakeOne_refines (h : Rep l q) (output : O) :
    Refines (l.wakeOne output) (.ok (q.wakeOne output)) := by
  cases hq : q.parked with
  | nil =>
    have hh : l.head = none := by rw [h.linked.head_none, hq]; rfl
    simp only [wakeOne, hh, WaitQueue.wakeOne, hq, Refines]
    exact ⟨trivial, h⟩
  | cons p rest =>
    obtain ⟨a, i⟩ := p
    obtain ⟨w, l', -, hl, hrep, -⟩ := takeHead_spec h hq output
    simp only [wakeOne_eq, hl, ok_bind, WaitQueue.wakeOne, hq, Refines]
    exact ⟨trivial, hrep.wake w⟩

private theorem dropInner_woken (h : Rep l q) (hb : q.borrowed = false) {a : Addr} {o : O}
    (ha : (a, o) ∈ q.woken) : l.dropInner a = .ok l := by
  have hlb : l.borrowed = false := h.borrowed.trans hb
  have hw : ({ l with borrowed := true } : WaitList I O W).contents a = some (.output o, none) :=
    h.woken a o ha
  have hl : ({ l with borrowed := false } : WaitList I O W) = l := by rw [← hlb]
  simp [dropInner, hlb, deref_ok hw, unborrow, hl]

/-- Dropping a woken `wait` returns its output. -/
theorem waitDrop_woken (h : Rep l q) (hb : q.borrowed = false) {a : Addr} {o : O}
    (hw : q.woken.lookup a = some o) :
    ∃ l', l.waitDrop a = .ok (.output o, l') ∧ Rep l' { q with woken := eraseKey a q.woken } ∧
      Elsewhere l l' a ∧ l'.contents a = none ∧ l'.wakes = l.wakes := by
  obtain ⟨xs, ys, hq, -, he⟩ := lookup_split hw
  have hm : (a, o) ∈ q.woken := by simp [hq]
  refine ⟨l.free a, ?_, ?_, fun b hne => (contents_free l a b).trans (if_neg hne),
    (contents_free l a a).trans (if_pos rfl), rfl⟩
  · simp only [waitDrop, dropInner_woken h hb hm, ok_bind, dropWaiter, deref_ok (h.woken a o hm),
      takeOutput, Option.isSome_none, Bool.false_eq_true, if_false]
  · have hrep := h.freeWoken hq
    rwa [← he] at hrep

/-- Dropping a parked `wait` dequeues its waiter and returns its input. -/
theorem waitDrop_parked (h : Rep l q) (hb : q.borrowed = false) {a : Addr} {i : I}
    (hp : q.parked.lookup a = some i) :
    ∃ l', l.waitDrop a = .ok (.input i, l') ∧ Rep l' { q with parked := eraseKey a q.parked } ∧
      Elsewhere l l' a ∧ l'.contents a = none ∧ l'.wakes = l.wakes := by
  have hlb : l.borrowed = false := h.borrowed.trans hb
  obtain ⟨xs, ys, hq, -, he⟩ := lookup_split hp
  obtain ⟨w, hw⟩ := h.parked a i (by simp [hq])
  let l₁ : WaitList I O W := { l with borrowed := true }
  have hw₁ : l₁.contents a = some (.input i, some w) := hw
  have hl₁ : Linked l₁.nextOf l₁.prevOf l₁.head l₁.tail
      (xs.map Prod.fst ++ a :: ys.map Prod.fst) := by
    have hl := h.linked
    rw [hq, List.map_append, List.map_cons] at hl
    exact hl
  have hm₁ : ∀ b ∈ xs.map Prod.fst ++ a :: ys.map Prod.fst,
      ∃ s k, l₁.contents b = some (s, k) := by
    intro b hb'
    exact h.in_memory b (by rw [hq, List.map_append, List.map_cons]; exact hb')
  obtain ⟨l₂, h₂, hl₂, hd₂⟩ := dequeue_spec hl₁ hm₁
  have hun : l₂.unborrow = .ok { l₂ with borrowed := false } := by
    have hlb : l₂.borrowed = true := hd₂.borrowed
    simp [unborrow, hlb]
  have hw₂ : ({ l₂ with borrowed := false } : WaitList I O W).contents a =
      some (.input i, some w) := (hd₂.contents a).trans hw
  have hinner : l.dropInner a = .ok { l₂ with borrowed := false } := by
    have hd : ({ l with borrowed := true } : WaitList I O W).deref a = _ := deref_ok hw₁
    simp only [dropInner, hlb, hd, ok_bind, Bool.false_eq_true, if_false, Option.isSome_some,
      if_true]
    rw [show ({ l with borrowed := true } : WaitList I O W).dequeue a = _ from h₂]
    simp [hun]
  have hfree : ∀ b, (({ l₂ with borrowed := false } : WaitList I O W).free a).contents b =
      if b = a then none else l.contents b := by
    intro b
    rw [contents_free]
    split
    · rfl
    · exact hd₂.contents b
  refine ⟨({ l₂ with borrowed := false } : WaitList I O W).free a, ?_, ?_,
    fun b hne => (hfree b).trans (if_neg hne), (hfree a).trans (if_pos rfl), hd₂.wakes⟩
  · simp only [waitDrop, hinner, ok_bind, dropWaiter, deref_ok hw₂, takeInput, Option.isSome_some,
      if_true]
  · have hsame : SameData l { l₂ with borrowed := false } :=
      ⟨fun b => hd₂.contents b, hlb.symm, hd₂.wakes⟩
    have hrep := h.freeParked hq hsame hl₂
    rwa [← he] at hrep

/-- Dropping a polled `wait` returns what its waiter owned, wherever it stands. -/
theorem waitDrop_refines (h : Rep l q) {a : Addr}
    (ha : a ∈ q.parked.map Prod.fst ∨ a ∈ q.woken.map Prod.fst) :
    Refines (l.waitDrop a) (q.drop a) := by
  cases hb : q.borrowed with
  | true =>
    have hlb : l.borrowed = true := h.borrowed.trans hb
    simp [waitDrop, dropInner, hlb, WaitQueue.drop, hb, Refines]
  | false =>
    cases hp : q.parked.lookup a with
    | none =>
      have hwa := ha.resolve_left (lookup_none.mp hp)
      obtain ⟨⟨a, o⟩, hm, rfl⟩ := List.mem_map.mp hwa
      have hw := lookup_of_mem (List.nodup_append.mp h.nodup).2.1 hm
      obtain ⟨l', hl, hrep, -⟩ := waitDrop_woken h hb hw
      rw [hl, WaitQueue.drop_idle_woken hb hp hw]
      exact ⟨rfl, hrep⟩
    | some i =>
      obtain ⟨l', hl, hrep, -⟩ := waitDrop_parked h hb hp
      rw [hl, WaitQueue.drop_idle_parked hb hp]
      exact ⟨rfl, hrep⟩

variable [Waker W]

/-- A poll of a parked waiter leaves it parked, with a waker for the polling task. -/
theorem pollInner_parked (h : Rep l q) (hb : q.borrowed = false) {a : Addr} {i : I}
    (ha : (a, i) ∈ q.parked) (cx : W) :
    ∃ l', l.pollInner a cx = .ok (false, l') ∧ Rep l' q ∧ l'.wakes = l.wakes ∧
      Elsewhere l l' a ∧
      ∃ w, l'.contents a = some (.input i, some w) ∧ Waker.task w = Waker.task cx := by
  obtain ⟨w, hw⟩ := h.parked a i ha
  have hlb : l.borrowed = false := h.borrowed.trans hb
  have hq : { q with borrowed := false } = q := by rw [← hb]
  have hw' : ({ l with borrowed := true } : WaitList I O W).contents a =
      some (.input i, some w) := hw
  have hbor : l.borrow = .ok { l with borrowed := true } := by simp [borrow, hlb]
  simp only [pollInner, hbor, ok_bind, deref_ok hw']
  by_cases hs : Waker.willWake w cx = true
  · refine ⟨{ l with borrowed := false }, ?_, ?_, rfl, fun b _ => rfl, w, hw, Waker.task_eq hs⟩
    · simp [hs, unborrow]
    · rw [← hq]
      exact h.withBorrowed false
  · refine ⟨{ l.write a ⟨l.nextOf a, l.prevOf a, .input i, some cx⟩ with borrowed := false },
      ?_, ?_, rfl, ?_, cx, ?_, rfl⟩
    · simp only [hs, unborrow]
      rfl
    · rw [← hq]
      exact (h.setWaker ha cx).withBorrowed false
    · intro b hne
      exact (contents_write l a b _).trans (if_neg hne)
    · change (l.write a _).contents a = _
      simp

/-- A poll of a woken waiter is ready and changes nothing. -/
theorem pollInner_woken (h : Rep l q) (hb : q.borrowed = false) {a : Addr} {o : O}
    (ha : (a, o) ∈ q.woken) (cx : W) : l.pollInner a cx = .ok (true, l) := by
  have hlb : l.borrowed = false := h.borrowed.trans hb
  have hw : ({ l with borrowed := true } : WaitList I O W).contents a = some (.output o, none) :=
    h.woken a o ha
  have hl : ({ l with borrowed := false } : WaitList I O W) = l := by rw [← hlb]
  have hbor : l.borrow = .ok { l with borrowed := true } := by simp [borrow, hlb]
  simp only [pollInner, hbor, ok_bind, deref_ok hw, unborrow, if_true, hl]

/-- The first poll of `wait` parks its waiter at the end of the queue, with a waker for the
polling task. -/
theorem waitFirst_spec (h : Rep l q) (hb : q.borrowed = false) {a : Addr}
    (ha : l.contents a = none) (i : I) (cx : W) :
    ∃ l', l.waitFirst a i cx = .ok (none, l') ∧
      Rep l' { q with parked := q.parked ++ [(a, i)] } ∧ Elsewhere l l' a ∧
      l'.wakes = l.wakes ∧
      ∃ w, l'.contents a = some (.input i, some w) ∧ Waker.task w = Waker.task cx := by
  let l₁ : WaitList I O W := { l.write a ⟨none, none, .input i, some cx⟩ with borrowed := true }
  obtain ⟨hp, hw⟩ := h.fresh ha
  have hne : ∀ b ∈ q.parked.map Prod.fst, b ≠ a := fun b hb he => hp (he ▸ hb)
  have hc : ∀ b, l₁.contents b = if b = a then some (.input i, some cx) else l.contents b :=
    fun b => contents_write l a b _
  have hl₁ : Linked l₁.nextOf l₁.prevOf l₁.head l₁.tail (q.parked.map Prod.fst) := by
    apply h.linked.congr
    · intro b hb'
      exact (nextOf_write l a b _).trans (if_neg (hne b hb'))
    · intro b hb'
      exact (prevOf_write l a b _).trans (if_neg (hne b hb'))
  have hm₁ : ∀ b ∈ q.parked.map Prod.fst, ∃ s k, l₁.contents b = some (s, k) := by
    intro b hb'
    rw [hc, if_neg (hne b hb')]
    exact h.in_memory b hb'
  have hn₁ : l₁.nextOf a = none := (nextOf_write l a a _).trans (if_pos rfl)
  obtain ⟨l₂, h₂, hl₂, hd₂⟩ := enqueue_spec hl₁ hm₁ hp ⟨_, _, by rw [hc, if_pos rfl]⟩ hn₁
  have hc₂ : ∀ b, l₂.contents b = if b = a then some (.input i, some cx) else l.contents b :=
    fun b => (hd₂.contents b).trans (hc b)
  have hrep : Rep { l₂ with borrowed := false } { q with parked := q.parked ++ [(a, i)] } := by
    refine ⟨hb.symm, by rw [List.map_append]; exact hl₂, ?_, ?_, ?_, ?_⟩
    · have hd := h.nodup
      simp only [List.map_append, List.map_cons, List.map_nil, List.append_assoc,
        List.singleton_append, List.nodup_middle, List.nodup_cons]
      exact ⟨by simpa using ⟨by simpa using hp, by simpa using hw⟩, hd⟩
    · intro b j hb'
      change ∃ w, l₂.contents b = _
      rw [hc₂]
      rcases List.mem_append.mp hb' with hb' | hb'
      · rw [if_neg (hne b (List.mem_map.mpr ⟨_, hb', rfl⟩))]
        exact h.parked b j hb'
      · simp only [List.mem_singleton, Prod.mk.injEq] at hb'
        exact ⟨cx, by simp [hb'.1, hb'.2]⟩
    · intro b o hb'
      have hba : b ≠ a := by
        rintro rfl
        exact hw (List.mem_map.mpr ⟨_, hb', rfl⟩)
      change l₂.contents b = _
      rw [hc₂, if_neg hba]
      exact h.woken b o hb'
    · intro b hb'
      change l₂.contents b ≠ none at hb'
      rw [hc₂] at hb'
      split at hb'
      · next he => exact Or.inl (by simp [he])
      · rcases h.owned b hb' with hp' | hw'
        · exact Or.inl (by simp only [List.map_append, List.mem_append]; exact Or.inl hp')
        · exact Or.inr hw'
  obtain ⟨l₃, h₃, hrep₃, hwakes₃, helse₃, w, hw₃, htask⟩ :=
    pollInner_parked hrep hb (a := a) (i := i) (by simp) cx
  have hbor : (l.write a ⟨none, none, .input i, some cx⟩).borrow = .ok l₁ := by
    have hlb : (l.write a ⟨none, none, .input i, some cx⟩).borrowed = false :=
      h.borrowed.trans hb
    simp [borrow, hlb, l₁]
  have hun : l₂.unborrow = .ok { l₂ with borrowed := false } := by
    have hlb : l₂.borrowed = true := hd₂.borrowed
    simp [unborrow, hlb]
  refine ⟨l₃, ?_, hrep₃, ?_, hwakes₃.trans hd₂.wakes, w, hw₃, htask⟩
  · simp only [waitFirst, waitAgain, hbor, ok_bind, h₂, hun, h₃]
    rfl
  · intro b hba
    exact (helse₃ b hba).trans ((hc₂ b).trans (if_neg hba))

/-- The first poll of `wait` refines parking. -/
theorem waitFirst_refines (h : Rep l q) {a : Addr} (ha : l.contents a = none) (i : I) (cx : W) :
    Refines (l.waitFirst a i cx) ((q.park a i).map fun q' => (none, q')) := by
  cases hb : q.borrowed with
  | true =>
    have hlb : (l.write a ⟨none, none, .input i, some cx⟩).borrowed = true := h.borrowed.trans hb
    simp [waitFirst, borrow, hlb, WaitQueue.park, WaitQueue.borrow, hb, Refines, Except.map]
  | false =>
    obtain ⟨l', hl, hrep, -⟩ := waitFirst_spec h hb ha i cx
    rw [hl, WaitQueue.park_idle hb]
    exact ⟨rfl, hrep⟩

/-- A later poll of `wait` finishes a woken waiter with its output. -/
theorem waitAgain_woken (h : Rep l q) (hb : q.borrowed = false) {a : Addr} {o : O}
    (hw : q.woken.lookup a = some o) (cx : W) :
    ∃ l', l.waitAgain a cx = .ok (some o, l') ∧
      Rep l' { q with woken := eraseKey a q.woken } ∧
      Elsewhere l l' a ∧ l'.contents a = none ∧ l'.wakes = l.wakes := by
  obtain ⟨xs, ys, hq, -, he⟩ := lookup_split hw
  have hm : (a, o) ∈ q.woken := by simp [hq]
  refine ⟨l.free a, ?_, ?_, fun b hne => (contents_free l a b).trans (if_neg hne),
    (contents_free l a a).trans (if_pos rfl), rfl⟩
  · simp only [waitAgain, pollInner_woken h hb hm cx, ok_bind, if_true, dropInner_woken h hb hm,
      deref_ok (h.woken a o hm), takeOutput, assert, Option.isNone_none]
  · have hrep := h.freeWoken hq
    rwa [← he] at hrep

/-- A later poll of `wait` leaves a parked waiter parked, with a waker for the polling task. -/
theorem waitAgain_parked (h : Rep l q) (hb : q.borrowed = false) {a : Addr} {i : I}
    (ha : (a, i) ∈ q.parked) (cx : W) :
    ∃ l', l.waitAgain a cx = .ok (none, l') ∧ Rep l' q ∧ Elsewhere l l' a ∧
      l'.wakes = l.wakes ∧
      ∃ w, l'.contents a = some (.input i, some w) ∧ Waker.task w = Waker.task cx := by
  obtain ⟨l', hl, hrep, hwakes, helse, hw⟩ := pollInner_parked h hb ha cx
  refine ⟨l', ?_, hrep, helse, hwakes, hw⟩
  simp only [waitAgain, hl, ok_bind]
  rfl

/-- A later poll of `wait` returns the output of a woken waiter and finishes it. -/
theorem waitAgain_refines (h : Rep l q) {a : Addr}
    (ha : a ∈ q.parked.map Prod.fst ∨ a ∈ q.woken.map Prod.fst) (cx : W) :
    Refines (l.waitAgain a cx) (q.poll a) := by
  cases hb : q.borrowed with
  | true =>
    have hlb : l.borrowed = true := h.borrowed.trans hb
    simp [waitAgain, pollInner, borrow, hlb, WaitQueue.poll, WaitQueue.borrow, hb, Refines]
  | false =>
    cases hw : q.woken.lookup a with
    | none =>
      have hp := ha.resolve_right (lookup_none.mp hw)
      obtain ⟨⟨a, i⟩, hi, rfl⟩ := List.mem_map.mp hp
      obtain ⟨l', hl, hrep, -⟩ := waitAgain_parked h hb hi cx
      rw [hl, WaitQueue.poll_idle_none hb hw]
      exact ⟨rfl, hrep⟩
    | some o =>
      obtain ⟨l', hl, hrep, -⟩ := waitAgain_woken h hb hw cx
      rw [hl, WaitQueue.poll_idle_some hb hw]
      exact ⟨rfl, hrep⟩

end WaitList
end Unsync
