import Unsync.Base
import Mathlib.Data.List.Nodup

/-!
# The wait list as a queue

What a wait list is for: a first-in first-out queue of inputs whose entries may leave from
any position, and the outputs handed to woken waiters that have not resumed. The type `K`
names the waiting futures. `Unsync.WaitList.Refine` proves that the pointer structure of
`src/wait_list.rs` behaves as this queue; the semaphore and the cell are built on it.
-/

namespace Unsync

/-- Remove the first entry with the given key. -/
def eraseKey {K V : Type} [DecidableEq K] (k : K) (xs : List (K × V)) : List (K × V) :=
  xs.eraseP (fun p => p.1 = k)

/-- A found entry splits the list at its first occurrence, where erasing removes it. -/
theorem lookup_split {K V : Type} [DecidableEq K] {k : K} {v : V} {xs : List (K × V)}
    (h : xs.lookup k = some v) :
    ∃ l r, xs = l ++ (k, v) :: r ∧ k ∉ l.map Prod.fst ∧ eraseKey k xs = l ++ r := by
  obtain ⟨l, r, rfl, hl⟩ := List.lookup_eq_some_iff.mp h
  have hk : k ∉ l.map Prod.fst := by
    intro hm
    obtain ⟨p, hp, he⟩ := List.mem_map.mp hm
    simpa [he] using hl p hp
  refine ⟨l, r, rfl, hk, ?_⟩
  unfold eraseKey
  rw [List.eraseP_append_right]
  · simp
  · intro p hp he
    exact hk (List.mem_map.mpr ⟨p, hp, by simpa using he⟩)

/-- No entry is found exactly when the key does not occur. -/
theorem lookup_none {K V : Type} [DecidableEq K] {k : K} {xs : List (K × V)} :
    xs.lookup k = none ↔ k ∉ xs.map Prod.fst := by
  rw [List.lookup_eq_none_iff]
  simp only [List.mem_map, not_exists, not_and, bne_iff_ne, ne_eq, Prod.forall]
  constructor
  · intro h a b hm he
    exact h a b hm he.symm
  · intro h a b hm he
    exact h a b hm he.symm

/-- Erasing the key in front removes the first entry. -/
@[simp] theorem eraseKey_head {K V : Type} [DecidableEq K] (k : K) (v : V) (xs : List (K × V)) :
    eraseKey k ((k, v) :: xs) = xs := by
  simp [eraseKey]

/-- What a lookup finds is a member. -/
theorem mem_of_lookup {K V : Type} [DecidableEq K] {k : K} {v : V} {xs : List (K × V)}
    (h : xs.lookup k = some v) : (k, v) ∈ xs := by
  obtain ⟨l, r, rfl, -, -⟩ := lookup_split h
  exact List.mem_append_right _ (List.mem_cons_self)

/-- A found entry and what erasing it leaves. -/
theorem perm_eraseKey {K V : Type} [DecidableEq K] {k : K} {v : V} {xs : List (K × V)}
    (h : xs.lookup k = some v) : xs.Perm ((k, v) :: eraseKey k xs) := by
  obtain ⟨l, r, rfl, -, he⟩ := lookup_split h
  rw [he]
  exact List.perm_middle

/-- Filtering a member out of distinct ones leaves what stands around it. -/
theorem filter_split {K : Type} [DecidableEq K] {xs ys : List K} {a : K}
    (hd : (xs ++ a :: ys).Nodup) : (xs ++ a :: ys).filter (fun b => b ≠ a) = xs ++ ys := by
  rw [List.nodup_middle, List.nodup_cons] at hd
  have hx : ∀ b ∈ xs ++ ys, decide (b ≠ a) = true := by
    intro b hb
    rw [decide_eq_true_eq]
    rintro rfl
    exact hd.1 hb
  rw [List.filter_append, List.filter_cons_of_neg (by simp), ← List.filter_append]
  exact List.filter_eq_self.mpr hx

/-- Erasing a key that does not repeat filters it out. -/
theorem map_eraseKey {K V : Type} [DecidableEq K] {k : K} {v : V} {xs : List (K × V)}
    (hd : (xs.map Prod.fst).Nodup) (h : xs.lookup k = some v) :
    (eraseKey k xs).map Prod.fst = (xs.map Prod.fst).filter (fun b => b ≠ k) := by
  obtain ⟨l, r, rfl, -, he⟩ := lookup_split h
  rw [List.map_append, List.map_cons] at hd
  rw [he, List.map_append, List.map_append, List.map_cons, filter_split hd]

/-- Erasing a key that occurs takes one occurrence away. -/
theorem count_eraseKey {K V : Type} [DecidableEq K] {k : K} {v : V} {xs : List (K × V)}
    (h : xs.lookup k = some v) (a : K) :
    (xs.map Prod.fst).count a = ((eraseKey k xs).map Prod.fst).count a + [k].count a := by
  rw [((perm_eraseKey h).map Prod.fst).count_eq a, List.map_cons, List.count_cons,
    List.count_cons, List.count_nil, Nat.zero_add]

/-- What is accounted for stays so where the counts agree. -/
theorem perm_recount {α : Type} {xs ys xs' ys' : List α} (h : xs.Perm ys)
    (hc : ∀ (_ : DecidableEq α) (a : α), xs.count a = ys.count a → xs'.count a = ys'.count a) :
    xs'.Perm ys' := by
  classical
  rw [List.perm_iff_count]
  intro a
  exact hc _ a (h.count_eq a)

/-- Erasing a member takes one occurrence away. -/
theorem count_of_mem {K : Type} [DecidableEq K] {k : K} {xs : List K} (h : k ∈ xs) (a : K) :
    xs.count a = (xs.erase k).count a + [k].count a := by
  rw [(List.perm_cons_erase h).count_eq a, List.count_cons, List.count_cons, List.count_nil]
  omega

/-- Where keys do not repeat, a member is what a lookup finds. -/
theorem lookup_of_mem {K V : Type} [DecidableEq K] {k : K} {v : V} {xs : List (K × V)}
    (hd : (xs.map Prod.fst).Nodup) (h : (k, v) ∈ xs) : xs.lookup k = some v := by
  induction xs with
  | nil => cases h
  | cons p xs ih =>
    rw [List.map_cons, List.nodup_cons] at hd
    rcases List.mem_cons.mp h with rfl | hm
    · simp
    · have hne : (k == p.1) = false := by
        rw [beq_eq_false_iff_ne]
        rintro rfl
        exact hd.1 (List.mem_map.mpr ⟨_, hm, rfl⟩)
      rw [List.lookup_cons, hne]
      exact ih hd.2 hm

/-- The queue: whether it is borrowed, the parked inputs in queue order and, in wake
order, the outputs that woken waiters have not collected. -/
structure WaitQueue (K I O : Type) where
  borrowed : Bool
  parked : List (K × I)
  woken : List (K × O)
  deriving DecidableEq, Repr

namespace WaitQueue

variable {K I O : Type}

/-- An empty queue, as `WaitList::new`, `src/wait_list.rs:221–229`. -/
def empty : WaitQueue K I O := ⟨false, [], []⟩

/-- Start of a unique borrow, `src/wait_list.rs:244–270`. -/
def borrow (q : WaitQueue K I O) : Except Fault (WaitQueue K I O) :=
  if q.borrowed then .error .alreadyBorrowed else .ok { q with borrowed := true }

/-- End of a unique borrow, `src/wait_list.rs:464–469`. -/
def unborrow (q : WaitQueue K I O) : Except Fault (WaitQueue K I O) :=
  if q.borrowed then .ok { q with borrowed := false } else .error .debugAssert

/-- Whether no future is parked, `src/wait_list.rs:341–343`. -/
def isEmpty (q : WaitQueue K I O) : Bool := q.parked.isEmpty

/-- The input of the oldest parked future, `src/wait_list.rs:348–352`. -/
def headInput (q : WaitQueue K I O) : Option I := q.parked.head?.map Prod.snd

/-- Hand an output to the oldest parked future and take its input, or give the output
back, `src/wait_list.rs:426–461`. -/
def wakeOne (q : WaitQueue K I O) (output : O) : Except O I × WaitQueue K I O :=
  match q.parked with
  | [] => (.error output, q)
  | (k, i) :: rest => (.ok i, { q with parked := rest, woken := q.woken ++ [(k, output)] })

/-- First poll of `wait(input)`, `src/wait_list.rs:280–294,481–488`. -/
def park (q : WaitQueue K I O) (k : K) (input : I) : Except Fault (WaitQueue K I O) := do
  let q ← q.borrow
  { q with parked := q.parked ++ [(k, input)] }.unborrow

variable [DecidableEq K]

/-- Later poll of a wait future: its output once it was woken,
`src/wait_list.rs:494–511,296–298`. -/
def poll (q : WaitQueue K I O) (k : K) : Except Fault (Option O × WaitQueue K I O) := do
  let q ← q.borrow
  let q ← q.unborrow
  match q.woken.lookup k with
  | some o => .ok (some o, { q with woken := eraseKey k q.woken })
  | none => .ok (none, q)

/-- What a dropped wait future still owned. -/
inductive Owned (I O : Type) where
  | input (i : I)
  | output (o : O)
  deriving DecidableEq, Repr

/-- Drop of a wait future after its first poll, `src/wait_list.rs:514–528,198–208`. -/
def drop (q : WaitQueue K I O) (k : K) : Except Fault (Owned I O × WaitQueue K I O) :=
  if q.borrowed then .error .abort
  else
    match q.parked.lookup k with
    | some i => .ok (.input i, { q with parked := eraseKey k q.parked })
    | none =>
      match q.woken.lookup k with
      | some o => .ok (.output o, { q with woken := eraseKey k q.woken })
      | none => .error .dangling

/-! ### Operations on a queue that is not borrowed -/

variable {q : WaitQueue K I O}

omit [DecidableEq K] in
/-- Borrowing an idle queue succeeds. -/
theorem borrow_idle (h : q.borrowed = false) : q.borrow = .ok { q with borrowed := true } := by
  simp [borrow, h]

omit [DecidableEq K] in
/-- A queue that is idle is unchanged by a borrow that only reads. -/
theorem idle_eq (h : q.borrowed = false) : { q with borrowed := false } = q := by rw [← h]

omit [DecidableEq K] in
/-- Parking on an idle queue appends. -/
theorem park_idle (h : q.borrowed = false) (k : K) (i : I) :
    q.park k i = .ok { q with parked := q.parked ++ [(k, i)] } := by
  simp [park, borrow_idle h, unborrow, h]

/-- Polling a future that was not woken changes nothing. -/
theorem poll_idle_none (h : q.borrowed = false) {k : K} (hk : q.woken.lookup k = none) :
    q.poll k = .ok (none, q) := by
  simp [poll, borrow_idle h, unborrow, hk, idle_eq h]

/-- Polling a woken future collects its output. -/
theorem poll_idle_some (h : q.borrowed = false) {k : K} {o : O} (hk : q.woken.lookup k = some o) :
    q.poll k = .ok (some o, { q with woken := eraseKey k q.woken }) := by
  simp [poll, borrow_idle h, unborrow, hk, h]

/-- Dropping a parked future gives its input back. -/
theorem drop_idle_parked (h : q.borrowed = false) {k : K} {i : I}
    (hk : q.parked.lookup k = some i) :
    q.drop k = .ok (.input i, { q with parked := eraseKey k q.parked }) := by
  simp [drop, h, hk]

/-- Dropping a woken future gives its output back. -/
theorem drop_idle_woken (h : q.borrowed = false) {k : K} {o : O}
    (hp : q.parked.lookup k = none) (hk : q.woken.lookup k = some o) :
    q.drop k = .ok (.output o, { q with woken := eraseKey k q.woken }) := by
  simp [drop, h, hp, hk]

end WaitQueue

end Unsync
