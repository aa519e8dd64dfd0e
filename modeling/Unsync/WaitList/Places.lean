import Mathlib.Logic.Embedding.Basic
import Unsync.Lib.Simulation
import Unsync.WaitList.Refine

/-!
# Waiters at the places of their futures

The semaphore and the cell name their futures by calls, the intrusive list by the addresses
of their waiters. With a place for the waiter of each call, the operations of the list follow
those of a queue of calls.
-/

namespace Unsync

open Runs

namespace WaitQueue

variable {K A I O : Type}

/-- The queue under other names. -/
def mapKeys (f : K → A) (q : WaitQueue K I O) : WaitQueue A I O :=
  ⟨q.borrowed, q.parked.map (Prod.map f id), q.woken.map (Prod.map f id)⟩

/-- Whether the future is in the queue, parked or woken. -/
def Holds (q : WaitQueue K I O) (k : K) : Prop :=
  k ∈ q.parked.map Prod.fst ∨ k ∈ q.woken.map Prod.fst

variable (f : K ↪ A)

private theorem map_fst_mapKeys {V : Type} (xs : List (K × V)) :
    (xs.map (Prod.map f id)).map Prod.fst = (xs.map Prod.fst).map f := by
  rw [List.map_map, List.map_map]
  rfl

private theorem holds_mapKeys (q : WaitQueue K I O) (k : K) :
    (q.mapKeys f).Holds (f k) ↔ q.Holds k := by
  simp only [Holds, mapKeys, map_fst_mapKeys, List.mem_map_of_injective f.injective]

private theorem wakeOne_mapKeys (q : WaitQueue K I O) (output : O) :
    (q.mapKeys f).wakeOne output =
      ((q.wakeOne output).1, (q.wakeOne output).2.mapKeys f) := by
  unfold wakeOne
  cases hq : q.parked <;> simp [mapKeys, hq]

private theorem headInput_mapKeys (q : WaitQueue K I O) :
    (q.mapKeys f).headInput = q.headInput := by
  unfold headInput
  cases hq : q.parked <;> simp [mapKeys, hq]

private theorem park_mapKeys (q : WaitQueue K I O) (k : K) (i : I) :
    (q.mapKeys f).park (f k) i = (q.park k i).map (mapKeys f) := by
  cases hb : q.borrowed with
  | true => simp [park, borrow, mapKeys, hb, Except.map]
  | false =>
    have hb' : (q.mapKeys f).borrowed = false := hb
    rw [park_idle hb, park_idle hb']
    simp [mapKeys, Except.map]

variable [DecidableEq K] [DecidableEq A]

private theorem lookup_mapKeys {V : Type} (k : K) (xs : List (K × V)) :
    (xs.map (Prod.map f id)).lookup (f k) = xs.lookup k := by
  induction xs with
  | nil => rfl
  | cons p xs ih =>
    have hb : (f k == f p.1) = (k == p.1) := by
      rw [Bool.eq_iff_iff, beq_iff_eq, beq_iff_eq, f.injective.eq_iff]
    rw [List.map_cons, List.lookup_cons, List.lookup_cons, ih]
    simp only [Prod.map_fst, Prod.map_snd, hb, id_eq]

private theorem eraseKey_mapKeys {V : Type} (k : K) (xs : List (K × V)) :
    eraseKey (f k) (xs.map (Prod.map f id)) = (eraseKey k xs).map (Prod.map f id) := by
  unfold eraseKey
  rw [List.eraseP_map]
  congr 2
  ext p
  simp [f.injective.eq_iff]

private theorem poll_mapKeys (q : WaitQueue K I O) (k : K) :
    (q.mapKeys f).poll (f k) = (q.poll k).map fun p => (p.1, p.2.mapKeys f) := by
  have hl : (q.mapKeys f).woken.lookup (f k) = q.woken.lookup k := lookup_mapKeys f k _
  cases hb : q.borrowed with
  | true => simp [poll, borrow, mapKeys, hb, Except.map]
  | false =>
    have hb' : (q.mapKeys f).borrowed = false := hb
    cases hw : q.woken.lookup k with
    | none => rw [poll_idle_none hb hw, poll_idle_none hb' (hl.trans hw)]; rfl
    | some o =>
      rw [poll_idle_some hb hw, poll_idle_some hb' (hl.trans hw)]
      simp [mapKeys, Except.map, eraseKey_mapKeys]

private theorem drop_mapKeys (q : WaitQueue K I O) (k : K) :
    (q.mapKeys f).drop (f k) = (q.drop k).map fun p => (p.1, p.2.mapKeys f) := by
  have hl : (q.mapKeys f).woken.lookup (f k) = q.woken.lookup k := lookup_mapKeys f k _
  have hp : (q.mapKeys f).parked.lookup (f k) = q.parked.lookup k := lookup_mapKeys f k _
  unfold drop
  rw [hl, hp]
  cases hb : q.borrowed with
  | true => simp [mapKeys, hb, Except.map]
  | false =>
    cases q.parked.lookup k with
    | some i => simp [mapKeys, hb, Except.map, eraseKey_mapKeys]
    | none =>
      cases q.woken.lookup k with
      | some o => simp [mapKeys, hb, Except.map, eraseKey_mapKeys]
      | none => simp [mapKeys, hb, Except.map]

end WaitQueue

namespace WaitList

variable {K I O W : Type}

private theorem Refines.follows {α : Type} {place : K ↪ Addr}
    {x : Except Fault (α × WaitList I O W)} {y : Except Fault (α × WaitQueue K I O)}
    (h : Refines x (y.map fun p => (p.1, p.2.mapKeys place))) :
    Follows (Agree fun l q => Rep l (q.mapKeys place)) x y := by
  rintro ⟨a, q⟩ rfl
  obtain ⟨l, rfl, hrep⟩ := h.ok
  exact ⟨(a, l), rfl, rfl, hrep⟩

/-- The list in memory stands for a queue of calls, of which at most the given number are
parked. -/
structure Placed (place : K ↪ Addr) (n : Nat) (l : WaitList I O W) (q : WaitQueue K I O) :
    Prop where
  rep : Rep l (q.mapKeys place)
  few : q.parked.length ≤ n

/-- A new list is empty. -/
theorem Placed.new (place : K ↪ Addr) :
    Placed place 0 (WaitList.new : WaitList I O W) WaitQueue.empty :=
  ⟨Rep.new, Nat.le_refl _⟩

variable {place : K ↪ Addr} {n : Nat} {l : WaitList I O W} {q : WaitQueue K I O}

/-- A bound on the parked calls may be exceeded further. -/
theorem Placed.grow (h : Placed place n l q) : Placed place (n + 1) l q :=
  ⟨h.rep, Nat.le_succ_of_le h.few⟩

/-- The calls in the queue are those whose waiters are in memory. -/
theorem Placed.inMemory (h : Placed place n l q) (k : K) :
    (l.memory (place k)).isSome ↔ q.Holds k := by
  have hc : (l.memory (place k)).isSome ↔ l.contents (place k) ≠ none := by
    simp [contents, Option.isSome_iff_ne_none]
  rw [hc, ← WaitQueue.holds_mapKeys place]
  constructor
  · exact h.rep.owned (place k)
  · intro hk hn
    obtain ⟨hp, hw⟩ := h.rep.fresh hn
    exact hk.elim hp hw

private theorem Placed.distinct (h : Placed place n l q) :
    (q.parked.map Prod.fst ++ q.woken.map Prod.fst).Nodup := by
  have hd := h.rep.nodup
  simp only [WaitQueue.mapKeys, WaitQueue.map_fst_mapKeys] at hd
  rw [← List.map_append] at hd
  exact hd.of_map _

/-- Borrowing follows the queue. -/
theorem Placed.borrow (h : Placed place n l q) : Follows (Placed place n) l.borrow q.borrow := by
  intro q' hq
  unfold WaitQueue.borrow at hq
  split at hq
  · cases hq
  · next hb =>
    cases hq
    have hlb : l.borrowed ≠ true := fun hl => hb (h.rep.borrowed.symm.trans hl)
    exact ⟨{ l with borrowed := true }, by rw [WaitList.borrow, if_neg hlb],
      h.rep.withBorrowed true, h.few⟩

/-- The end of a borrow follows the queue. -/
theorem Placed.unborrow (h : Placed place n l q) :
    Follows (Placed place n) l.unborrow q.unborrow := by
  intro q' hq
  unfold WaitQueue.unborrow at hq
  split at hq
  · next hb =>
    cases hq
    have hlb : l.borrowed = true := h.rep.borrowed.trans hb
    exact ⟨{ l with borrowed := false }, by rw [WaitList.unborrow, if_pos hlb],
      h.rep.withBorrowed false, h.few⟩
  · cases hq

/-- The head pointer is null exactly on an empty queue. -/
theorem Placed.isEmpty (h : Placed place n l q) : l.isEmpty = q.isEmpty := by
  rw [isEmpty_refines h.rep]
  exact List.isEmpty_map

/-- The input of the oldest waiter is that of the oldest parked call. -/
theorem Placed.headInput (h : Placed place n l q) : l.headInput = .ok q.headInput := by
  rw [headInput_refines h.rep, WaitQueue.headInput_mapKeys]

/-- `wake_one` follows the queue. -/
theorem Placed.wakeOne (h : Placed place n l q) (output : O) :
    ∃ l', l.wakeOne output = .ok ((q.wakeOne output).1, l') ∧
      Placed place n l' (q.wakeOne output).2 := by
  have hr := wakeOne_refines h.rep output
  rw [WaitQueue.wakeOne_mapKeys] at hr
  obtain ⟨l', hl, hrep⟩ := hr.ok
  refine ⟨l', hl, hrep, Nat.le_trans ?_ h.few⟩
  unfold WaitQueue.wakeOne
  cases hq : q.parked with
  | nil => simp [hq]
  | cons p rest => simp

section Poll

variable [Waker W]

/-- The first poll of `wait` is pending and follows parking. -/
theorem Placed.waitFirst (h : Placed place n l q) {k : K} (hk : ¬ q.Holds k) (i : I) (cx : W) :
    Follows (fun p q' => p.1 = none ∧ Placed place (n + 1) p.2 q')
      (l.waitFirst (place k) i cx) (q.park k i) := by
  have hfree : l.contents (place k) = none := by
    have hn := mt (h.inMemory k).mp hk
    simpa [contents] using hn
  have hr := waitFirst_refines h.rep hfree i cx
  intro q' hq
  rw [WaitQueue.park_mapKeys, hq] at hr
  obtain ⟨l', hl, hrep⟩ := hr.ok
  refine ⟨_, hl, rfl, hrep, ?_⟩
  unfold WaitQueue.park WaitQueue.borrow at hq
  split at hq
  · cases hq
  · cases hq
    simpa using h.few

variable [DecidableEq K]

/-- A later poll of `wait` follows the queue, and takes a woken call out of it. -/
theorem Placed.waitAgain (h : Placed place n l q) {k : K} (hk : q.Holds k) (cx : W) :
    Follows (fun p r => Agree (Placed place n) p r ∧ (r.1 ≠ none → ¬ r.2.Holds k))
      (l.waitAgain (place k) cx) (q.poll k) := by
  have hr := waitAgain_refines h.rep ((WaitQueue.holds_mapKeys place q k).mpr hk) cx
  rw [WaitQueue.poll_mapKeys] at hr
  rintro ⟨r, q'⟩ hq
  obtain ⟨⟨a, l'⟩, hl, rfl, hrep⟩ := hr.follows _ hq
  have hd := h.distinct
  unfold WaitQueue.poll WaitQueue.borrow at hq
  split at hq
  · cases hq
  · next hb =>
    simp only [ok_bind, WaitQueue.unborrow, if_true] at hq
    split at hq
    · next o hw =>
      cases hq
      refine ⟨_, hl, ⟨rfl, hrep, h.few⟩, ?_⟩
      intro _ hold
      obtain ⟨xs, ys, hs, hx, he⟩ := lookup_split hw
      have hwoken : q.woken = xs ++ (k, o) :: ys := hs
      rw [hwoken, List.map_append, List.map_cons, ← List.append_assoc, List.nodup_middle,
        List.nodup_cons, List.append_assoc, ← List.map_append, ← he] at hd
      exact hd.1 (List.mem_append.mpr hold)
    · cases hq
      exact ⟨_, hl, ⟨rfl, hrep, h.few⟩, fun hn => absurd rfl hn⟩

end Poll

/-- The drop of a polled `wait` follows the queue. -/
theorem Placed.waitDrop [DecidableEq K] (h : Placed place n l q) {k : K} (hk : q.Holds k) :
    Follows (Agree (Placed place n)) (l.waitDrop (place k)) (q.drop k) := by
  have hr := waitDrop_refines h.rep ((WaitQueue.holds_mapKeys place q k).mpr hk)
  rw [WaitQueue.drop_mapKeys] at hr
  rintro ⟨r, q'⟩ hq
  obtain ⟨⟨a, l'⟩, hl, rfl, hrep⟩ := hr.follows _ hq
  refine ⟨_, hl, rfl, hrep, ?_⟩
  have hf := h.few
  unfold WaitQueue.drop at hq
  split at hq
  · cases hq
  · split at hq
    · cases hq
      exact Nat.le_trans (List.length_eraseP_le) hf
    · split at hq
      · cases hq
        exact hf
      · cases hq

end WaitList
end Unsync
