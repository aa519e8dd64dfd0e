import Unsync.Broadcast.Runs
import Mathlib.Data.List.InsertIdx
import Mathlib.Data.List.Nodup

/-!
# Receivers and their slots

Three records tell who is alive: the handles, the counters behind them, and the entries of
the slab. A watched run numbers the calls of `subscribe` and remembers which of them made
the entry under a key and which of them returned a receiver, so that a receiver which
selects an entry that took over its key would be found out. It also counts how often the
interior is released.
-/

namespace Unsync
namespace Broadcast

open Runs

variable {T W : Type}

/-- A channel that is watched: the number of the call of `subscribe` that made the entry under
a key, the number of the call that returned each live receiver, the number of such calls,
and how often the interior was released. -/
structure Watched (T W : Type) where
  sys : Sys T W
  makers : Slab Nat
  owners : List Nat
  subscribed : Nat
  releases : Nat

namespace Watched

/-- A new channel. -/
def new (inner : Option (Inner T W)) : Watched T W := ⟨Sys.new inner, .empty, [], 0, 0⟩

/-- Number the calls of `subscribe`, and forget the number with the receiver. -/
def note (s : Watched T W) (op : Op T W) (out : Out T) : Watched T W :=
  match op, out with
  | .subscribe key, .done =>
    { s with
      makers := s.makers.insert key s.subscribed
      owners := s.owners ++ [s.subscribed]
      subscribed := s.subscribed + 1 }
  | .dropReceiver i, .done =>
    match s.sys.receivers[i]? with
    | some r => { s with makers := s.makers.remove r.index, owners := s.owners.eraseIdx i }
    | none => s
  | _, _ => s

/-- The channel after an operation. -/
def put (s : Watched T W) (sys : Sys T W) : Watched T W :=
  { s with
    sys := sys
    releases := s.releases + (s.sys.inner.isSome && sys.inner.isNone).toNat }

/-- One operation. -/
def step [Target] [Layout T] [Waker W] (s : Watched T W) (op : Op T W) :
    Except Fault (Out T × Watched T W) := do
  let (out, sys) ← s.sys.step op
  .ok (out, (s.note op out).put sys)

end Watched

/-- Whether any handle is alive. -/
def Sys.alive (s : Sys T W) : Bool := s.sender || !s.receivers.isEmpty

/-- The indices of the live receivers. -/
def Sys.indices (s : Sys T W) : List Nat := s.receivers.map Receiver.index

/-- The numbers of the receivers and of the entries that they select agree. -/
structure Owned (indices : List Nat) (s : Watched T W) : Prop where
  owner : ∀ i k : Nat, indices[i]? = some k →
    ∃ n, s.owners[i]? = some n ∧ s.makers.get? k = some n
  length : s.owners.length = indices.length
  keys : s.makers.keys.Perm indices
  nodup : s.owners.Nodup
  numbered : ∀ n ∈ s.owners, n < s.subscribed

/-- The handles, the counters and the entries of a watched channel. -/
structure Watched.Inv [Target] (made : Bool) (s : Watched T W) : Prop where
  sys : Broadcast.Inv s.sys
  owned : Owned s.sys.indices s
  created : s.sys.inner.isSome = true → made = true
  releases : s.releases = (made && !s.sys.alive).toNat

section Steps

variable {s : Watched T W} {indices : List Nat}

/-- A new receiver owns the entry that was made for it. -/
theorem Owned.subscribe (h : Owned indices s) {key : Nat} (hk : key ∉ indices) :
    Owned (indices ++ [key]) (s.note (.subscribe key) .done) := by
  have hvacant : key ∉ s.makers.keys := fun hm => hk (h.keys.subset hm)
  refine ⟨?_, ?_, ?_, ?_, ?_⟩
  · intro i k hi
    show ∃ n, (s.owners ++ [s.subscribed])[i]? = some n ∧
      (s.makers.insert key s.subscribed).get? k = some n
    rw [Slab.get?_insert]
    rcases Nat.lt_or_ge i indices.length with hlt | hge
    · rw [List.getElem?_append_left hlt] at hi
      rw [List.getElem?_append_left (by rw [h.length]; exact hlt)]
      have hne : k ≠ key := fun he => hk (he ▸ List.mem_of_getElem? hi)
      rw [if_neg hne]
      exact h.owner i k hi
    · rw [List.getElem?_append_right hge, List.getElem?_singleton] at hi
      split at hi
      · next hzero =>
        cases hi
        refine ⟨s.subscribed, ?_, if_pos rfl⟩
        rw [List.getElem?_append_right (by rw [h.length]; exact hge), h.length, hzero]
        rfl
      · cases hi
  · show (s.owners ++ [s.subscribed]).length = (indices ++ [key]).length
    rw [List.length_append, List.length_append, h.length]
    rfl
  · refine (Slab.keys_insert hvacant _).trans ?_
    exact (h.keys.cons key).trans (List.perm_append_singleton _ _).symm
  · show (s.owners ++ [s.subscribed]).Nodup
    rw [List.nodup_append]
    refine ⟨h.nodup, List.nodup_singleton _, ?_⟩
    intro n hn m hm
    have hlt := h.numbered n hn
    rw [List.mem_singleton.mp hm]
    exact Nat.ne_of_lt hlt
  · intro n hn
    show n < s.subscribed + 1
    rcases List.mem_append.mp hn with hn | hn
    · exact Nat.lt_succ_of_lt (h.numbered n hn)
    · rw [List.mem_singleton.mp hn]
      exact Nat.lt_succ_self _

/-- A dropped receiver takes its entry along, and no other one. -/
theorem Owned.dropReceiver (h : Owned s.sys.indices s) {i : Nat} {r : Receiver T W}
    (hr : s.sys.receivers[i]? = some r) :
    Owned (s.sys.indices.eraseIdx i) (s.note (.dropReceiver i) .done) := by
  have hnote : s.note (.dropReceiver i) .done =
      { s with makers := s.makers.remove r.index, owners := s.owners.eraseIdx i } := by
    simp only [Watched.note, hr]
  have hindex : s.sys.indices[i]? = some r.index := by
    rw [Sys.indices, List.getElem?_map, hr, Option.map_some]
  obtain ⟨hlt, hget⟩ := List.getElem?_eq_some_iff.mp hindex
  have hnodup : s.sys.indices.Nodup := h.keys.nodup_iff.mp (Slab.nodup_keys _)
  have hsplit := List.getElem_cons_eraseIdx_perm hlt
  rw [hget] at hsplit
  have hgone : r.index ∉ s.sys.indices.eraseIdx i :=
    (List.nodup_cons.mp (hsplit.nodup_iff.mpr hnodup)).1
  rw [hnote]
  refine ⟨?_, ?_, ?_, h.nodup.eraseIdx i, ?_⟩
  · intro j k hj
    show ∃ n, (s.owners.eraseIdx i)[j]? = some n ∧ (s.makers.remove r.index).get? k = some n
    have hne : k ≠ r.index := fun he => hgone (he ▸ List.mem_of_getElem? hj)
    rw [Slab.get?_remove, if_neg hne]
    rw [List.getElem?_eraseIdx] at hj ⊢
    by_cases hji : j < i
    · rw [if_pos hji] at hj ⊢
      exact h.owner j k hj
    · rw [if_neg hji] at hj ⊢
      exact h.owner (j + 1) k hj
  · show (s.owners.eraseIdx i).length = _
    rw [List.length_eraseIdx, List.length_eraseIdx, h.length]
  · show (s.makers.remove r.index).keys.Perm _
    refine (Slab.keys_remove _ _).trans ?_
    have herase := (h.keys.trans hsplit.symm).erase r.index
    rwa [List.erase_cons_head] at herase
  · intro n hn
    exact h.numbered n (List.mem_of_mem_eraseIdx hn)

private theorem Owned.same (h : Owned indices s) (sys : Sys T W) (n : Nat) :
    Owned indices { s with sys := sys, releases := n } :=
  ⟨h.owner, h.length, h.keys, h.nodup, h.numbered⟩

variable [Target] [Layout T] [Waker W] {made : Bool}

omit [Layout T] [Waker W] in
private theorem Inv.isNone_eq {s : Sys T W} (h : Inv s) : s.inner.isNone = !s.alive := by
  rw [Sys.alive, ← h.allocated]
  cases s.inner <;> rfl

private theorem Inv.step_released {s : Sys T W} (h : Inv s) (hb : s.inner = none) (op : Op T W) :
    s.step op = .ok (.ignored, s) := by
  have halive := h.allocated
  rw [hb, Option.isSome_none, eq_comm, Bool.or_eq_false_iff, Bool.not_eq_false',
    List.isEmpty_iff] at halive
  obtain ⟨hs, hr⟩ := halive
  have hnone : s.sending = none := by
    cases hsend : s.sending with
    | none => rfl
    | some future =>
      have hsender := h.sendAlive (by rw [hsend]; rfl)
      rw [hs] at hsender
      cases hsender
  cases op <;> simp [Sys.step, Sys.senderFree, Sys.withReceiver, hs, hr, hnone]

omit [Target] [Layout T] [Waker W] in
private theorem Watched.note_sys (s : Watched T W) (op : Op T W) (out : Out T) :
    (s.note op out).sys = s.sys ∧ (s.note op out).releases = s.releases := by
  unfold Watched.note
  split
  · exact ⟨rfl, rfl⟩
  · split
    · exact ⟨rfl, rfl⟩
    · exact ⟨rfl, rfl⟩
  · exact ⟨rfl, rfl⟩

/-- Every move keeps the numbers in agreement with the indices of the live receivers. -/
theorem Owned.move (hi : Inv s.sys) (h : Owned s.sys.indices s) {op : Op T W} {out : Out T}
    {t : Sys T W} (m : Move s.sys op out t) : Owned t.indices (s.note op out) := by
  have hsame : ∀ {x : List Nat}, x = s.sys.indices → Owned x s := by
    rintro _ rfl
    exact h
  cases m with
  | ignored => cases op <;> exact h
  | send | cancelSend | dropSender => exact h
  | @subscribe b key hb hs hk hm =>
    have hindices : ∀ r : Receiver T W, r.index = key →
        (s.sys.receivers ++ [r]).map Receiver.index = s.sys.indices ++ [key] := by
      rintro r rfl
      exact List.map_append
    show Owned ((s.sys.receivers ++ [_]).map Receiver.index) _
    rw [hindices _ rfl]
    exact h.subscribe fun hm => hk ((hi.keys b hb).subset hm)
  | trySent | tryShort => exact hsame (index_handOut _ _ _)
  | sentNone hu =>
    apply hsame
    rw [Sys.indices, Sys.indices, ← (hi.resumed hu).2.2.1]
    rfl
  | sent hu | sendPark hu =>
    apply hsame
    refine (index_handOut _ _ _).trans ?_
    rw [Sys.indices, ← (hi.resumed hu).2.2.1]
    rfl
  | recv hr | cancelRecv hr => exact hsame (index_set hr rfl)
  | received hb hr | recvEnd hb hr | recvPark hb hr => exact hsame (index_set hr rfl)
  | @dropReceiver b i r hb hr hf =>
    have ht := h.dropReceiver hr
    rw [Sys.indices, List.eraseIdx_map] at ht
    exact ht

/-- Every operation succeeds and keeps the three records in agreement. -/
theorem Watched.Inv.step (h : s.Inv made) (op : Op T W) :
    ∃ out t, s.step op = .ok (out, t) ∧ Watched.Inv made t := by
  obtain ⟨out, t, hstep, m, hi⟩ := h.sys.step op
  obtain ⟨hnote, hreleases⟩ := s.note_sys op out
  have howned := h.owned.move h.sys m
  refine ⟨out, (s.note op out).put t, ?_, hi, howned.same _ _, ?_, ?_⟩
  · simp only [Watched.step, hstep, ok_bind]
  · intro ht
    apply h.created
    cases hb : s.sys.inner with
    | some b => rfl
    | none =>
      have hstay := h.sys.step_released hb op
      rw [hstep] at hstay
      cases hstay
      have hsome : s.sys.inner.isSome = true := ht
      rw [hb] at hsome
      cases hsome
  · show (s.note op out).releases + ((s.note op out).sys.inner.isSome && t.inner.isNone).toNat =
      (made && !t.alive).toNat
    rw [hnote, hreleases, h.releases, hi.isNone_eq]
    cases hb : s.sys.inner with
    | some b =>
      have hmade := h.created (by rw [hb]; rfl)
      have halive := h.sys.isNone_eq
      rw [hb, Option.isNone_some, eq_comm, Bool.not_eq_false'] at halive
      rw [hmade, halive]
      simp
    | none =>
      have hstay := h.sys.step_released hb op
      rw [hstep] at hstay
      cases hstay
      simp

omit [Layout T] [Waker W] in
/-- Nobody subscribed to a new channel. -/
theorem Watched.Inv.new {inner : Option (Inner T W)} (hi : Broadcast.Inv (Sys.new inner)) :
    (Watched.new inner).Inv inner.isSome := by
  refine ⟨hi, ?_, fun hs => hs, ?_⟩
  · refine ⟨?_, rfl, List.Perm.refl _, List.nodup_nil, ?_⟩
    · intro i k hk
      cases hk
    · intro n hn
      cases hn
  · cases inner <;> rfl

/-- In every reachable state of a channel the handles, the counters and the entries agree. The
interior was released once if and only if the last handle was dropped, and nothing can be
done from then on. The live receivers have distinct indices, which are the occupied keys,
and each selects the entry that its own call of `subscribe` made. The counters count the
handles, tell whether there are receivers and whether there is a sender, and neither wrap
around nor overflow in the drop of a handle. -/
theorem slots_agree_with_handles (setup : Setup) (ops : List (Op T W)) :
    ∃ outs s, run Watched.step (Watched.new setup.create : Watched T W) ops = .ok (outs, s) ∧
      run Sys.step (Sys.new setup.create) ops = .ok (outs, s.sys) ∧
      s.sys.inner.isSome = s.sys.alive ∧
      s.releases = ((setup.create : Option (Inner T W)).isSome && !s.sys.alive).toNat ∧
      (s.sys.alive = false → ∀ op, s.sys.step op = .ok (.ignored, s.sys)) ∧
      s.sys.indices.Nodup ∧ s.owners.Nodup ∧
      ∀ b, s.sys.inner = some b →
        b.value.receivers.keys.Perm s.sys.indices ∧
        (∀ (i : Nat) r, s.sys.receivers[i]? = some r → ∃ n st, s.owners[i]? = some n ∧
          s.makers.get? r.index = some n ∧ b.value.receivers.get? r.index = some st) ∧
        b.weak = s.sys.receivers.length ∧ subscribers b = s.sys.receivers.length ∧
        b.strong = s.sys.sender.toNat ∧
        (b.anyWeak = true ↔ b.value.receivers.keys ≠ []) ∧
        (b.anyStrong = true ↔ s.sys.sender = true) ∧
        (s.sys.sender = true → 1 ≤ b.strong ∧ b.weak + (b.strong - 1) ≤ usizeMax) ∧
        (s.sys.receivers ≠ [] → 1 ≤ b.weak ∧ b.weak - 1 + b.strong ≤ usizeMax) := by
  obtain ⟨outs, s, hrun, h⟩ := run_invariant (fun s op (h : Watched.Inv _ s) => h.step op)
    (Watched.Inv.new (.new setup : Inv (Sys.new setup.create : Sys T W))) ops
  have hwatch : ∀ (s : Watched T W) op,
      s.sys.step op = (s.step op).map (Prod.map id Watched.sys) := by
    intro s op
    unfold Watched.step
    cases s.sys.step op <;> rfl
  have hi := h.sys
  refine ⟨outs, s, hrun, run_of_watched (f := Watched.sys) hwatch hrun, hi.allocated, h.releases,
    ?_, h.owned.keys.nodup_iff.mp (Slab.nodup_keys _), h.owned.nodup, ?_⟩
  · intro halive op
    apply hi.step_released
    rw [← Option.isNone_iff_eq_none, hi.isNone_eq, halive]
    rfl
  · intro b hb
    have hweak := hi.weak b hb
    have hstrong := hi.strong b hb
    have hlen := hi.length_le hb
    refine ⟨(hi.keys b hb).symm, ?_, hweak, hi.len_eq hb, hstrong, ?_, ?_, ?_, ?_⟩
    · intro i r hr
      obtain ⟨st, hst⟩ := hi.entry hb (List.mem_of_getElem? hr)
      obtain ⟨n, hn, hmade⟩ := h.owned.owner i r.index (by
        rw [Sys.indices, List.getElem?_map, hr, Option.map_some])
      exact ⟨n, st, hn, hmade, hst⟩
    · rw [BroadRc.anyWeak, hweak, bne_iff_ne, ← hi.len_eq hb, ← Slab.length_keys, Ne, Ne,
        List.length_eq_zero_iff]
    · rw [hi.anyStrong_iff hb]
    · intro hs
      rw [hstrong, hs, hweak]
      exact ⟨Nat.le_refl 1, hlen⟩
    · intro hr
      have hpos := List.length_pos_iff.mpr hr
      have hbit : s.sys.sender.toNat ≤ 1 := Bool.toNat_le _
      rw [hstrong, hweak]
      omega

end Steps

end Broadcast
end Unsync
