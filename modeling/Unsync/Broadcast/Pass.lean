import Unsync.Broadcast.Runs

/-!
# Passes over the receivers

What the loops of `try_send` and of `Send::poll` do to every receiver, what they count, and
how the message id grows with every message.
-/

namespace Unsync
namespace Broadcast

variable {T W : Type}

/-- Message ids count the messages until they wrap around. -/
theorem bumpMessageId_toNat {inner : Shared T W} (h : inner.id.toNat + 1 < 2 ^ 64) :
    (bumpMessageId inner).id.toNat = inner.id.toNat + 1 := by
  have hadd : (inner.id + 1).toNat = inner.id.toNat + 1 := by
    rw [UInt64.toNat_add]
    exact Nat.mod_eq_of_lt h
  have hne : ¬(inner.id + 1 == 0) = true := by
    rw [beq_iff_eq, ← UInt64.toNat_inj, hadd]
    exact Nat.succ_ne_zero _
  simp only [bumpMessageId, if_neg hne, hadd]

/-- A receiver that has room for a message. -/
def ReceiverState.room (r : ReceiverState T W) : Bool := !r.atCapacity

/-- A receiver that gets the message with the given id from a poll of its `Send`. -/
def ReceiverState.gets (id : UInt64) (r : ReceiverState T W) : Bool := r.id != id && r.room

/-- A loop over the receivers that counts some of them, and appends the message to the
buffers of some and wakes these. -/
structure Pass (slab : Slab (ReceiverState T W)) (counts pushes : ReceiverState T W → Bool)
    (change : ReceiverState T W → ReceiverState T W)
    (pass : Delivery W × Slab (ReceiverState T W)) : Prop where
  delivered : pass.1.delivered = slab.entries.countP fun e => counts e.2
  pushed : pass.1.pushed = (slab.entries.filter fun e => pushes e.2).map Prod.fst
  woken : pass.1.woken =
    (slab.entries.filter fun e => pushes e.2).flatMap fun e => e.2.waker.toList
  slab : pass.2 = slab.map fun _ r => change r

/-- A loop whose body treats every receiver on its own. -/
theorem pass_of_body {slab : Slab (ReceiverState T W)}
    {body : Delivery W → Nat → ReceiverState T W → Delivery W × ReceiverState T W}
    {counts pushes : ReceiverState T W → Bool} {change : ReceiverState T W → ReceiverState T W}
    (h : ∀ d k r, body d k r = (⟨d.delivered + (counts r).toNat,
      d.woken ++ (if pushes r then r.waker.toList else []),
      d.pushed ++ (if pushes r then [k] else [])⟩, change r)) :
    Pass slab counts pushes change (slab.forEach body .start) := by
  have hfold : ∀ (es : List (Nat × ReceiverState T W)) (d : Delivery W),
      es.foldl (fun d e => ⟨d.delivered + (counts e.2).toNat,
        d.woken ++ (if pushes e.2 then e.2.waker.toList else []),
        d.pushed ++ (if pushes e.2 then [e.1] else [])⟩) d =
      ⟨d.delivered + es.countP (fun e => counts e.2),
        d.woken ++ (es.filter fun e => pushes e.2).flatMap (fun e => e.2.waker.toList),
        d.pushed ++ (es.filter fun e => pushes e.2).map Prod.fst⟩ := by
    intro es
    induction es with
    | nil => intro d; simp
    | cons e es ih =>
      intro d
      rw [List.foldl_cons, ih]
      cases hc : counts e.2 <;> cases hp : pushes e.2 <;> simp [hc, hp] <;> omega
  have hpass := Slab.forEach_eq (s := slab) h .start
  rw [hfold slab.entries .start] at hpass
  rw [hpass]
  exact ⟨Nat.zero_add _, List.nil_append _, List.nil_append _, rfl⟩

/-- `try_send` appends the message wherever there is room, and counts these. -/
theorem tryPass_pass (b : Inner T W) (v : T) :
    Pass b.value.receivers ReceiverState.room ReceiverState.room
      (fun r => if r.room then { r with buf := r.buf.pushBack v } else r) (tryPass b v) := by
  apply pass_of_body
  intro d k r
  unfold ReceiverState.tryDeliver ReceiverState.room
  cases r.atCapacity <;> simp

/-- A poll of `Send` appends the message wherever it is missing and there is room, and counts
all receivers that have it then. -/
theorem sendPass_pass (b : Inner T W) (v : T) :
    Pass b.value.receivers (fun r => r.id == b.value.id || r.room)
      (ReceiverState.gets b.value.id)
      (fun r => if r.gets b.value.id then
        { r with buf := r.buf.pushBack v, id := b.value.id } else r) (sendPass b v) := by
  apply pass_of_body
  intro d k r
  unfold ReceiverState.deliver ReceiverState.gets ReceiverState.room
  by_cases hid : r.id = b.value.id
  · simp [hid]
  · have hne : (r.id == b.value.id) = false := beq_eq_false_iff_ne.mpr hid
    cases r.atCapacity <;> simp [hne, hid]

/-- Counting entries is counting receivers. -/
theorem Inv.countP_entries [Target] {s : Sys T W} (hi : Inv s) {b : Inner T W}
    (hb : s.inner = some b) (p : ReceiverState T W → Bool) :
    b.value.receivers.entries.countP (fun e => p e.2) =
      s.receivers.countP fun r => (b.value.receivers.get? r.index).any p := by
  rw [Slab.countP_entries, ← (hi.keys b hb).countP_eq, List.countP_map]
  rfl

section Entries

variable {slab : Slab (ReceiverState T W)} {counts pushes : ReceiverState T W → Bool}
  {change : ReceiverState T W → ReceiverState T W} {pass : Delivery W × Slab (ReceiverState T W)}

/-- An entry after the loop is the changed entry. -/
theorem Pass.get? (h : Pass slab counts pushes change pass) (k : Nat) :
    pass.2.get? k = (slab.get? k).map change := by
  rw [h.slab, Slab.get?_map]

/-- A receiver gets the message once or not at all. -/
theorem Pass.count (h : Pass slab counts pushes change pass) {k : Nat} {st : ReceiverState T W}
    (hst : slab.get? k = some st) : pass.1.pushed.count k = (pushes st).toNat := by
  rw [h.pushed, Slab.count_selected, hst]
  rfl

/-- When the loop counted as many receivers as there are, it counted each of them. -/
theorem Pass.counts_all (h : Pass slab counts pushes change pass)
    (hall : pass.1.delivered = slab.len) {k : Nat} {st : ReceiverState T W}
    (hst : slab.get? k = some st) : counts st = true := by
  rw [h.delivered] at hall
  exact List.countP_eq_length.mp hall _ (Slab.get?_eq_some.mp hst)

/-- The loop counted fewer receivers than there are when it did not count one of them. -/
theorem Pass.short_iff [Target] (h : Pass slab counts pushes change pass) {s : Sys T W}
    (hi : Inv s) {b : Inner T W} (hb : s.inner = some b) (hs : slab = b.value.receivers) :
    pass.1.delivered ≠ s.receivers.length ↔ ∃ r ∈ s.receivers, ∃ st,
      b.value.receivers.get? r.index = some st ∧ counts st = false := by
  rw [h.delivered, hs, hi.countP_entries hb, Ne, List.countP_eq_length]
  constructor
  · intro hno
    simp only [not_forall] at hno
    obtain ⟨r, hr, hany⟩ := hno
    obtain ⟨st, hst⟩ := hi.entry hb hr
    rw [hst, Option.any_some, Bool.not_eq_true] at hany
    exact ⟨r, hr, st, hst, hany⟩
  · rintro ⟨r, hr, st, hst, hno⟩ hall
    have hany := hall r hr
    rw [hst, Option.any_some, hno] at hany
    cases hany

end Entries

end Broadcast
end Unsync
