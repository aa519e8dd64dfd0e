import Unsync.Spsc.Runs

/-!
# Lossless first-in, first-out delivery

What was received, followed by what is buffered, is what was accepted. Values that were not
accepted are handed back, and the end of the channel comes after all values.
-/

namespace Unsync
namespace Spsc

open Runs

variable {T W : Type}

/-- The channel delivers in order, and every value that it did not accept went back. -/
structure Fifo (s : Sys T W) : Prop where
  order : ∀ b, s.inner = some b → s.received ++ b.value.buf.items = accepted s.settled
  delivered : s.received <+: accepted s.settled
  refused : ∀ v e, (v, Fate.refused e) ∈ s.settled → e.value = v
  disconnected : ∀ v e, (v, Fate.disconnected e) ∈ s.settled → e.value = v ∧ s.receiver = false
  ended : s.ended = true → s.sender = false ∧ s.received = accepted s.settled

/-- An accepted value comes last. -/
theorem accepted_settle (settled : List (T × Fate T)) (v : T) :
    accepted (settled ++ [(v, .accepted)]) = accepted settled ++ [v] := by
  simp [accepted]

/-- A value that was not accepted does not count. -/
theorem accepted_other (settled : List (T × Fate T)) (v : T) {fate : Fate T}
    (h : fate ≠ .accepted) : accepted (settled ++ [(v, fate)]) = accepted settled := by
  cases fate with
  | accepted => exact absurd rfl h
  | _ => simp [accepted]

section Settle

variable {s : Sys T W}

private theorem mem_settle {settled : List (T × Fate T)} {v v' : T} {fate fate' : Fate T}
    (h : (v', fate') ∈ settled ++ [(v, fate)]) : (v', fate') ∈ settled ∨ v' = v ∧ fate' = fate := by
  rcases List.mem_append.mp h with h | h
  · exact Or.inl h
  · exact Or.inr (Prod.mk.inj (List.mem_singleton.mp h))

private theorem Fifo.order_keep (h : Fifo s) {b b' : Inner T W} (hb : s.inner = some b)
    (hv : b'.value.buf.items = b.value.buf.items) :
    ∀ c, some b' = some c → s.received ++ c.value.buf.items = accepted s.settled := by
  rintro _ ⟨⟩
  rw [hv]
  exact h.order b hb

/-- The sender puts a value into the channel. -/
theorem Fifo.accept (h : Fifo s) (hs : s.sender = true) {b b' : Inner T W} {v : T}
    (hb : s.inner = some b) (hv : b'.value.buf.items = b.value.buf.items ++ [v]) (woken : List W) :
    Fifo ((s.put (some b') woken).settle v .accepted) := by
  have ho := h.order b hb
  refine ⟨?_, ?_, ?_, ?_, ?_⟩
  · rintro _ ⟨⟩
    rw [hv, ← List.append_assoc]
    simp only [Sys.put, Sys.settle, accepted_settle, ho]
  · simp only [Sys.put, Sys.settle, accepted_settle]
    exact h.delivered.trans (List.prefix_append _ _)
  · intro v' e hm
    rcases mem_settle hm with hm | ⟨-, he⟩
    · exact h.refused v' e hm
    · cases he
  · intro v' e hm
    rcases mem_settle hm with hm | ⟨-, he⟩
    · exact h.disconnected v' e hm
    · cases he
  · intro he
    have hgone := (h.ended he).1
    rw [hs] at hgone
    cases hgone

private theorem Fifo.reject (h : Fifo s) {v : T} {fate : Fate T} (hf : fate ≠ .accepted)
    (hr : ∀ e, fate = .refused e → e.value = v)
    (hd : ∀ e, fate = .disconnected e → e.value = v ∧ s.receiver = false) :
    Fifo (s.settle v fate) := by
  have hacc := accepted_other s.settled v hf
  refine ⟨?_, ?_, ?_, ?_, ?_⟩
  · intro b hb
    exact (h.order b hb).trans hacc.symm
  · simp only [Sys.settle, hacc]
    exact h.delivered
  · intro v' e hm
    rcases mem_settle hm with hm | ⟨rfl, he⟩
    · exact h.refused v' e hm
    · exact hr e he.symm
  · intro v' e hm
    rcases mem_settle hm with hm | ⟨rfl, he⟩
    · exact h.disconnected v' e hm
    · exact hd e he.symm
  · intro he
    simp only [Sys.settle, hacc]
    exact h.ended he

end Settle

section Steps

variable [Waker W] {s : Sys T W}

/-- Every move delivers in order. -/
theorem Fifo.move (hi : Inv s) (h : Fifo s) {op : Op T W} {out : Out T} {t : Sys T W}
    (m : Move s op out t) : Fifo t := by
  cases m with
  | ignored => exact h
  | trySent hb hs hr hc => exact h.accept (senderFree_iff.mp hs).1 hb rfl _
  | tryRefused hb hs hc =>
    refine h.reject (fun hf => by cases hf) ?_ (fun e he => by cases he)
    rintro _ ⟨⟩
    rfl
  | send | recv | cancelRecv =>
    exact ⟨h.order, h.delivered, h.refused, h.disconnected, h.ended⟩
  | @sent b v w hb hs hr hc =>
    have hv : ({ b with value := b.value.pushBack v } : Inner T W).value.buf.items =
        b.value.buf.items ++ [v] := rfl
    have ht := h.accept (hi.sendAlive _ hs).1 hb hv b.value.rx.toList
    exact ⟨ht.order, ht.delivered, ht.refused, ht.disconnected, ht.ended⟩
  | sendPark hb hs hr hc =>
    exact ⟨h.order_keep hb rfl, h.delivered, h.refused, h.disconnected, h.ended⟩
  | @sendFail b v w hb hs hr =>
    have hput : Fifo { s with inner := some { b with value := { b.value with tx := none } } } :=
      ⟨h.order_keep hb rfl, h.delivered, h.refused, h.disconnected, h.ended⟩
    have ht := hput.reject (v := v) (fun hf : Fate.disconnected ⟨v⟩ = .accepted => by cases hf)
      (fun e he => by cases he) (by rintro _ ⟨⟩; exact ⟨rfl, hr⟩)
    exact ⟨ht.order, ht.delivered, ht.refused, ht.disconnected, ht.ended⟩
  | @cancelSend v hs =>
    have ht := h.reject (v := v) (fun hf : Fate.cancelled = .accepted => by cases hf)
      (fun e he => by cases he) (fun e he => by cases he)
    exact ⟨ht.order, ht.delivered, ht.refused, ht.disconnected, ht.ended⟩
  | @received b v buf w hb hr hv =>
    obtain ⟨hitems, -⟩ := VecDeque.popFront_eq_some hv
    have ho := h.order b hb
    rw [hitems, List.append_cons] at ho
    refine ⟨?_, ⟨buf.items, ho⟩, h.refused, h.disconnected, ?_⟩
    · rintro _ ⟨⟩
      exact ho
    · intro he
      obtain ⟨-, hall⟩ := h.ended he
      rw [← h.order b hb, hitems] at hall
      simp at hall
  | @recvEnd b w hb hr hv hs =>
    have ho := h.order b hb
    rw [hv, List.append_nil] at ho
    exact ⟨h.order_keep hb rfl, h.delivered, h.refused, h.disconnected, fun _ => ⟨hs, ho⟩⟩
  | recvPark hb hr hv hs =>
    exact ⟨h.order_keep hb rfl, h.delivered, h.refused, h.disconnected, h.ended⟩
  | @dropSender b hb hs =>
    refine ⟨?_, h.delivered, h.refused, h.disconnected, fun he => ⟨rfl, (h.ended he).2⟩⟩
    intro b' hb'
    simp only [Sys.put] at hb'
    split at hb'
    · rw [← Option.some.inj hb']
      exact h.order b hb
    · cases hb'
  | @dropReceiver b hb hr =>
    refine ⟨?_, h.delivered, h.refused, fun v e hm => ⟨(h.disconnected v e hm).1, rfl⟩, h.ended⟩
    intro b' hb'
    simp only [Sys.put] at hb'
    split at hb'
    · rw [← Option.some.inj hb']
      exact h.order b hb
    · cases hb'

omit [Waker W] in
/-- Nothing was sent through a new channel. -/
theorem Fifo.new [Target] [Layout T] (setup : Setup) :
    Fifo (Sys.new (setup.create : Option (Inner T W))) := by
  refine ⟨?_, List.prefix_refl _, fun v e hm => (List.not_mem_nil hm).elim,
    fun v e hm => (List.not_mem_nil hm).elim, fun he => by cases he⟩
  intro b hb
  rw [(Setup.create_eq hb).2]
  rfl

/-- In every reachable state of a channel, what was received followed by what is buffered is
what was accepted, in order. A value that `try_send` or `send` did not accept is the one
inside the error, `send` fails only without a receiver, and once `recv` resolved to `None`
the sender is gone, everything was received, and every later `recv` resolves to `None`. -/
theorem channel_is_lossless_fifo [Target] [Layout T] (setup : Setup) (ops : List (Op T W)) :
    ∃ outs s, run Sys.step (Sys.new setup.create : Sys T W) ops = .ok (outs, s) ∧
      (∀ b, s.inner = some b → s.received ++ b.value.buf.items = accepted s.settled) ∧
      s.received <+: accepted s.settled ∧
      (∀ v e, (v, Fate.refused e) ∈ s.settled → e.value = v) ∧
      (∀ v e, (v, Fate.disconnected e) ∈ s.settled → e.value = v ∧ s.receiver = false) ∧
      (s.ended = true → s.sender = false ∧ s.received = accepted s.settled ∧
        ∀ w, s.receiving = true → ∃ t, s.step (.pollRecv w) = .ok (.received none, t)) := by
  obtain ⟨outs, s, hr, hi, h⟩ := run_keeps (P := Fifo)
    (fun s op out t hi h m => h.move hi m) (Inv.new setup) (Fifo.new setup) ops
  refine ⟨outs, s, hr, h.order, h.delivered, h.refused, h.disconnected, fun he => ?_⟩
  obtain ⟨hs, hall⟩ := h.ended he
  refine ⟨hs, hall, fun w hrecv => ?_⟩
  have hal := hi.allocated
  rw [hi.recvAlive hrecv, Bool.or_true] at hal
  obtain ⟨b, hb⟩ := Option.isSome_iff_exists.mp hal
  have hempty : b.value.buf.items = [] := by
    have ho := h.order b hb
    rw [hall] at ho
    exact List.append_cancel_left (ho.trans (List.append_nil _).symm)
  exact ⟨_, by rw [Sys.step, if_pos hrecv, hi.pollRecv_end hb hempty hs]⟩

end Steps

end Spsc
end Unsync
