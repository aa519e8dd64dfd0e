import Unsync.Spsc.Fifo
import Mathlib.Logic.IsEmpty.Basic

/-!
# Bounded buffers

A bounded channel looks at the capacity that its queue reports, which for a type without
size is not the one that was asked for. Where the two agree, the channel holds exactly as
many messages as it was made for, and pushes back exactly when it holds them.
-/

namespace Unsync
namespace Spsc

open Runs

variable {T W : Type}

/-- The messages that were accepted and not yet received. -/
def unreceived (s : Sys T W) : List T := (accepted s.settled).drop s.received.length

/-- The channel bounds its messages by the given capacity: it holds no more of them, and
while there is a receiver, `try_send` fails and a poll of `send` is pending exactly when it
holds that many. -/
structure BoundedBy [Target] [Waker W] (c : Nat) (s : Sys T W) : Prop where
  atMost : (unreceived s).length ≤ c
  trySend : s.senderFree = true → s.receiver = true → ∀ v, ∃ result t,
    s.step (.trySend v) = .ok (.sent result, t) ∧
      ((∃ e, result = .error e) ↔ (unreceived s).length = c)
  send : s.sending.isSome = true → s.receiver = true → ∀ w, ∃ out t,
    s.step (.pollSend w) = .ok (out, t) ∧ (out = .pending ↔ (unreceived s).length = c)

/-- The queue was made for the given number of messages and holds no more. -/
structure Capped (c : Nat) (s : Sys T W) : Prop where
  fixed : ∀ b, s.inner = some b → b.value.unbounded = false ∧ b.value.buf.capacity = c
  atMost : (unreceived s).length ≤ c

section Steps

variable {s t : Sys T W} {c : Nat}

private theorem Fifo.unreceived_eq (h : Fifo s) {b : Inner T W} (hb : s.inner = some b) :
    unreceived s = b.value.buf.items := by
  unfold unreceived
  rw [← h.order b hb, List.drop_left]

private theorem Capped.of_some (hf : Fifo t) {b : Inner T W} (ht : t.inner = some b)
    (hu : b.value.unbounded = false) (hc : b.value.buf.capacity = c)
    (hle : b.value.buf.items.length ≤ c) : Capped c t := by
  constructor
  · intro b' hb'
    rw [ht] at hb'
    cases hb'
    exact ⟨hu, hc⟩
  · rw [hf.unreceived_eq ht]
    exact hle

private theorem Capped.atCapacity_iff (h : Capped c s) {b : Inner T W} (hb : s.inner = some b) :
    b.value.atCapacity = true ↔ b.value.buf.items.length = c := by
  obtain ⟨hu, hc⟩ := h.fixed b hb
  rw [Shared.atCapacity, hu, hc, Bool.not_false, Bool.true_and, beq_iff_eq]
  exact eq_comm

private theorem Capped.pushBack (h : Capped c s) (hf : Fifo s) {b : Inner T W}
    (hb : s.inner = some b) (hroom : b.value.atCapacity = false) (v : T) :
    (b.value.pushBack v).buf.capacity = c ∧ (b.value.pushBack v).buf.items.length ≤ c := by
  have hle := h.atMost
  rw [hf.unreceived_eq hb] at hle
  have hne : b.value.buf.items.length ≠ c := by
    rw [Ne, ← h.atCapacity_iff hb, hroom]
    exact Bool.false_ne_true
  have hcap := (h.fixed b hb).2
  constructor
  · show max b.value.buf.capacity (b.value.buf.items.length + 1) = c
    omega
  · show (b.value.buf.items ++ [v]).length ≤ c
    rw [List.length_append, List.length_singleton]
    omega

variable [Waker W]

/-- Every move keeps the bound. -/
theorem Capped.move (hi : Inv s) (hf : Fifo s) (h : Capped c s) {op : Op T W} {out : Out T}
    (m : Move s op out t) : Capped c t := by
  have hft := hf.move hi m
  have hlen : ∀ b, s.inner = some b → b.value.buf.items.length ≤ c := by
    intro b hb
    rw [← hf.unreceived_eq hb]
    exact h.atMost
  cases m with
  | ignored => exact h
  | send | recv | cancelRecv => exact ⟨h.fixed, h.atMost⟩
  | trySent hb hs hr hc | sent hb hs hr hc =>
    obtain ⟨hcap, hle⟩ := h.pushBack hf hb hc _
    exact .of_some hft rfl (h.fixed _ hb).1 hcap hle
  | tryRefused hb hs hc => exact .of_some hft hb (h.fixed _ hb).1 (h.fixed _ hb).2 (hlen _ hb)
  | @sendPark b _ _ hb | @sendFail b _ _ hb | @recvEnd b _ hb | @recvPark b _ hb =>
    exact .of_some hft rfl (h.fixed _ hb).1 (h.fixed _ hb).2 (hlen b hb)
  | @cancelSend v hs =>
    have hacc := accepted_other s.settled v (fun hf : Fate.cancelled = .accepted => by cases hf)
    refine ⟨h.fixed, ?_⟩
    show ((accepted (s.settled ++ [(v, .cancelled)])).drop s.received.length).length ≤ c
    rw [hacc]
    exact h.atMost
  | @received b v buf w hb hr hv =>
    obtain ⟨hitems, hcap⟩ := VecDeque.popFront_eq_some hv
    have hle := hlen b hb
    rw [hitems, List.length_cons] at hle
    exact .of_some hft rfl (h.fixed b hb).1 (hcap.trans (h.fixed b hb).2)
      (Nat.le_of_succ_le hle)
  | @dropSender b hb hs | @dropReceiver b hb hr =>
    refine ⟨?_, h.atMost⟩
    intro b' hb'
    simp only [Sys.put] at hb'
    split at hb'
    · cases hb'
      exact h.fixed b hb
    · cases hb'

private theorem Inv.trySend_step [Target] (h : Inv s) {b : Inner T W} (hb : s.inner = some b)
    (hs : s.senderFree = true) (hr : s.receiver = true) (v : T) :
    s.step (.trySend v) = .ok (if b.value.atCapacity then
        (.sent (.error ⟨v⟩), s.settle v (.refused ⟨v⟩))
      else (.sent (.ok ()), (s.put (some { b with value := b.value.pushBack v })
        b.value.rx.toList).settle v .accepted)) := by
  have hacc : s.access = .ok b := by rw [Sys.access, hb]
  have hboth := BiRc.bothPresent_iff (h.counted b hb)
  rw [(senderFree_iff.mp hs).1, hr, Bool.and_true] at hboth
  have hput : s.put (some b) [] = s := by simp [Sys.put, ← hb]
  cases hc : b.value.atCapacity with
  | true => simp [Sys.step, hs, Sys.trySend, hacc, Spsc.trySend, hc, hput]
  | false => simp [Sys.step, hs, Sys.trySend, hacc, Spsc.trySend, hc, hboth]

private theorem Inv.pollSend_step [Target] (h : Inv s) {b : Inner T W} (hb : s.inner = some b)
    {v : T} (hs : s.sending = some ⟨some v⟩) (hr : s.receiver = true) (w : W) :
    ∃ t, s.step (.pollSend w) =
      .ok (if b.value.atCapacity then .pending else .sent (.ok ()), t) := by
  have hacc : s.access = .ok b := by rw [Sys.access, hb]
  have hboth := BiRc.bothPresent_iff (h.counted b hb)
  rw [(h.sendAlive _ hs).1, hr, Bool.and_true] at hboth
  cases hc : b.value.atCapacity with
  | true =>
    apply Exists.intro
    simp only [Sys.step, hs, Sys.pollSend, hacc, ok_bind, Send.poll, hboth, hc, if_true]
    rfl
  | false =>
    apply Exists.intro
    simp only [Sys.step, hs, Sys.pollSend, hacc, ok_bind, Send.poll, hboth, hc]
    rfl

private theorem Capped.boundedBy [Target] (hi : Inv s) (hf : Fifo s) (h : Capped c s) :
    BoundedBy c s := by
  refine ⟨h.atMost, ?_, ?_⟩
  · intro hs hr v
    obtain ⟨b, hb, -⟩ := access_of_alive hi (by rw [hr, Bool.or_true])
    rw [hf.unreceived_eq hb, ← h.atCapacity_iff hb, hi.trySend_step hb hs hr v]
    cases hcap : b.value.atCapacity with
    | true => exact ⟨_, _, rfl, by simp⟩
    | false => exact ⟨_, _, rfl, by simp⟩
  · intro hs hr w
    obtain ⟨send, hsend⟩ := Option.isSome_iff_exists.mp hs
    obtain ⟨-, v, hv, -⟩ := hi.sendAlive send hsend
    obtain ⟨b, hb, -⟩ := access_of_alive hi (by rw [hr, Bool.or_true])
    obtain ⟨value⟩ := send
    cases hv
    obtain ⟨t, ht⟩ := hi.pollSend_step hb hsend hr w
    refine ⟨_, t, ht, ?_⟩
    rw [hf.unreceived_eq hb, ← h.atCapacity_iff hb]
    cases b.value.atCapacity <;> simp

omit [Waker W] in
/-- A new bounded channel. -/
theorem Capped.new [Target] [Layout T] {m : Nat} (h0 : 0 < c)
    (hm : (VecDeque.withCapacity c : VecDeque T).capacity = m) :
    Capped m (Sys.new (Setup.bounded c).create : Sys T W) := by
  constructor
  · intro b hb
    simp only [Sys.new, Setup.create, channel, if_pos h0] at hb
    cases hb
    exact ⟨rfl, hm⟩
  · exact Nat.zero_le _

/-- Messages go in until the queue is full. -/
theorem Capped.fill [Target] (v : T) {n : Nat} :
    ∀ {s : Sys T W}, Inv s → Fifo s → Capped c s → s.senderFree = true → s.receiver = true →
      (unreceived s).length + n ≤ c →
      ∃ outs t, run Sys.step s (List.replicate n (.trySend v)) = .ok (outs, t) ∧
        (unreceived t).length = (unreceived s).length + n := by
  induction n with
  | zero =>
    intro s hi hf h hs hr hn
    exact ⟨[], s, rfl, rfl⟩
  | succ n ih =>
    intro s hi hf h hs hr hn
    obtain ⟨b, hb, -⟩ := access_of_alive hi (by rw [hr, Bool.or_true])
    have hroom : b.value.atCapacity = false := by
      rw [Bool.eq_false_iff, Ne, h.atCapacity_iff hb, ← hf.unreceived_eq hb]
      omega
    have hstep := hi.trySend_step hb hs hr v
    rw [hroom] at hstep
    have m : Move s (.trySend v) (.sent (.ok ())) _ := .trySent hb hs hr hroom
    have hft := hf.move hi m
    have hone := hft.unreceived_eq rfl
    have hlen : (unreceived ((s.put (some { b with value := b.value.pushBack v })
        b.value.rx.toList).settle v .accepted)).length = (unreceived s).length + 1 := by
      rw [hone, hf.unreceived_eq hb]
      show (b.value.buf.items ++ [v]).length = _
      rw [List.length_append, List.length_singleton]
    obtain ⟨outs, t, hrun, ht⟩ := ih (hi.move m) hft (h.move hi hf m) hs hr (by rw [hlen]; omega)
    refine ⟨.sent (.ok ()) :: outs, t, run_cons hstep hrun, ?_⟩
    rw [ht, hlen]
    omega

/-- A bounded channel bounds its messages by its capacity, unless they take no space and there
is a count of them beyond the capacity. -/
theorem channel_boundedBy_iff [Target] [Layout T] (h0 : 0 < c) (hc : c ≤ usizeMax) :
    (∀ ops : List (Op T W), ∃ outs s,
      run Sys.step (Sys.new (Setup.bounded c).create) ops = .ok (outs, s) ∧ BoundedBy c s) ↔
      Layout.zeroSized T = false ∨ c = usizeMax ∨ IsEmpty T := by
  have hnew : Inv (Sys.new (Setup.bounded c).create : Sys T W) := .new _
  have hfifo : Fifo (Sys.new (Setup.bounded c).create : Sys T W) := .new _
  constructor
  · intro hall
    by_contra hno
    simp only [not_or, not_isEmpty_iff, Bool.not_eq_false] at hno
    obtain ⟨hz, hne, ⟨v⟩⟩ := hno
    have hcap := Capped.new (T := T) (W := W) h0 (VecDeque.withCapacity_zeroSized hz)
    have hfree : (Sys.new (Setup.bounded c).create : Sys T W).senderFree = true ∧
        (Sys.new (Setup.bounded c).create : Sys T W).receiver = true := by
      simp [Sys.new, Sys.senderFree, Setup.create, channel, h0]
    obtain ⟨outs, s, hrun, hlen⟩ := hcap.fill v (n := c + 1) hnew hfifo hfree.1 hfree.2
      (by show 0 + (c + 1) ≤ usizeMax; omega)
    obtain ⟨outs', s', hrun', hb⟩ := hall (List.replicate (c + 1) (.trySend v))
    cases hrun.symm.trans hrun'
    have hle := hb.atMost
    rw [hlen] at hle
    exact absurd hle (by show ¬(0 + (c + 1) ≤ c); omega)
  · intro hcond ops
    by_cases hexact : Layout.zeroSized T = false ∨ c = usizeMax
    · obtain ⟨outs, s, hrun, hi, hf, h⟩ := run_keeps (P := fun s => Fifo s ∧ Capped c s)
        (fun s op out t hi h m => ⟨h.1.move hi m, h.2.move hi h.1 m⟩) hnew
        ⟨hfifo, .new h0 (VecDeque.withCapacity_capacity hexact)⟩ ops
      exact ⟨outs, s, hrun, h.boundedBy hi hf⟩
    · have hempty : IsEmpty T := by
        rw [not_or] at hexact
        rcases hcond with hz | he | hempty
        · exact absurd hz hexact.1
        · exact absurd he hexact.2
        · exact hempty
      obtain ⟨outs, s, hrun, hi, -⟩ := run_keeps (P := fun _ => True)
        (fun _ _ _ _ _ _ _ => trivial) hnew trivial ops
      refine ⟨outs, s, hrun, ?_, ?_, ?_⟩
      · rw [Subsingleton.elim (unreceived s) []]
        exact Nat.zero_le c
      · intro hs hr v
        exact hempty.elim v
      · intro hs hr w
        obtain ⟨send, hsend⟩ := Option.isSome_iff_exists.mp hs
        obtain ⟨-, v, -⟩ := hi.sendAlive send hsend
        exact hempty.elim v

end Steps

end Spsc
end Unsync
