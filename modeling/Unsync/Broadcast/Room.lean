import Unsync.Broadcast.Alike
import Unsync.Broadcast.Delivery

/-!
# Sending with room

When every receiver has room, `try_send` and a `send` that is polled once do the same to the
buffers and wake the same receivers, unless a receiver carries the id of the message since an
earlier turn of the cycle of ids. After them the two channels behave alike.
-/

namespace Unsync
namespace Broadcast

open Runs

variable {T W : Type}

namespace Sys

/-- Every live receiver has room for a message. -/
def Roomy (s : Sys T W) : Prop :=
  ∀ b, s.inner = some b → ∀ r ∈ s.receivers, ∀ st, b.value.receivers.get? r.index = some st →
    st.room = true

/-- No live receiver carries the id of one of the next messages. -/
def Unstamped (s : Sys T W) (n : Nat) : Prop :=
  ∀ b, s.inner = some b → ∀ r ∈ s.receivers, ∀ st, b.value.receivers.get? r.index = some st →
    ¬ upcoming b.value.id n st.id

/-- The buffers of the live receivers. -/
def buffers (s : Sys T W) : List (Option (VecDeque T)) :=
  s.receivers.map fun r => s.inner.bind fun b =>
    (b.value.receivers.get? r.index).map ReceiverState.buf

end Sys

/-- Twins have the same buffers. -/
theorem Twins.buffers_eq {n : Nat} {id : UInt64} {s t : Sys T W} (h : Twins n id s t) :
    s.buffers = t.buffers := by
  have hbuf : ∀ k, (s.inner.bind fun b => (b.value.receivers.get? k).map ReceiverState.buf) =
      t.inner.bind fun b => (b.value.receivers.get? k).map ReceiverState.buf := by
    intro k
    have hi := h.inner
    generalize s.inner = o at hi ⊢
    generalize t.inner = o' at hi ⊢
    cases hi with
    | none => rfl
    | @some b c hbc =>
      have hget := hbc.receivers.get? k
      simp only [Option.bind_some]
      generalize b.value.receivers.get? k = r at hget ⊢
      generalize c.value.receivers.get? k = r' at hget ⊢
      cases hget with
      | none => rfl
      | some hr => exact congrArg some hr.buf
  have hunpolled : ∀ u : Sys T W, u.buffers = (u.receivers.map Receiver.unpolled).map fun r =>
      u.inner.bind fun b => (b.value.receivers.get? r.index).map ReceiverState.buf := by
    intro u
    rw [List.map_map]
    rfl
  rw [hunpolled, hunpolled, h.receivers]
  apply List.map_congr_left
  intro r _
  exact hbuf r.index

section Loops

variable {b c : Inner T W} {n : Nat}

/-- Where there is room and no receiver carries the id of the message, both loops append it to
every buffer and wake every receiver. -/
theorem tryPass_sendPass (hc : c = { b with value := bumpMessageId b.value })
    (hroom : ∀ e ∈ b.value.receivers.entries, e.2.room = true)
    (hfresh : ∀ e ∈ b.value.receivers.entries, ¬ upcoming b.value.id (n + 1) e.2.id)
    (hn : n < messageIds) (v : T) :
    (tryPass c v).1 = (sendPass c v).1 ∧
      Slab.Related (AlikeState (upcoming c.value.id n)) (tryPass c v).2 (sendPass c v).2 := by
  have hid : c.value.id = nextId b.value.id := by rw [hc]; rfl
  have hentries : Slab.Related (fun r r' => r = r' ∧ r.room = true ∧
      ¬ upcoming b.value.id (n + 1) r.id) c.value.receivers c.value.receivers := by
    apply List.forall₂_same.mpr
    intro e he
    rw [hc] at he
    exact ⟨rfl, rfl, hroom e he, hfresh e he⟩
  apply hentries.forEach
  rintro d k r _ ⟨rfl, hr, hf⟩
  have hne : (r.id == c.value.id) = false := by
    rw [beq_eq_false_iff_ne]
    rintro he
    apply hf
    rw [he, hid]
    exact upcoming_next (Or.inl rfl)
  have hcap : r.atCapacity = false := by simpa [ReceiverState.room] using hr
  unfold ReceiverState.tryDeliver ReceiverState.deliver
  simp only [hcap, hne, Bool.not_false, if_true, Bool.false_eq_true, if_false, true_and]
  refine ⟨rfl, rfl, rfl, ?_⟩
  intro x hx
  have hno : r.id ≠ x := by
    rintro rfl
    rw [hid] at hx
    exact hf (upcoming_next (Or.inr hx))
  have hno' : c.value.id ≠ x := by
    rintro rfl
    obtain ⟨m, hm, he⟩ := hx
    exact nextId_iterate_ne (Nat.succ_pos m) (by omega) he
  exact iff_of_false hno hno'

end Loops

section Sends

variable [Target] [Layout T] [Waker W] {s : Sys T W}

omit [Layout T] [Waker W] in
private theorem Inv.live (h : Inv s) {b : Inner T W} (hb : s.inner = some b)
    {e : Nat × ReceiverState T W} (he : e ∈ b.value.receivers.entries) :
    ∃ r ∈ s.receivers, b.value.receivers.get? r.index = some e.2 := by
  have hget : b.value.receivers.get? e.1 = some e.2 := Slab.get?_eq_some.mpr he
  have hkey : e.1 ∈ b.value.receivers.keys := Slab.mem_keys.mpr ⟨_, hget⟩
  obtain ⟨r, hr, hi⟩ := List.mem_map.mp ((h.keys b hb).symm.subset hkey)
  exact ⟨r, hr, by rw [hi, hget]⟩

private theorem Inv.send_once (h : Inv s) (hs : s.senderFree = true) {b c : Inner T W} {u : Sys T W}
    (hb : s.inner = some b) (hc : c = { b with value := bumpMessageId b.value }) {v : T}
    (hu : u = { s.begin c v with sending := some (.suspended v) }) (w : W) :
    Inv u ∧ ∀ out t, u.pollSend v w = .ok (out, t) →
      run Sys.step s [.send v, .pollSend w] = .ok ([.done, out], t) := by
  subst hc
  obtain ⟨s₁, hs₁⟩ : ∃ s₁ : Sys T W, s₁ = { s with sending := some (.unresumed v) } := ⟨_, rfl⟩
  have hsend : s.step (.send v) = .ok (.done, s₁) := by rw [Sys.step, if_pos hs, hs₁]
  have hinv : Inv s₁ := by
    rw [hs₁]
    exact h.move (.send hs)
  have hb₁ : s₁.inner = some b := by rw [hs₁, ← hb]
  have hresumed : s₁.Resumed v u := Or.inr ⟨by rw [hs₁], b, hb₁, by rw [hu, hs₁]; rfl⟩
  refine ⟨(hinv.resumed hresumed).1, ?_⟩
  intro out t hp
  have hpoll : s₁.step (.pollSend w) = .ok (out, t) := by rw [hresumed.step_eq, hp]
  exact run_cons hsend (run_cons hpoll rfl)

omit [Target] [Layout T] [Waker W] in
/-- Loops that did the same for `try_send` and for the last poll of a `send` leave twins. -/
theorem twins_of_passes {u : Sys T W} {c d : Inner T W} {v : T} {n : Nat}
    {pass pass' : Delivery W × Slab (ReceiverState T W)} (hs : s.sending = none)
    (hu : u = { s.begin c v with sending := some (.suspended v) })
    (hd : ∃ w, d = { c with value := { c.value with sender := w } })
    (hsame : pass.1 = pass'.1)
    (hrelated : Slab.Related (AlikeState (upcoming c.value.id n)) pass.2 pass'.2) :
    ((s.begin c v).deliver c v pass).wakes = (u.deliver d v pass').endSend.wakes ∧
      Twins n c.value.id ((s.begin c v).deliver c v pass) (u.deliver d v pass').endSend := by
  obtain ⟨w, rfl⟩ := hd
  subst hu
  obtain ⟨d, slab⟩ := pass
  obtain ⟨d', slab'⟩ := pass'
  obtain rfl : d = d' := hsame
  refine ⟨rfl, ?_⟩
  have halike : Alike (upcoming c.value.id n) c.value.id
      { c with value := { c.value with receivers := slab } }
      { c with value := { c.value with receivers := slab', sender := w } } :=
    ⟨rfl, rfl, rfl, hrelated, rfl, rfl⟩
  have hput : Twins n c.value.id
      ((s.begin c v).put (some { c with value := { c.value with receivers := slab } }) d.woken)
      ({ s.begin c v with sending := none, sendPending := none }.put
        (some { c with value := { c.value with receivers := slab', sender := w } }) d.woken) := by
    refine ⟨?_, rfl, hs, rfl, rfl, rfl⟩
    show Option.Rel (Alike (compared s.sending c.value.id n) c.value.id) _ _
    rw [hs]
    exact .some halike
  exact hput.handOut v d.pushed

/-- With room everywhere, `try_send` and a `send` polled once count every receiver, wake the
same ones and leave twins. -/
theorem Inv.sends_alike (h : Inv s) (hs : s.senderFree = true) (hroom : s.Roomy) {n : Nat}
    (hfresh : s.Unstamped (n + 1)) (hn : n < messageIds) (v : T) (w : W) :
    ∃ id a b, s.step (.trySend v) = .ok (.trySent (.ok s.receivers.length), a) ∧
      run Sys.step s [.send v, .pollSend w] = .ok ([.done, .sent s.receivers.length], b) ∧
      a.wakes = b.wakes ∧ Twins n id a b := by
  obtain ⟨b, hb, hacc⟩ := access_of_alive h (Or.inl (senderFree_iff.mp hs).1)
  obtain ⟨c, hc⟩ : ∃ c : Inner T W, c = { b with value := bumpMessageId b.value } := ⟨_, rfl⟩
  have hid : c.value.id = nextId b.value.id := by rw [hc]; rfl
  have hreceivers : c.value.receivers = b.value.receivers := by rw [hc]; rfl
  have hroom' : ∀ e ∈ b.value.receivers.entries, e.2.room = true := by
    intro e he
    obtain ⟨r, hr, hget⟩ := h.live hb he
    exact hroom b hb r hr _ hget
  have hfresh' : ∀ e ∈ b.value.receivers.entries, ¬ upcoming b.value.id (n + 1) e.2.id := by
    intro e he
    obtain ⟨r, hr, hget⟩ := h.live hb he
    exact hfresh b hb r hr _ hget
  obtain ⟨hsame, hrelated⟩ := tryPass_sendPass hc hroom' hfresh' hn v
  have hall : (tryPass c v).1.delivered = s.receivers.length := by
    rw [(tryPass_pass c v).delivered, hreceivers, ← h.len_eq hb]
    exact List.countP_eq_length.mpr hroom'
  have htry := h.trySend_step hb hc v
  rw [if_pos hall] at htry
  obtain ⟨u, hu⟩ : ∃ u : Sys T W, u = { s.begin c v with sending := some (.suspended v) } :=
    ⟨_, rfl⟩
  obtain ⟨hinv, hrun⟩ := h.send_once hs hb hc hu w
  obtain ⟨d, hd⟩ : ∃ d : Inner T W,
      d = { c with value := { c.value with sender := register c.value.sender w } } := ⟨_, rfl⟩
  have hcd : sendPass c v = sendPass d v := by rw [hd]; rfl
  rw [hcd] at hsame hrelated
  rw [Sys.step, if_pos hs]
  have hub : u.inner = some c := by rw [hu]; rfl
  have hur : u.receivers = s.receivers := by rw [hu]; rfl
  have hfree := (senderFree_iff.mp hs).2
  by_cases hnone : s.receivers = []
  · have hempty : c.value.receivers.len = 0 := by rw [hreceivers, h.len_eq hb, hnone]; rfl
    have hpass : tryPass c v = (.start, c.value.receivers) := Slab.forEach_of_len hempty _ _
    have hpass' : sendPass d v = (.start, c.value.receivers) := by
      rw [← hcd]
      exact Slab.forEach_of_len hempty _ _
    rw [hpass, hpass'] at hrelated
    obtain ⟨hwakes, htwins⟩ := twins_of_passes hfree hu ⟨c.value.sender, rfl⟩ rfl hrelated
    have hquiet : (u.deliver c v (.start, c.value.receivers)).endSend = u.endSend := by
      rw [hu]
      simp [Sys.deliver, Sys.handOut, Sys.put, Sys.begin, Sys.endSend, Delivery.start, hnone]
    have hp := hinv.pollSend_nil hub (hur.trans hnone) v w
    rw [hpass] at htry
    rw [hquiet] at hwakes htwins
    rw [hnone] at htry ⊢
    exact ⟨_, _, _, htry, hrun _ _ hp, hwakes, htwins⟩
  · have hp := hinv.pollSend_step hub hd (by rwa [hur]) v
    rw [hur, ← hsame, if_pos hall] at hp
    obtain ⟨hwakes, htwins⟩ := twins_of_passes hfree hu ⟨_, hd⟩ hsame hrelated
    exact ⟨_, _, _, htry, hrun _ _ hp, hwakes, htwins⟩

/-- Sending with room. In every reachable state with a free sender whose live receivers all
have room, unless one carries the id of this or of a later message, `try_send` and a `send`
polled once return the same count, leave the same buffers and wake the same receivers; and
every later sequence of operations, with fewer messages than there are ids, has the same
results and leaves the same buffers after either. -/
theorem try_send_agrees_with_send {setup : Setup} {ops : List (Op T W)} {outs : List (Out T)}
    {s : Sys T W} (hr : run Sys.step (Sys.new setup.create) ops = .ok (outs, s))
    (hs : s.senderFree = true) (hroom : s.Roomy) {later : List (Op T W)}
    (hl : calls later < messageIds) (hfresh : s.Unstamped (calls later + 1)) (v : T) (w : W) :
    ∃ a b, s.step (.trySend v) = .ok (.trySent (.ok s.receivers.length), a) ∧
      run Sys.step s [.send v, .pollSend w] = .ok ([.done, .sent s.receivers.length], b) ∧
      a.buffers = b.buffers ∧ a.wakes = b.wakes ∧
      ∃ results a' b', run Sys.step a later = .ok (results, a') ∧
        run Sys.step b later = .ok (results, b') ∧ a'.buffers = b'.buffers := by
  have hi : Inv s := (Inv.new setup).of_run hr
  obtain ⟨id, a, b, htry, hsend, hwakes, htwins⟩ := hi.sends_alike hs hroom hfresh hl v w
  refine ⟨a, b, htry, hsend, htwins.buffers_eq, hwakes, ?_⟩
  obtain ⟨results, b', hb, -⟩ := (hi.of_run hsend).runs later
  have hbudget : Twins (0 + calls later) id a b := by
    rw [Nat.zero_add]
    exact htwins
  obtain ⟨⟨results', a'⟩, ha, rfl, id', htwins'⟩ := hbudget.run later _ hb
  exact ⟨_, a', b', ha, hb, htwins'.buffers_eq⟩

end Sends

/-- The steps of a channel for numbers on a 64-bit target. -/
abbrev numberStep : Sys Nat Nat → Op Nat Nat → Except Fault (Out Nat × Sys Nat Nat) :=
  @Sys.step Nat Nat numberedWaker ⟨64, by decide⟩ ⟨false⟩

/-- Two receivers of a channel for one message, of which one was sent a message and took it and
the other subscribed afterwards. -/
def earlyAndLate : Sys Nat Nat :=
  ⟨some ⟨⟨1, none, ⟨[(0, ⟨0, none, ⟨[], 1⟩, false⟩), (1, ⟨1, none, ⟨[], 1⟩, false⟩)], by decide⟩,
      some ⟨1, by decide⟩⟩, 1, 2⟩,
    true, none, [⟨0, false, none, ⟨0, [(0, 7)], [7], false⟩⟩, ⟨1, false, none, ⟨1, [], [], false⟩⟩],
    [], [7], [], none⟩

/-- Sending to the two receivers with either, and another message after that. -/
theorem try_send_agrees_with_send_two_receivers :
    (∃ outs, run numberStep (Sys.new (Setup.bounded 1).create)
      [.subscribe 0, .trySend 7, .recv 0, .pollRecv 0 3, .subscribe 1] =
        .ok (outs, earlyAndLate)) ∧
      ∃ a b, numberStep earlyAndLate (.trySend 9) = .ok (.trySent (.ok 2), a) ∧
        run numberStep earlyAndLate [.send 9, .pollSend 0] = .ok ([.done, .sent 2], b) ∧
        a.buffers = b.buffers ∧ a.wakes = b.wakes ∧
        ∃ results a' b',
          run numberStep a [.send 5, .pollSend 0, .recv 0, .pollRecv 0 2, .pollSend 0] =
            .ok (results, a') ∧
          run numberStep b [.send 5, .pollSend 0, .recv 0, .pollRecv 0 2, .pollSend 0] =
            .ok (results, b') ∧ a'.buffers = b'.buffers := by
  have hids : ∀ r ∈ earlyAndLate.receivers, ∀ st,
      (⟨[(0, ⟨0, none, ⟨[], 1⟩, false⟩), (1, ⟨1, none, ⟨[], 1⟩, false⟩)], by decide⟩ :
        Slab (ReceiverState Nat Nat)).get? r.index = some st →
      st.room = true ∧ (st.id = 0 ∨ st.id = 1) := by
    intro r hr st hst
    simp only [earlyAndLate, List.mem_cons, List.not_mem_nil, or_false] at hr
    rcases hr with rfl | rfl
    · cases hst
      exact ⟨rfl, Or.inl rfl⟩
    · cases hst
      exact ⟨rfl, Or.inr rfl⟩
  have hroom : earlyAndLate.Roomy := by
    rintro b ⟨⟩ r hr st hst
    exact (hids r hr st hst).1
  have hfresh : earlyAndLate.Unstamped (1 + 1) := by
    rintro b ⟨⟩ r hr st hst ⟨m, hm, he⟩
    rcases (hids r hr st hst).2 with hz | ho
    · rw [hz, Function.iterate_succ_apply'] at he
      exact nextId_ne_zero _ he
    · rw [ho] at he
      exact nextId_iterate_ne (Nat.succ_pos m) (Nat.lt_of_le_of_lt hm (by decide)) he
  have hrun : ∃ outs, run numberStep (Sys.new (Setup.bounded 1).create)
      [.subscribe 0, .trySend 7, .recv 0, .pollRecv 0 3, .subscribe 1] =
        .ok (outs, earlyAndLate) := ⟨_, rfl⟩
  refine ⟨hrun, ?_⟩
  obtain ⟨outs, hrun⟩ := hrun
  exact @try_send_agrees_with_send Nat Nat ⟨64, by decide⟩ ⟨false⟩ numberedWaker (.bounded 1) _ _
    earlyAndLate hrun rfl hroom [.send 5, .pollSend 0, .recv 0, .pollRecv 0 2, .pollSend 0]
    (by decide) hfresh 9 0

/-! ### A turn of the cycle of ids -/

/-- A receiver that subscribed at the id 1 and whose buffer for one message is full. -/
def stuck (id : UInt64) (sent : List Nat) : Sys Nat Nat :=
  ⟨some ⟨⟨id, none, ⟨[(0, ⟨1, none, ⟨[7], 1⟩, false⟩)], by decide⟩, some ⟨1, by decide⟩⟩, 1, 1⟩,
    true, none, [⟨0, false, none, ⟨1, [(1, 7)], [], false⟩⟩], [], sent, [], none⟩

/-- The receiver after it took its message. -/
def drained (id : UInt64) (sent : List Nat) : Sys Nat Nat :=
  ⟨some ⟨⟨id, none, ⟨[(0, ⟨1, none, ⟨[], 1⟩, false⟩)], by decide⟩, some ⟨1, by decide⟩⟩, 1, 1⟩,
    true, none, [⟨0, false, none, ⟨1, [(1, 7)], [7], false⟩⟩], [], sent, [], none⟩

/-- A full receiver is passed over by messages, each of which takes an id. -/
theorem run_stuck (k : Nat) (id : UInt64) (sent : List Nat) :
    ∃ outs sent', run numberStep (stuck id sent) (List.replicate k (.trySend 8)) =
      .ok (outs, stuck (nextId^[k] id) sent') := by
  induction k generalizing id sent with
  | zero => exact ⟨[], sent, rfl⟩
  | succ k ih =>
    have hstep : numberStep (stuck id sent) (.trySend 8) =
        .ok (.trySent (.error ⟨0⟩), stuck (nextId id) (sent ++ [8])) := rfl
    obtain ⟨outs, sent', hrun⟩ := ih (nextId id) (sent ++ [8])
    exact ⟨_, sent', run_cons hstep hrun⟩

/-- After the largest id comes 1, which the receiver carries: `send` takes the message for
delivered, and `try_send` appends it. -/
theorem drained_differs (sent : List Nat) :
    ∃ a b, numberStep (drained 18446744073709551615 sent) (.trySend 9) =
        .ok (.trySent (.ok 1), a) ∧
      run numberStep (drained 18446744073709551615 sent) [.send 9, .pollSend 0] =
        .ok ([.done, .sent 1], b) ∧
      a.buffers = [some ⟨[9], 1⟩] ∧ b.buffers = [some ⟨[], 1⟩] :=
  ⟨_, _, rfl, rfl, rfl, rfl⟩

/-- The last id before the ids start over. -/
theorem nextId_iterate_last : nextId^[messageIds - 2] 2 = 18446744073709551615 := by
  rw [← UInt64.toNat_inj, nextId_iterate_toNat (by decide)]
  rfl

/-- A receiver of a channel for one message subscribes and is sent one. After so many messages
that it has no room for that their ids start over, it takes the one it has. The next message
is appended by `try_send` and not by `send`, and both count it as delivered. -/
theorem try_send_disagrees_after_a_turn :
    ∃ outs s, run numberStep (Sys.new (Setup.bounded 1).create)
        ([.trySend 6, .subscribe 0, .trySend 7] ++
          (List.replicate (messageIds - 2) (.trySend 8) ++ [.recv 0, .pollRecv 0 3])) =
          .ok (outs, s) ∧
      s.senderFree = true ∧ s.Roomy ∧
      ∃ a b, numberStep s (.trySend 9) = .ok (.trySent (.ok 1), a) ∧
        run numberStep s [.send 9, .pollSend 0] = .ok ([.done, .sent 1], b) ∧
        a.buffers ≠ b.buffers := by
  have hfirst : ∃ outs, run numberStep (Sys.new (Setup.bounded 1).create)
      [.trySend 6, .subscribe 0, .trySend 7] = .ok (outs, stuck 2 [6, 7]) := ⟨_, rfl⟩
  obtain ⟨outs, hfirst⟩ := hfirst
  obtain ⟨outs', sent, hturn⟩ := run_stuck (messageIds - 2) 2 [6, 7]
  rw [nextId_iterate_last] at hturn
  have hlast : ∃ outs, run numberStep (stuck 18446744073709551615 sent) [.recv 0, .pollRecv 0 3] =
      .ok (outs, drained 18446744073709551615 sent) := ⟨_, rfl⟩
  obtain ⟨outs'', hlast⟩ := hlast
  obtain ⟨a, b, ha, hb, hbufa, hbufb⟩ := drained_differs sent
  refine ⟨_, drained 18446744073709551615 sent, run_append hfirst (run_append hturn hlast), rfl, ?_,
    a, b, ha, hb, ?_⟩
  · rintro b ⟨⟩ r hr st hst
    rw [List.mem_singleton.mp hr] at hst
    cases hst
    rfl
  · rw [hbufa, hbufb]
    decide

end Broadcast
end Unsync
