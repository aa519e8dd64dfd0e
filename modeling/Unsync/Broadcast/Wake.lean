import Unsync.Broadcast.Delivery
import Unsync.Wakes

/-!
# No lost wake-up

One waker of the sender is shared by all receivers: it is registered by each poll of `send`
and taken by whichever receiver is dropped. The waker of a receiver stays with its entry
until the sender is dropped. A poll that is pending was woken since, or would be pending
again: its buffer is empty, or some buffer that must take the message is full.
-/

namespace Unsync
namespace Broadcast

open Runs

variable {T W : Type} [Waker W]

/-- A pending `recv` whose task was not woken waits for a message of a live sender. -/
def RecvAsleep (s : Sys T W) (index : Nat) (waker : W) : Prop :=
  ∃ b st, s.inner = some b ∧ b.value.receivers.get? index = some st ∧ st.buf.items = [] ∧
    s.sender = true ∧ Registered st.waker waker

/-- The message under way has not reached the receiver, whose buffer is at capacity. -/
def HoldsUp (b : Inner T W) (r : Receiver T W) : Prop :=
  ∃ st, b.value.receivers.get? r.index = some st ∧ st.id ≠ b.value.id ∧ st.atCapacity = true

/-- A pending `send` whose task was not woken waits for a live receiver to make room. -/
def SendAsleep (s : Sys T W) (waker : W) : Prop :=
  s.Suspended ∧ ∃ b, s.inner = some b ∧ Registered b.value.sender waker ∧
    ∃ r ∈ s.receivers, HoldsUp b r

/-- The latest poll of every `recv` was woken or would be pending again. -/
def RecvAwake (s : Sys T W) : Prop :=
  ∀ r ∈ s.receivers, Awake s.wakes r.pending r.receiving (RecvAsleep s r.index)

/-- The latest poll of `send` was woken or would be pending again. -/
abbrev SendAwake (s : Sys T W) : Prop :=
  Awake s.wakes s.sendPending s.sending.isSome (SendAsleep s)

variable {s t u : Sys T W}

private theorem RecvAsleep.keep {k : Nat} {w : W} (h : RecvAsleep s k w) {b b' : Inner T W}
    (hb : s.inner = some b) (ht : t.inner = some b') (hs : t.sender = s.sender)
    (hk : ∀ st, b.value.receivers.get? k = some st → ∃ st',
      b'.value.receivers.get? k = some st' ∧ st'.buf = st.buf ∧ st'.waker = st.waker) :
    RecvAsleep t k w := by
  obtain ⟨c, st, hc, hst, hbuf, hsend, hr⟩ := h
  rw [hb, Option.some.injEq] at hc
  subst hc
  obtain ⟨st', hst', hbuf', hwaker⟩ := hk st hst
  exact ⟨b', st', ht, hst', by rw [hbuf', hbuf], hs.trans hsend, by rw [hwaker]; exact hr⟩

private theorem RecvAsleep.same {k : Nat} {w : W} (h : RecvAsleep s k w) (hi : t.inner = s.inner)
    (hs : t.sender = s.sender) : RecvAsleep t k w := by
  obtain ⟨b, st, hb, hst, hbuf, hsend, hr⟩ := h
  exact ⟨b, st, hi.trans hb, hst, hbuf, hs.trans hsend, hr⟩

/-- A loop over the receivers wakes a sleeping `recv` or leaves it asleep. -/
theorem RecvAwake.pass (h : RecvAwake u) {b c : Inner T W} {v : T}
    {counts pushes : ReceiverState T W → Bool} {change : ReceiverState T W → ReceiverState T W}
    {pass : Delivery W × Slab (ReceiverState T W)} (hb : u.inner = some b)
    (hc : c.value.receivers = b.value.receivers)
    (loop : Pass c.value.receivers counts pushes change pass)
    (kept : ∀ st, pushes st = false → change st = st) : RecvAwake (u.deliver c v pass) := by
  intro x hx
  obtain ⟨r, hr, rfl⟩ := List.mem_map.mp hx
  have hawake := h r hr
  have hget := loop.get? r.index
  rw [hc] at hget loop
  cases hst : b.value.receivers.get? r.index with
  | none =>
    -- Without an entry nobody sleeps.
    apply hawake.wake_among
    intro w ha
    obtain ⟨c', st, hc', hst', -⟩ := ha
    rw [hb, Option.some.injEq] at hc'
    rw [← hc', hst] at hst'
    cases hst'
  | some st =>
    rw [hst, Option.map_some] at hget
    cases hp : pushes st with
    | true =>
      apply hawake.wake_among
      intro w ha
      obtain ⟨c', st', hc', hst', -, -, hreg⟩ := ha
      rw [hb, Option.some.injEq] at hc'
      rw [← hc', hst, Option.some.injEq] at hst'
      subst hst'
      obtain ⟨y, hy, htask⟩ := hreg.woken
      refine ⟨y, ?_, htask⟩
      rw [loop.woken, List.mem_flatMap]
      exact ⟨_, List.mem_filter.mpr ⟨Slab.get?_eq_some.mp hst, hp⟩, hy⟩
    | false =>
      apply hawake.keep id
      intro w ha
      refine ha.keep hb rfl rfl ?_
      intro st' hst'
      rw [hst, Option.some.injEq] at hst'
      subst hst'
      exact ⟨_, hget, by rw [kept st hp], by rw [kept st hp]⟩

private theorem RecvAwake.setReceiver [Target] (h : RecvAwake s) (hi : Inv s) {b : Inner T W}
    (hb : s.inner = some b) {i : Nat} {r r' : Receiver T W} {st : ReceiverState T W}
    {woken : List W} (hr : s.receivers[i]? = some r)
    (hr' : Awake (s.wakes ++ woken) r'.pending r'.receiving
      (RecvAsleep ((s.put (some (setState b r.index st)) woken).setReceiver i r') r'.index)) :
    RecvAwake ((s.put (some (setState b r.index st)) woken).setReceiver i r') := by
  intro x hx
  rcases mem_setReceiver hr hx with rfl | hx
  · exact hr'
  · obtain ⟨hmem, hne⟩ := hi.others hb hr hx
    apply (h x hmem).keep id
    intro w ha
    refine ha.keep hb rfl rfl ?_
    intro st' hst'
    refine ⟨st', ?_, rfl, rfl⟩
    show (b.value.receivers.set r.index st).get? x.index = some st'
    rw [Slab.get?_set, if_neg hne, hst']

/-- The first poll of a `send` wakes nobody. -/
theorem RecvAwake.resumed (h : RecvAwake s) {v : T} (hu : s.Resumed v u) : RecvAwake u := by
  rcases hu with ⟨-, rfl⟩ | ⟨-, b, hb, rfl⟩
  · exact h
  · intro r hr
    apply (h r hr).keep_wakes id
    intro w ha
    exact ha.keep hb rfl rfl fun st hst => ⟨st, hst, rfl, rfl⟩

/-- Every move wakes a pending `recv` or leaves it asleep. -/
theorem RecvAwake.move [Target] [Layout T] (h : RecvAwake s) (hi : Inv s) {op : Op T W}
    {out : Out T} (m : Move s op out t) : RecvAwake t := by
  cases m with
  | ignored => exact h
  | @subscribe b key hb hs hk hm =>
    intro x hx
    rcases List.mem_append.mp hx with hx | hx
    · apply (h x hx).keep id
      intro w ha
      refine ha.keep hb rfl rfl ?_
      intro st hst
      have hne : x.index ≠ key := by
        intro he
        exact hk (he ▸ Slab.mem_keys.mpr ⟨st, hst⟩)
      refine ⟨st, ?_, rfl, rfl⟩
      show (b.value.receivers.insert key _).get? x.index = some st
      rw [Slab.get?_insert, if_neg hne, hst]
    · rw [List.mem_singleton.mp hx]
      exact Awake.idle
  | @trySent b c v hb hs hc hall | @tryShort b c v hb hs hc hsome =>
    subst hc
    have hbegin : RecvAwake (s.begin { b with value := bumpMessageId b.value } v) := by
      intro r hr
      apply (h r hr).keep_wakes id
      intro w ha
      exact ha.keep hb rfl rfl fun st hst => ⟨st, hst, rfl, rfl⟩
    refine hbegin.pass rfl rfl (tryPass_pass _ v) ?_
    intro st hp
    simp [hp]
  | send hs => exact fun r hr => (h r hr).keep_wakes id fun w ha => ha.same rfl rfl
  | sentNone hu hr =>
    obtain ⟨-, -, hreceivers, -⟩ := hi.resumed hu
    intro r hmem
    have hmem' : r ∈ _ := hmem
    rw [Sys.endSend, hreceivers, hr] at hmem'
    cases hmem'
  | @sent u b c v w hu hb hc hall | @sendPark u b c v w hu hb hc hsome =>
    have hpass : RecvAwake (u.deliver c v (sendPass c v)) := by
      refine (h.resumed hu).pass hb (by rw [hc]) (sendPass_pass c v) ?_
      intro st hp
      simp [hp]
    exact fun r hr => (hpass r hr).keep_wakes id fun w ha => ha.same rfl rfl
  | cancelSend hs => exact fun r hr => (h r hr).keep_wakes id fun w ha => ha.same rfl rfl
  | @recv i r hr hf =>
    intro x hx
    rcases mem_setReceiver hr hx with rfl | hx
    · exact (h r (List.mem_of_getElem? hr)).keep_wakes (fun _ => rfl) fun w ha => ha.same rfl rfl
    · exact (h x (List.mem_of_mem_eraseIdx hx)).keep_wakes id fun w ha => ha.same rfl rfl
  | @cancelRecv i r hr hf =>
    intro x hx
    rcases mem_setReceiver hr hx with rfl | hx
    · exact Awake.idle
    · exact (h x (List.mem_of_mem_eraseIdx hx)).keep_wakes id fun w ha => ha.same rfl rfl
  | received hb hr hf hst hv => exact h.setReceiver hi hb hr Awake.idle
  | recvEnd hb hr hf hst hv hs => exact h.setReceiver hi hb hr Awake.idle
  | @recvPark b i r st w hb hr hf hst hv hs =>
    apply h.setReceiver hi hb hr
    rw [← List.length_append]
    apply Awake.park hf
    refine ⟨_, { st with waker := register st.waker w }, rfl, ?_, hv, hs,
      register_task st.waker w⟩
    show (b.value.receivers.set r.index _).get? r.index = some _
    rw [Slab.get?_set, if_pos rfl, hst, Option.map_some]
  | @dropSender b hb hs =>
    intro x hx
    apply (h x hx).wake_among
    intro w ha
    obtain ⟨c, st, hc, hst, -, -, hreg⟩ := ha
    rw [hb, Option.some.injEq] at hc
    subst hc
    obtain ⟨y, hy, htask⟩ := hreg.woken
    exact ⟨y, List.mem_flatMap.mpr ⟨_, Slab.get?_eq_some.mp hst, hy⟩, htask⟩
  | @dropReceiver b i r hb hr hf =>
    intro x hx
    obtain ⟨hmem, hne⟩ := hi.others hb hr hx
    have hlast : ¬(s.receivers.length = 1 ∧ s.sender = false) := by
      rintro ⟨hone, -⟩
      obtain ⟨hlt, -⟩ := List.getElem?_eq_some_iff.mp hr
      have hlen := List.length_pos_of_mem hx
      rw [List.length_eraseIdx_of_lt hlt] at hlen
      omega
    apply (h x hmem).keep id
    intro w ha
    refine ha.keep hb (if_neg hlast) rfl ?_
    intro st hst
    refine ⟨st, ?_, rfl, rfl⟩
    show (b.value.receivers.remove r.index).get? x.index = some st
    rw [Slab.get?_remove, if_neg hne, hst]

private theorem SendAwake.sendPending_none (h : SendAwake s) (hs : s.senderFree = true) :
    s.sendPending = none :=
  h.pending_none (by rw [(senderFree_iff.mp hs).2]; rfl)

private theorem SendAsleep.registered {w : W} (h : SendAsleep s w) {b : Inner T W}
    (hb : s.inner = some b) : Registered b.value.sender w := by
  obtain ⟨-, c, hc, hreg, -⟩ := h
  rw [hb, Option.some.injEq] at hc
  rw [hc]
  exact hreg

private theorem SendAsleep.same {w : W} (h : SendAsleep s w) (hi : t.inner = s.inner)
    (hs : t.sending = s.sending)
    (hr : t.receivers.map Receiver.index = s.receivers.map Receiver.index) : SendAsleep t w := by
  obtain ⟨⟨v, hv⟩, b, hb, hreg, r, hmem, hfull⟩ := h
  have hindex : r.index ∈ t.receivers.map Receiver.index := by
    rw [hr]
    exact List.mem_map_of_mem hmem
  obtain ⟨r', hmem', he⟩ := List.mem_map.mp hindex
  refine ⟨⟨v, hs.trans hv⟩, b, hi.trans hb, hreg, r', hmem', ?_⟩
  unfold HoldsUp
  rw [he]
  exact hfull

omit [Waker W] in
private theorem holdsUp_of_short [Target] (hi : Inv u) {b c : Inner T W} {v : T}
    (hb : u.inner = some b) (hc : c.value.receivers = b.value.receivers)
    (hsome : (sendPass c v).1.delivered ≠ u.receivers.length) :
    ∃ r ∈ u.receivers, ∃ st, (sendPass c v).2.get? r.index = some st ∧ st.id ≠ c.value.id ∧
      st.atCapacity = true := by
  have loop := sendPass_pass c v
  obtain ⟨r, hr, st, hget, hst⟩ := (loop.short_iff hi hb hc).mp hsome
  simp only [Bool.or_eq_false_iff, beq_eq_false_iff_ne, ReceiverState.room,
    Bool.not_eq_false'] at hst
  refine ⟨r, hr, st, ?_, hst⟩
  rw [loop.get?, hc, hget, Option.map_some, ReceiverState.gets, ReceiverState.room, hst.2]
  simp

/-- Every move wakes a pending `send` or leaves it asleep. -/
theorem SendAwake.move [Target] [Layout T] (h : SendAwake s) (hi : Inv s) {op : Op T W}
    {out : Out T} (m : Move s op out t) : SendAwake t := by
  have hidle : ∀ {wakes : List W} {live : Bool} {asleep : W → Prop}, s.senderFree = true →
      Awake wakes s.sendPending live asleep := by
    intro wakes live asleep hs
    rw [h.sendPending_none hs]
    exact Awake.idle
  cases m with
  | ignored => exact h
  | subscribe hb hs hk hm => exact hidle hs
  | trySent hb hs hc hall => exact hidle hs
  | tryShort hb hs hc hsome => exact hidle hs
  | send hs => exact hidle hs
  | sentNone hu hr => exact Awake.idle
  | sent hu hb hc hall => exact Awake.idle
  | @sendPark u b c v w hu hb hc hsome =>
    obtain ⟨hi', -, hreceivers, hsend⟩ := hi.resumed hu
    rw [← hreceivers] at hsome
    obtain ⟨r, hr, st, hst, hid, hcap⟩ := holdsUp_of_short hi' hb (by rw [hc]) hsome
    have hasleep : SendAsleep (u.deliver c v (sendPass c v)) w := by
      refine ⟨⟨v, hsend⟩, _, rfl, ?_, _, List.mem_map_of_mem hr, st, hst, hid, hcap⟩
      rw [hc]
      exact register_task b.value.sender w
    have hpark : Awake (u.deliver c v (sendPass c v)).wakes
        (some (w, u.wakes.length + (sendPass c v).1.woken.length)) u.sending.isSome
        (SendAsleep (u.deliver c v (sendPass c v))) := by
      rw [← List.length_append]
      exact Awake.park (by rw [hsend]; rfl) hasleep
    exact hpark.keep_wakes id fun w ha => ha.same rfl rfl rfl
  | cancelSend hs => exact Awake.idle
  | recv hr hf => exact h.keep_wakes id fun w ha => ha.same rfl rfl (index_set hr rfl)
  | cancelRecv hr hf => exact h.keep_wakes id fun w ha => ha.same rfl rfl (index_set hr rfl)
  | received hb hr hf hst hv => exact h.wake fun w ha => ha.registered hb
  | recvEnd hb hr hf hst hv hs =>
    have hnone : s.sending.isSome = false := by
      cases hsend : s.sending.isSome with
      | false => rfl
      | true => exact absurd (hi.sendAlive hsend) (by rw [hs]; exact Bool.false_ne_true)
    show Awake _ s.sendPending _ _
    rw [h.pending_none hnone]
    exact Awake.idle
  | recvPark hb hr hf hst hv hs => exact h.wake fun w ha => ha.registered hb
  | dropSender hb hs => exact hidle hs
  | dropReceiver hb hr hf => exact h.wake fun w ha => ha.registered hb

private theorem SendAsleep.pending_again [Target] [Layout T] (hi : Inv s) {w : W}
    (h : SendAsleep s w) (w' : W) : ∃ t, s.step (.pollSend w') = .ok (.pending, t) := by
  obtain ⟨⟨v, hv⟩, b, hb, -, r, hr, st, hst, hid, hcap⟩ := h
  obtain ⟨c, hc⟩ : ∃ c : Inner T W,
      c = { b with value := { b.value with sender := register b.value.sender w' } } := ⟨_, rfl⟩
  have hreceivers : c.value.receivers = b.value.receivers := by rw [hc]
  have hshort : (sendPass c v).1.delivered ≠ s.receivers.length := by
    rw [(sendPass_pass c v).short_iff hi hb hreceivers]
    refine ⟨r, hr, st, hst, ?_⟩
    rw [hc]
    simp [hid, ReceiverState.room, hcap]
  have hstep := hi.pollSend_step hb hc (List.ne_nil_of_mem hr) v
  rw [if_neg hshort] at hstep
  simp only [Sys.step, hv]
  exact ⟨_, hstep⟩

omit [Waker W] in
private theorem Ordered.not_given (h : Ordered s) {b : Inner T W} {r : Receiver T W}
    (hb : s.inner = some b) (hs : s.Suspended) (hr : r ∈ s.receivers) (hu : HoldsUp b r) :
    s.sent.length - 1 ∉ r.log.positions := by
  obtain ⟨st, hst, hid, -⟩ := hu
  intro hgiven
  have hstamp := ((h.tracked b hb r hr st hst).holds hs).mpr hgiven
  apply hid
  rw [← UInt64.toNat_inj, hstamp, h.ids b hb]

/-- In every state that a run with fewer calls of `try_send` and `send` than there are
message ids reaches: a `recv` whose latest poll was pending and whose waker was not woken
since finds its buffer empty and the sender alive; and a `send` whose latest poll was pending
and whose waker was not woken since would be pending again, because a live receiver that was
not given its message has its buffer at capacity. -/
theorem broadcast_loses_no_wake_up [Target] [Layout T] (setup : Setup) (ops : List (Op T W))
    (hcalls : calls ops < 2 ^ 64 - 1) :
    ∃ outs s, run Sys.step (Sys.new setup.create : Sys T W) ops = .ok (outs, s) ∧
      (∀ r ∈ s.receivers, ∀ w n, r.pending = some (w, n) → ¬ WokenSince s.wakes w n →
        ∃ b st, s.inner = some b ∧ b.value.receivers.get? r.index = some st ∧
          st.buf.items = [] ∧ s.sender = true) ∧
      ∀ w n, s.sendPending = some (w, n) → ¬ WokenSince s.wakes w n →
        (∃ b v, s.inner = some b ∧ s.sending = some (.suspended v) ∧ s.sent.getLast? = some v ∧
          ∃ r ∈ s.receivers, s.sent.length - 1 ∉ r.log.positions ∧
            ∃ st, b.value.receivers.get? r.index = some st ∧ st.atCapacity = true) ∧
        ∀ w', ∃ t, s.step (.pollSend w') = .ok (.pending, t) := by
  have hmove : ∀ (s : Sys T W) op out t, Inv s → (Ordered s ∧ RecvAwake s ∧ SendAwake s) →
      s.started + op.calls < messageIds → Move s op out t →
      Ordered t ∧ RecvAwake t ∧ SendAwake t := by
    rintro s op out t hi ⟨ho, hr, hs⟩ hlt m
    exact ⟨ho.move hi hlt m, hr.move hi m, hs.move hi m⟩
  have hstart : RecvAwake (Sys.new setup.create : Sys T W) := fun r hr => by cases hr
  have hbound : (Sys.new setup.create : Sys T W).started + calls ops < messageIds := by
    show 0 + calls ops < messageIds
    unfold messageIds
    omega
  obtain ⟨outs, s, hr, ⟨hi, ho, hrecv, hsend⟩, -⟩ := run_keeps hmove (Inv.new setup)
    ⟨Ordered.new setup, hstart, Awake.idle⟩ ops hbound
  refine ⟨outs, s, hr, ?_, ?_⟩
  · intro r hmem w n hp hnot
    obtain ⟨b, st, hb, hst, hbuf, hs, -⟩ := (hrecv r hmem).asleep w n hp hnot
    exact ⟨b, st, hb, hst, hbuf, hs⟩
  · intro w n hp hnot
    have hasleep := hsend.asleep w n hp hnot
    constructor
    · obtain ⟨⟨v, hv⟩, b, hb, -, r, hmem, hu⟩ := hasleep
      have hmiss := ho.not_given hb ⟨v, hv⟩ hmem hu
      obtain ⟨st, hst, -, hcap⟩ := hu
      exact ⟨b, v, hb, hv, ho.current v hv, r, hmem, hmiss, st, hst, hcap⟩
    · exact hasleep.pending_again hi

/-- One of two receivers is full and the other one waits: a `send` reaches the latter, wakes
it, and waits for the former. -/
theorem broadcast_loses_no_wake_up_two_receivers :
    ∃ outs s, run (@Sys.step Nat Nat numberedWaker ⟨64, by decide⟩ ⟨false⟩)
        (Sys.new (Setup.bounded 1).create)
        [.subscribe 0, .trySend 7, .subscribe 1, .recv 1, .pollRecv 1 5, .send 8, .pollSend 3] =
          .ok (outs, s) ∧
      (∀ r ∈ s.receivers, ∀ w n, r.pending = some (w, n) →
        ¬ @WokenSince Nat numberedWaker s.wakes w n →
          ∃ b st, s.inner = some b ∧ b.value.receivers.get? r.index = some st ∧
            st.buf.items = [] ∧ s.sender = true) ∧
      ∀ w n, s.sendPending = some (w, n) → ¬ @WokenSince Nat numberedWaker s.wakes w n →
        (∃ b v, s.inner = some b ∧ s.sending = some (.suspended v) ∧ s.sent.getLast? = some v ∧
          ∃ r ∈ s.receivers, s.sent.length - 1 ∉ r.log.positions ∧
            ∃ st, b.value.receivers.get? r.index = some st ∧ st.atCapacity = true) ∧
        ∀ w', ∃ t, @Sys.step Nat Nat numberedWaker ⟨64, by decide⟩ ⟨false⟩ s (.pollSend w') =
          .ok (.pending, t) :=
  @broadcast_loses_no_wake_up Nat Nat numberedWaker ⟨64, by decide⟩ ⟨false⟩ (.bounded 1) _
    (by decide)

end Broadcast
end Unsync
