import Unsync.Spsc.Runs
import Unsync.Wakes

/-!
# No lost wake-up

A poll that stays pending leaves its waker with the channel, and whatever could let the next
poll succeed wakes it. So while the waker of a latest poll has not been woken, the next poll
would be pending again, and the waker is still registered.
-/

namespace Unsync
namespace Spsc

open Runs

variable {T W : Type} [Waker W]

/-- A pending `recv` whose task was not woken waits for a message of a live sender. -/
def RecvAsleep (s : Sys T W) (waker : W) : Prop :=
  ∃ b, s.inner = some b ∧ b.value.buf.items = [] ∧ s.sender = true ∧ Registered b.value.rx waker

/-- A pending `send` whose task was not woken waits for a live receiver to make room. -/
def SendAsleep (s : Sys T W) (waker : W) : Prop :=
  ∃ b, s.inner = some b ∧ b.value.atCapacity = true ∧ s.receiver = true ∧
    Registered b.value.tx waker

/-- The latest poll of `recv` was woken or would be pending again. -/
abbrev RecvAwake (s : Sys T W) : Prop :=
  Awake s.wakes s.recvPending s.receiving (RecvAsleep s)

/-- The latest poll of `send` was woken or would be pending again. -/
abbrev SendAwake (s : Sys T W) : Prop :=
  Awake s.wakes s.sendPending s.sending.isSome (SendAsleep s)

variable {s t : Sys T W}

private theorem RecvAsleep.registered {w : W} (h : RecvAsleep s w) {b : Inner T W}
    (hb : s.inner = some b) : Registered b.value.rx w := by
  obtain ⟨c, hc, -, -, hr⟩ := h
  rw [hb, Option.some.injEq] at hc
  rw [hc]
  exact hr

private theorem SendAsleep.registered {w : W} (h : SendAsleep s w) {b : Inner T W}
    (hb : s.inner = some b) : Registered b.value.tx w := by
  obtain ⟨c, hc, -, -, hr⟩ := h
  rw [hb, Option.some.injEq] at hc
  rw [hc]
  exact hr

private theorem RecvAsleep.keep {w : W} (h : RecvAsleep s w) {b b' : Inner T W}
    (hb : s.inner = some b) (ht : t.inner = some b') (hv : b'.value.buf.items = b.value.buf.items)
    (hx : b'.value.rx = b.value.rx) (hs : t.sender = s.sender) : RecvAsleep t w := by
  obtain ⟨c, hc, hbuf, hsend, hr⟩ := h
  rw [hb, Option.some.injEq] at hc
  subst hc
  exact ⟨b', ht, hv.trans hbuf, hs.trans hsend, by rw [hx]; exact hr⟩

private theorem SendAsleep.keep {w : W} (h : SendAsleep s w) {b b' : Inner T W}
    (hb : s.inner = some b) (ht : t.inner = some b') (hv : b'.value.atCapacity = b.value.atCapacity)
    (hx : b'.value.tx = b.value.tx) (hr : t.receiver = s.receiver) : SendAsleep t w := by
  obtain ⟨c, hc, hcap, hrecv, htx⟩ := h
  rw [hb, Option.some.injEq] at hc
  subst hc
  exact ⟨b', ht, hv.trans hcap, hr.trans hrecv, by rw [hx]; exact htx⟩

private theorem RecvAwake.recvPending_none (h : RecvAwake s) (hr : s.receiverFree = true) :
    s.recvPending = none :=
  h.pending_none (receiverFree_iff.mp hr).2

private theorem SendAwake.sendPending_none (h : SendAwake s) (hs : s.senderFree = true) :
    s.sendPending = none :=
  h.pending_none (by rw [(senderFree_iff.mp hs).2]; rfl)

/-- Every move wakes a pending `recv` or leaves it asleep. -/
theorem RecvAwake.move (h : RecvAwake s) {op : Op T W} {out : Out T} (m : Move s op out t) :
    RecvAwake t := by
  cases m with
  | ignored => exact h
  | trySent hb hs hr hc => exact h.wake fun w ha => ha.registered hb
  | tryRefused hb hs hc => exact h.keep_wakes id fun w ha => ha.keep hb hb rfl rfl rfl
  | send hs => exact h.keep_wakes id fun w ha => ha
  | sent hb hs hr hc => exact h.wake fun w ha => ha.registered hb
  | sendPark hb hs hr hc => exact h.keep_wakes id fun w ha => ha.keep hb rfl rfl rfl rfl
  | sendFail hb hs hr => exact h.keep_wakes id fun w ha => ha.keep hb rfl rfl rfl rfl
  | cancelSend hs => exact h.keep_wakes id fun w ha => ha
  | recv hr => exact h.keep_wakes (fun _ => rfl) fun w ha => ha
  | received hb hr hv => exact Awake.idle
  | recvEnd hb hr hv hs => exact Awake.idle
  | @recvPark b w hb hr hv hs =>
    have hpark : RecvAsleep (s.put (some { b with value := { b.value with
        rx := register b.value.rx w } }) b.value.tx.toList) w :=
      ⟨_, rfl, hv, hs, register_task b.value.rx w⟩
    show Awake (s.wakes ++ b.value.tx.toList) (some (w, _)) _ _
    rw [← List.length_append]
    exact Awake.park hr hpark
  | cancelRecv hr => exact Awake.idle
  | dropSender hb hs => exact h.wake fun w ha => ha.registered hb
  | dropReceiver hb hr =>
    show Awake _ s.recvPending _ _
    rw [h.recvPending_none hr]
    exact Awake.idle

/-- Every move wakes a pending `send` or leaves it asleep. -/
theorem SendAwake.move (h : SendAwake s) {op : Op T W} {out : Out T} (m : Move s op out t) :
    SendAwake t := by
  have hidle : ∀ {wakes : List W} {live : Bool} {asleep : W → Prop}, s.senderFree = true →
      Awake wakes s.sendPending live asleep := by
    intro wakes live asleep hs
    rw [h.sendPending_none hs]
    exact Awake.idle
  cases m with
  | ignored => exact h
  | trySent hb hs hr hc => exact hidle hs
  | tryRefused hb hs hc => exact hidle hs
  | send hs => exact hidle hs
  | sent hb hs hr hc => exact Awake.idle
  | @sendPark b v w hb hs hr hc =>
    exact Awake.park (by rw [hs]; rfl) ⟨_, rfl, hc, hr, register_task b.value.tx w⟩
  | sendFail hb hs hr => exact Awake.idle
  | cancelSend hs => exact Awake.idle
  | recv hr => exact h.keep_wakes id fun w ha => ha
  | received hb hr hv => exact h.wake fun w ha => ha.registered hb
  | recvEnd hb hr hv hs => exact h.keep_wakes id fun w ha => ha.keep hb rfl rfl rfl rfl
  | recvPark hb hr hv hs => exact h.wake fun w ha => ha.registered hb
  | cancelRecv hr => exact h.keep_wakes id fun w ha => ha
  | dropSender hb hs => exact hidle hs
  | dropReceiver hb hr => exact h.wake fun w ha => ha.registered hb

/-- In every reachable state of a channel, a `recv` whose latest poll was pending and whose
waker was not woken since finds the buffer empty, the sender alive and its task registered;
a `send` whose latest poll was pending and whose waker was not woken since finds the buffer
at capacity, the receiver alive and its task registered. -/
theorem no_lost_wake_up [Target] [Layout T] (setup : Setup) (ops : List (Op T W)) :
    ∃ outs s, run Sys.step (Sys.new setup.create : Sys T W) ops = .ok (outs, s) ∧
      (∀ w n, s.recvPending = some (w, n) → ¬ WokenSince s.wakes w n → RecvAsleep s w) ∧
      (∀ w n, s.sendPending = some (w, n) → ¬ WokenSince s.wakes w n → SendAsleep s w) := by
  have hmove : ∀ (s : Sys T W) op out t, Inv s → RecvAwake s ∧ SendAwake s →
      Move s op out t → RecvAwake t ∧ SendAwake t := by
    rintro s op out t - ⟨hr, hs⟩ m
    exact ⟨RecvAwake.move hr m, SendAwake.move hs m⟩
  obtain ⟨outs, s, hr, -, hrecv, hsend⟩ := run_keeps (P := fun s => RecvAwake s ∧ SendAwake s)
    hmove (Inv.new setup) ⟨Awake.idle, Awake.idle⟩ ops
  exact ⟨outs, s, hr, hrecv.asleep, hsend.asleep⟩

end Spsc
end Unsync
