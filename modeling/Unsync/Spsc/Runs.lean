import Unsync.Spsc.Model

/-!
# Runs of a channel

A channel with its two ends as a transition system. The ends are borrowed by the futures
that they return, so each has at most one at a time and cannot be used or dropped
meanwhile. `Move` lists what one operation can do, and `Sys.step_move` proves that the code
does one of these.
-/

namespace Unsync
namespace Spsc

open Runs

/-- What became of a value given to `try_send` or `send`. -/
inductive Fate (T : Type) where
  | accepted
  /-- Handed back by `try_send`. -/
  | refused (error : SendError T)
  /-- Handed back by `send`. -/
  | disconnected (error : SendError T)
  /-- Dropped with the future of `send`. -/
  | cancelled
  deriving DecidableEq, Repr

/-- How a channel is made. -/
inductive Setup where
  | bounded (capacity : Nat)
  | unbounded
  deriving DecidableEq, Repr

/-- A channel and its ends: which of them exist, and the futures of `send` and `recv`. The
remaining fields record the value given to the current `send`, what became of all values,
what was received, whether `recv` ever resolved to `None`, the wakers woken and, for each
end, the waker of a latest poll that is pending with the number of wake-ups before it. -/
structure Sys (T W : Type) where
  inner : Option (Inner T W)
  sender : Bool
  receiver : Bool
  sending : Option (Send T)
  receiving : Bool
  offer : Option T
  settled : List (T × Fate T)
  received : List T
  ended : Bool
  wakes : List W
  sendPending : Option (W × Nat)
  recvPending : Option (W × Nat)
  deriving Repr

/-- What the holders of the two ends can do. -/
inductive Op (T W : Type) where
  | trySend (value : T)
  | send (value : T)
  | pollSend (waker : W)
  | cancelSend
  | recv
  | pollRecv (waker : W)
  | cancelRecv
  | dropSender
  | dropReceiver
  deriving DecidableEq, Repr

/-- What an operation returns. Operations that the borrow checker rejects are ignored. -/
inductive Out (T : Type) where
  | ignored
  | sent (result : Except (SendError T) Unit)
  | received (value : Option T)
  | pending
  | done

variable {T W : Type}

/-- The values that went into the channel, in order. -/
def accepted (settled : List (T × Fate T)) : List T :=
  settled.filterMap fun p => match p.2 with
    | .accepted => some p.1
    | _ => none

/-- Make a channel. -/
def Setup.create [Target] [Layout T] : Setup → Option (Inner T W)
  | .bounded capacity => channel capacity
  | .unbounded => some Spsc.unbounded

namespace Sys

/-- A new channel with both its ends, or nothing where making it panics. -/
def new (inner : Option (Inner T W)) : Sys T W :=
  ⟨inner, inner.isSome, inner.isSome, none, false, none, [], [], false, [], none, none⟩

/-- The sender exists and no future borrows it. -/
def senderFree (s : Sys T W) : Bool := s.sender && s.sending.isNone

/-- The receiver exists and no future borrows it. -/
def receiverFree (s : Sys T W) : Bool := s.receiver && !s.receiving

/-- The channel after a method returned. -/
def put (s : Sys T W) (inner : Option (Inner T W)) (woken : List W) : Sys T W :=
  { s with inner := inner, wakes := s.wakes ++ woken }

/-- The value of a finished call is accounted for. -/
def settle (s : Sys T W) (value : T) (fate : Fate T) : Sys T W :=
  { s with settled := s.settled ++ [(value, fate)] }

/-- The future of `send` is gone. -/
def endSend (s : Sys T W) : Sys T W :=
  { s with sending := none, offer := none, sendPending := none }

/-- The future of `recv` is gone. -/
def endRecv (s : Sys T W) : Sys T W := { s with receiving := false, recvPending := none }

/-- Account for the current `send`. -/
def settleOffer (s : Sys T W) (fate : Fate T) : Sys T W :=
  match s.offer with
  | some value => s.settle value fate
  | none => s

/-- Reach the interior, which a live end keeps allocated. -/
def access (s : Sys T W) : Except Fault (Inner T W) :=
  match s.inner with
  | some inner => .ok inner
  | none => .error .dangling

/-- Call `try_send`. -/
def trySend (s : Sys T W) (value : T) : Except Fault (Out T × Sys T W) := do
  let inner ← s.access
  let (result, inner, woken) := Spsc.trySend inner value
  let fate := match result with
    | .ok () => .accepted
    | .error error => .refused error
  .ok (.sent result, (s.put (some inner) woken).settle value fate)

variable [Waker W]

/-- Poll the future of `send`. -/
def pollSend (s : Sys T W) (send : Send T) (waker : W) : Except Fault (Out T × Sys T W) := do
  let inner ← s.access
  let (poll, send, inner, woken) ← send.poll inner waker
  let s := s.put (some inner) woken
  match poll with
  | .pending =>
    .ok (.pending, { s with sending := some send, sendPending := some (waker, s.wakes.length) })
  | .ready (.ok ()) => .ok (.sent (.ok ()), (s.settleOffer .accepted).endSend)
  | .ready (.error error) =>
    .ok (.sent (.error error), (s.settleOffer (.disconnected error)).endSend)

/-- Poll the future of `recv`. -/
def pollRecv (s : Sys T W) (waker : W) : Except Fault (Out T × Sys T W) := do
  let inner ← s.access
  let (poll, inner, woken) := recvPoll inner waker
  let s := s.put (some inner) woken
  match poll with
  | .pending => .ok (.pending, { s with recvPending := some (waker, s.wakes.length) })
  | .ready (some value) =>
    .ok (.received (some value), { s with received := s.received ++ [value] }.endRecv)
  | .ready none => .ok (.received none, { s with ended := true }.endRecv)

/-- One operation. -/
def step [Target] (s : Sys T W) : Op T W → Except Fault (Out T × Sys T W)
  | .trySend value => if s.senderFree then s.trySend value else .ok (.ignored, s)
  | .send value =>
    if s.senderFree then
      .ok (.done, { s with sending := some ⟨some value⟩, offer := some value })
    else .ok (.ignored, s)
  | .pollSend waker =>
    match s.sending with
    | some send => s.pollSend send waker
    | none => .ok (.ignored, s)
  | .cancelSend =>
    if s.sending.isSome then .ok (.done, (s.settleOffer .cancelled).endSend)
    else .ok (.ignored, s)
  | .recv => if s.receiverFree then .ok (.done, { s with receiving := true }) else .ok (.ignored, s)
  | .pollRecv waker => if s.receiving then s.pollRecv waker else .ok (.ignored, s)
  | .cancelRecv => if s.receiving then .ok (.done, s.endRecv) else .ok (.ignored, s)
  | .dropSender =>
    if s.senderFree then do
      let inner ← s.access
      let (inner, woken) := Spsc.dropSender inner
      .ok (.done, { s.put inner woken with sender := false })
    else .ok (.ignored, s)
  | .dropReceiver =>
    if s.receiverFree then do
      let inner ← s.access
      let (inner, woken) := Spsc.dropReceiver inner
      .ok (.done, { s.put inner woken with receiver := false })
    else .ok (.ignored, s)

end Sys

/-! ### What one operation can do -/

/-- The handles, and what the futures hold. -/
structure Inv (s : Sys T W) : Prop where
  counted : ∀ b, s.inner = some b → b.count = BiRc.handles s.sender s.receiver
  allocated : s.inner.isSome = (s.sender || s.receiver)
  sendAlive : ∀ send, s.sending = some send →
    s.sender = true ∧ ∃ v, send.value = some v ∧ s.offer = some v
  recvAlive : s.receiving = true → s.receiver = true

/-- The moves of a channel, each with the condition that selects it. -/
inductive Move [Waker W] (s : Sys T W) : Op T W → Out T → Sys T W → Prop where
  | ignored {op : Op T W} : Move s op .ignored s
  | trySent {b : Inner T W} {v : T} (hb : s.inner = some b) (hs : s.senderFree = true)
    (hr : s.receiver = true) (hc : b.value.atCapacity = false) :
    Move s (.trySend v) (.sent (.ok ()))
      ((s.put (some { b with value := b.value.pushBack v }) b.value.rx.toList).settle v .accepted)
  | tryRefused {b : Inner T W} {v : T} (hb : s.inner = some b) (hs : s.senderFree = true)
    (hc : s.receiver = false ∨ b.value.atCapacity = true) :
    Move s (.trySend v) (.sent (.error ⟨v⟩)) (s.settle v (.refused ⟨v⟩))
  | send {v : T} (hs : s.senderFree = true) :
    Move s (.send v) .done { s with sending := some ⟨some v⟩, offer := some v }
  | sent {b : Inner T W} {v : T} {w : W} (hb : s.inner = some b) (hs : s.sending = some ⟨some v⟩)
    (hr : s.receiver = true) (hc : b.value.atCapacity = false) :
    Move s (.pollSend w) (.sent (.ok ()))
      ((s.put (some { b with value := b.value.pushBack v }) b.value.rx.toList).settle v
        .accepted).endSend
  | sendPark {b : Inner T W} {v : T} {w : W} (hb : s.inner = some b)
    (hs : s.sending = some ⟨some v⟩) (hr : s.receiver = true) (hc : b.value.atCapacity = true) :
    Move s (.pollSend w) .pending
      { s with
        inner := some { b with value := { b.value with tx := register b.value.tx w } }
        sendPending := some (w, s.wakes.length) }
  | sendFail {b : Inner T W} {v : T} {w : W} (hb : s.inner = some b)
    (hs : s.sending = some ⟨some v⟩) (hr : s.receiver = false) :
    Move s (.pollSend w) (.sent (.error ⟨v⟩))
      ({ s with inner := some { b with value := { b.value with tx := none } } }.settle v
        (.disconnected ⟨v⟩)).endSend
  | cancelSend {v : T} (hs : s.sending = some ⟨some v⟩) :
    Move s .cancelSend .done (s.settle v .cancelled).endSend
  | recv (hr : s.receiverFree = true) : Move s .recv .done { s with receiving := true }
  | received {b : Inner T W} {v : T} {buf : VecDeque T} {w : W} (hb : s.inner = some b)
    (hr : s.receiving = true) (hv : b.value.buf.popFront = some (v, buf)) :
    Move s (.pollRecv w) (.received (some v))
      ({ s.put (some { b with value := { b.value with buf := buf } }) b.value.tx.toList with
        received := s.received ++ [v] }).endRecv
  | recvEnd {b : Inner T W} {w : W} (hb : s.inner = some b) (hr : s.receiving = true)
    (hv : b.value.buf.items = []) (hs : s.sender = false) :
    Move s (.pollRecv w) (.received none)
      ({ s with
        inner := some { b with value := { b.value with rx := none } }
        ended := true }).endRecv
  | recvPark {b : Inner T W} {w : W} (hb : s.inner = some b) (hr : s.receiving = true)
    (hv : b.value.buf.items = []) (hs : s.sender = true) :
    Move s (.pollRecv w) .pending
      { s.put (some { b with value := { b.value with rx := register b.value.rx w } })
          b.value.tx.toList with
        recvPending := some (w, s.wakes.length + b.value.tx.toList.length) }
  | cancelRecv (hr : s.receiving = true) : Move s .cancelRecv .done s.endRecv
  | dropSender {b : Inner T W} (hb : s.inner = some b) (hs : s.senderFree = true) :
    Move s .dropSender .done
      { s.put (if s.receiver then some ⟨{ b.value with rx := none }, 1⟩ else none)
          b.value.rx.toList with
        sender := false }
  | dropReceiver {b : Inner T W} (hb : s.inner = some b) (hr : s.receiverFree = true) :
    Move s .dropReceiver .done
      { s.put (if s.sender then some ⟨{ b.value with tx := none }, 1⟩ else none)
          b.value.tx.toList with
        receiver := false }

section Steps

variable {s : Sys T W}

/-- A live end reaches the interior. -/
theorem access_of_alive (h : Inv s) (ha : (s.sender || s.receiver) = true) :
    ∃ b, s.inner = some b ∧ s.access = .ok b ∧
      b.bothPresent = (s.sender && s.receiver) := by
  have hal := h.allocated
  rw [ha] at hal
  obtain ⟨b, hb⟩ := Option.isSome_iff_exists.mp hal
  exact ⟨b, hb, by rw [Sys.access, hb], BiRc.bothPresent_iff (h.counted b hb)⟩

/-- What it takes to use the sender. -/
theorem senderFree_iff : s.senderFree = true ↔ s.sender = true ∧ s.sending = none := by
  simp [Sys.senderFree]

/-- What it takes to use the receiver. -/
theorem receiverFree_iff :
    s.receiverFree = true ↔ s.receiver = true ∧ s.receiving = false := by
  simp [Sys.receiverFree]

variable [Waker W]

/-- `try_send` is one of the moves. -/
theorem Inv.trySend_move (h : Inv s) (v : T) (hs : s.senderFree = true) :
    ∃ out t, s.trySend v = .ok (out, t) ∧ Move s (.trySend v) out t := by
  have hsender := (senderFree_iff.mp hs).1
  obtain ⟨b, hb, hacc, hboth⟩ := access_of_alive h (by simp [hsender])
  rw [hsender, Bool.true_and] at hboth
  by_cases hc : s.receiver = true ∧ b.value.atCapacity = false
  · refine ⟨_, _, ?_, .trySent hb hs hc.1 hc.2⟩
    simp [Sys.trySend, hacc, Spsc.trySend, hboth, hc]
  · have hc' : s.receiver = false ∨ b.value.atCapacity = true := by
      by_cases hr : s.receiver = true
      · exact Or.inr (by simpa [hr] using hc)
      · exact Or.inl (by simpa using hr)
    refine ⟨_, _, ?_, .tryRefused hb hs hc'⟩
    have hput : s.put (some b) [] = s := by simp [Sys.put, ← hb]
    rcases hc' with hr | hcap
    · simp [Sys.trySend, hacc, Spsc.trySend, hboth, hr, hput]
    · simp [Sys.trySend, hacc, Spsc.trySend, hcap, hput]

/-- A poll of `send` is one of the moves. -/
theorem Inv.pollSend_move (h : Inv s) {send : Send T} (hs : s.sending = some send) (w : W) :
    ∃ out t, s.pollSend send w = .ok (out, t) ∧ Move s (.pollSend w) out t := by
  obtain ⟨hsender, v, hv, hoffer⟩ := h.sendAlive send hs
  obtain ⟨value⟩ := send
  simp only at hv
  subst hv
  obtain ⟨b, hb, hacc, hboth⟩ := access_of_alive h (by simp [hsender])
  rw [hsender, Bool.true_and] at hboth
  cases hr : s.receiver with
  | false =>
    refine ⟨_, _, ?_, .sendFail hb hs hr⟩
    rw [hr] at hboth
    simp [Sys.pollSend, hacc, Send.poll, hboth, Sys.settleOffer, Sys.put, hoffer]
  | true =>
    rw [hr] at hboth
    cases hc : b.value.atCapacity with
    | true =>
      refine ⟨_, _, ?_, .sendPark hb hs hr hc⟩
      simp [Sys.pollSend, hacc, Send.poll, hboth, hc, Sys.put, ← hs]
    | false =>
      refine ⟨_, _, ?_, .sent hb hs hr hc⟩
      simp [Sys.pollSend, hacc, Send.poll, hboth, hc, Sys.settleOffer, Sys.put, hoffer]

/-- A poll of `recv` finds the channel empty and the sender gone. -/
theorem Inv.pollRecv_end (h : Inv s) {b : Inner T W} (hb : s.inner = some b)
    (hv : b.value.buf.items = []) (hs : s.sender = false) (w : W) :
    s.pollRecv w = .ok (.received none, ({ s with
      inner := some { b with value := { b.value with rx := none } }
      ended := true }).endRecv) := by
  have hboth := BiRc.bothPresent_iff (h.counted b hb)
  rw [hs, Bool.false_and] at hboth
  have hpop := VecDeque.popFront_eq_none.mpr hv
  simp [Sys.pollRecv, Sys.access, hb, recvPoll, hpop, hboth, Sys.put]

/-- A poll of `recv` is one of the moves. -/
theorem Inv.pollRecv_move (h : Inv s) (hr : s.receiving = true) (w : W) :
    ∃ out t, s.pollRecv w = .ok (out, t) ∧ Move s (.pollRecv w) out t := by
  have hreceiver := h.recvAlive hr
  obtain ⟨b, hb, hacc, hboth⟩ := access_of_alive h (by simp [hreceiver])
  rw [hreceiver, Bool.and_true] at hboth
  cases hpop : b.value.buf.popFront with
  | some p =>
    obtain ⟨v, buf⟩ := p
    refine ⟨_, _, ?_, .received hb hr hpop⟩
    simp [Sys.pollRecv, hacc, recvPoll, hpop, Sys.put]
  | none =>
    have hv := VecDeque.popFront_eq_none.mp hpop
    cases hs : s.sender with
    | false =>
      exact ⟨_, _, h.pollRecv_end hb hv hs w, .recvEnd hb hr hv hs⟩
    | true =>
      refine ⟨_, _, ?_, .recvPark hb hr hv hs⟩
      rw [hs] at hboth
      simp [Sys.pollRecv, hacc, recvPoll, hpop, hboth, Sys.put]

/-- Every operation succeeds and is one of the moves. -/
theorem Inv.step_move [Target] (h : Inv s) (op : Op T W) :
    ∃ out t, s.step op = .ok (out, t) ∧ Move s op out t := by
  cases op with
  | trySend v =>
    by_cases hs : s.senderFree = true
    · rw [Sys.step, if_pos hs]
      exact h.trySend_move v hs
    · exact ⟨_, _, by rw [Sys.step, if_neg hs], .ignored⟩
  | send v =>
    by_cases hs : s.senderFree = true
    · exact ⟨_, _, by rw [Sys.step, if_pos hs], .send hs⟩
    · exact ⟨_, _, by rw [Sys.step, if_neg hs], .ignored⟩
  | pollSend w =>
    cases hs : s.sending with
    | none => exact ⟨_, _, by rw [Sys.step, hs], .ignored⟩
    | some send =>
      simp only [Sys.step, hs]
      exact h.pollSend_move hs w
  | cancelSend =>
    cases hs : s.sending with
    | none => exact ⟨_, _, by rw [Sys.step, hs]; rfl, .ignored⟩
    | some send =>
      obtain ⟨-, v, hv, hoffer⟩ := h.sendAlive send hs
      obtain ⟨value⟩ := send
      simp only at hv
      subst hv
      refine ⟨_, _, ?_, .cancelSend hs⟩
      simp [Sys.step, hs, Sys.settleOffer, hoffer]
  | recv =>
    by_cases hr : s.receiverFree = true
    · exact ⟨_, _, by rw [Sys.step, if_pos hr], .recv hr⟩
    · exact ⟨_, _, by rw [Sys.step, if_neg hr], .ignored⟩
  | pollRecv w =>
    by_cases hr : s.receiving = true
    · rw [Sys.step, if_pos hr]
      exact h.pollRecv_move hr w
    · exact ⟨_, _, by rw [Sys.step, if_neg hr], .ignored⟩
  | cancelRecv =>
    by_cases hr : s.receiving = true
    · exact ⟨_, _, by rw [Sys.step, if_pos hr], .cancelRecv hr⟩
    · exact ⟨_, _, by rw [Sys.step, if_neg hr], .ignored⟩
  | dropSender =>
    by_cases hs : s.senderFree = true
    · have hsender := (senderFree_iff.mp hs).1
      obtain ⟨b, hb, hacc, -⟩ := access_of_alive h (by simp [hsender])
      have hcount := h.counted b hb
      rw [hsender] at hcount
      refine ⟨_, _, ?_, .dropSender hb hs⟩
      have hdrop := BiRc.drop_eq (b := { b with value := { b.value with rx := none } }) hcount
      simp only [Sys.step, hs, if_true, hacc, ok_bind, Spsc.dropSender, hdrop]
      cases s.receiver <;> rfl
    · exact ⟨_, _, by rw [Sys.step, if_neg hs], .ignored⟩
  | dropReceiver =>
    by_cases hr : s.receiverFree = true
    · have hreceiver := (receiverFree_iff.mp hr).1
      obtain ⟨b, hb, hacc, -⟩ := access_of_alive h (by simp [hreceiver])
      have hcount := h.counted b hb
      rw [hreceiver, BiRc.handles_comm] at hcount
      refine ⟨_, _, ?_, .dropReceiver hb hr⟩
      have hdrop := BiRc.drop_eq (b := { b with value := { b.value with tx := none } }) hcount
      simp only [Sys.step, hr, if_true, hacc, ok_bind, Spsc.dropReceiver, hdrop]
      cases s.sender <;> rfl
    · exact ⟨_, _, by rw [Sys.step, if_neg hr], .ignored⟩

omit [Waker W] in
private theorem counted_of (h : Inv s) {b : Inner T W} (hb : s.inner = some b)
    (shared : Shared T W) : ∀ b', some { b with value := shared } = some b' →
      b'.count = BiRc.handles s.sender s.receiver := by
  rintro _ ⟨⟩
  exact h.counted b hb

omit [Waker W] in
private theorem allocated_of (h : Inv s) {b : Inner T W} (hb : s.inner = some b)
    (b' : Inner T W) : (some b').isSome = (s.sender || s.receiver) := by
  rw [← h.allocated, hb]
  rfl

/-- Every move keeps the handles in order. -/
theorem Inv.move (h : Inv s) {op : Op T W} {out : Out T} {t : Sys T W} (m : Move s op out t) :
    Inv t := by
  cases m with
  | ignored => exact h
  | trySent hb hs hr hc => exact ⟨counted_of h hb _, allocated_of h hb _, h.sendAlive, h.recvAlive⟩
  | tryRefused hb hs hc => exact ⟨h.counted, h.allocated, h.sendAlive, h.recvAlive⟩
  | @send v hs =>
    refine ⟨h.counted, h.allocated, ?_, h.recvAlive⟩
    rintro _ ⟨⟩
    exact ⟨(senderFree_iff.mp hs).1, v, rfl, rfl⟩
  | sent hb hs hr hc =>
    exact ⟨counted_of h hb _, allocated_of h hb _, fun _ hn => (by cases hn), h.recvAlive⟩
  | sendPark hb hs hr hc =>
    exact ⟨counted_of h hb _, allocated_of h hb _, h.sendAlive, h.recvAlive⟩
  | sendFail hb hs hr =>
    exact ⟨counted_of h hb _, allocated_of h hb _, fun _ hn => (by cases hn), h.recvAlive⟩
  | cancelSend hs => exact ⟨h.counted, h.allocated, fun _ hn => (by cases hn), h.recvAlive⟩
  | recv hr => exact ⟨h.counted, h.allocated, h.sendAlive, fun _ => (receiverFree_iff.mp hr).1⟩
  | received hb hr hv =>
    exact ⟨counted_of h hb _, allocated_of h hb _, h.sendAlive, fun hn => (by cases hn)⟩
  | recvEnd hb hr hv hs =>
    exact ⟨counted_of h hb _, allocated_of h hb _, h.sendAlive, fun hn => (by cases hn)⟩
  | recvPark hb hr hv hs =>
    exact ⟨counted_of h hb _, allocated_of h hb _, h.sendAlive, h.recvAlive⟩
  | cancelRecv hr => exact ⟨h.counted, h.allocated, h.sendAlive, fun hn => (by cases hn)⟩
  | @dropSender b hb hs =>
    refine ⟨?_, ?_, ?_, h.recvAlive⟩
    · intro b' hb'
      cases hr : s.receiver with
      | false => simp [Sys.put, hr] at hb'
      | true =>
        simp only [Sys.put, hr, if_true, Option.some.injEq] at hb'
        simp [← hb', Sys.put, hr, BiRc.handles]
    · cases hr : s.receiver <;> simp [Sys.put, hr]
    · intro send hsend
      have hnone := (senderFree_iff.mp hs).2
      simp only [Sys.put, hnone] at hsend
      cases hsend
  | @dropReceiver b hb hr =>
    refine ⟨?_, ?_, h.sendAlive, ?_⟩
    · intro b' hb'
      cases hs : s.sender with
      | false => simp [Sys.put, hs] at hb'
      | true =>
        simp only [Sys.put, hs, if_true, Option.some.injEq] at hb'
        simp [← hb', Sys.put, hs, BiRc.handles]
    · cases hs : s.sender <;> simp [Sys.put, hs]
    · intro hrecv
      have hfalse := (receiverFree_iff.mp hr).2
      simp only [Sys.put, hfalse] at hrecv
      cases hrecv

omit [Waker W] in
/-- A new channel has two handles and is empty. -/
theorem Setup.create_eq [Target] [Layout T] {setup : Setup} {b : Inner T W}
    (hb : setup.create = some b) : b.count = 2 ∧ b.value.buf.items = [] := by
  cases setup with
  | unbounded =>
    rw [← Option.some.inj hb]
    exact ⟨rfl, rfl⟩
  | bounded capacity =>
    simp only [Setup.create, channel] at hb
    split at hb
    · rw [← Option.some.inj hb]
      exact ⟨rfl, rfl⟩
    · cases hb

omit [Waker W] in
/-- A new channel has both its handles, or was never made. -/
theorem Inv.new [Target] [Layout T] (setup : Setup) :
    Inv (Sys.new (setup.create : Option (Inner T W))) := by
  refine ⟨fun b hb => ?_, by simp [Sys.new], fun _ hn => (by cases hn), fun hn => (by cases hn)⟩
  rw [(Setup.create_eq hb).1]
  simp only [Sys.new] at hb ⊢
  rw [hb]
  rfl

/-- Every operation succeeds, is one of the moves and keeps the handles in order. -/
theorem Inv.step [Target] (h : Inv s) (op : Op T W) :
    ∃ out t, s.step op = .ok (out, t) ∧ Move s op out t ∧ Inv t := by
  obtain ⟨out, t, hs, m⟩ := h.step_move op
  exact ⟨out, t, hs, m, h.move m⟩

/-- What every move keeps holds at the end of every run. -/
theorem run_keeps [Target] {P : Sys T W → Prop}
    (hmove : ∀ s op out t, Inv s → P s → Move s op out t → P t) {s : Sys T W} (h : Inv s)
    (hp : P s) (ops : List (Op T W)) :
    ∃ outs t, run Sys.step s ops = .ok (outs, t) ∧ Inv t ∧ P t := by
  have hstep : ∀ (s : Sys T W) (op : Op T W), (Inv s ∧ P s) →
      ∃ out t, s.step op = .ok (out, t) ∧ Inv t ∧ P t := by
    rintro s op ⟨hi, hp⟩
    obtain ⟨out, t, hs, m, ht⟩ := hi.step op
    exact ⟨out, t, hs, ht, hmove s op out t hi hp m⟩
  exact run_invariant hstep ⟨h, hp⟩ ops

end Steps

end Spsc
end Unsync
