import Unsync.Broadcast.Model

/-!
# Runs of a broadcast channel

A channel with its sender and any number of receivers as a transition system. The ends are
borrowed by the futures that they return, so each has at most one at a time and cannot be
used or dropped meanwhile. `Move` lists what one operation can do, and `Inv.step_move`
proves that the code does one of these.
-/

namespace Unsync
namespace Broadcast

open Runs

/-- What happened to a receiver: how many messages were sent before it subscribed, the
messages appended to its buffer with their position among all messages sent, what it
received, and whether `recv` ever resolved to `None`. -/
structure Log (T : Type) where
  since : Nat
  pushed : List (Nat × T)
  received : List T
  ended : Bool
  deriving DecidableEq, Repr

/-- A `Receiver`, `src/broadcast.rs:345–348`: its index, whether a future of `recv` borrows
it, the waker of a latest poll that is pending with the number of wake-ups before it, and
what happened to it. -/
structure Receiver (T W : Type) where
  index : Nat
  receiving : Bool
  pending : Option (W × Nat)
  log : Log T
  deriving Repr

/-- How a channel is made. -/
inductive Setup where
  | bounded (capacity : Nat)
  | unbounded
  deriving DecidableEq, Repr

/-- A channel and its ends: whether the sender exists, the future of `send`, and the live
receivers. The remaining fields record what happened to dropped receivers, the messages in
the order in which they were sent, the wakers woken, and the waker of a latest poll of
`send` that is pending with the number of wake-ups before it. -/
structure Sys (T W : Type) where
  inner : Option (Inner T W)
  sender : Bool
  sending : Option (Sending T)
  receivers : List (Receiver T W)
  retired : List (Log T)
  sent : List T
  wakes : List W
  sendPending : Option (W × Nat)

/-- What the holders of the ends can do. A receiver is named by its position among the live
ones, and a new one comes with the key that the slab picks for it. -/
inductive Op (T W : Type) where
  | subscribe (key : Nat)
  | trySend (value : T)
  | send (value : T)
  | pollSend (waker : W)
  | cancelSend
  | recv (i : Nat)
  | pollRecv (i : Nat) (waker : W)
  | cancelRecv (i : Nat)
  | dropSender
  | dropReceiver (i : Nat)
  deriving DecidableEq, Repr

/-- What an operation returns. Operations that the borrow checker rejects are ignored. -/
inductive Out (T : Type) where
  | ignored
  | trySent (result : Except UnderCapacity Nat)
  | sent (n : Nat)
  | received (value : Option T)
  | pending
  | done

/-- The calls that send a message: `try_send` and `send`. -/
def Op.calls {T W : Type} : Op T W → Nat
  | .trySend _ | .send _ => 1
  | _ => 0

/-- How often the operations send a message. -/
def calls {T W : Type} (ops : List (Op T W)) : Nat := (ops.map Op.calls).sum

/-- The number of message ids. -/
def messageIds : Nat := 2 ^ 64 - 1

variable {T W : Type}

/-- Make a channel. -/
def Setup.create : Setup → Option (Inner T W)
  | .bounded capacity => channel capacity
  | .unbounded => some Broadcast.unbounded

/-- The message at a position was appended to the buffer so many times. -/
def Log.push (log : Log T) (position : Nat) (value : T) (times : Nat) : Log T :=
  { log with pushed := log.pushed ++ List.replicate times (position, value) }

namespace Sys

/-- A new channel with its sender, or nothing where making it panics. -/
def new (inner : Option (Inner T W)) : Sys T W :=
  ⟨inner, inner.isSome, none, [], [], [], [], none⟩

/-- The sender exists and no future borrows it. -/
def senderFree (s : Sys T W) : Bool := s.sender && s.sending.isNone

/-- The messages sent, and one whose future was not polled yet. -/
def started (s : Sys T W) : Nat :=
  s.sent.length + match s.sending with
    | some (.unresumed _) => 1
    | _ => 0

/-- The channel after a method returned. -/
def put (s : Sys T W) (inner : Option (Inner T W)) (woken : List W) : Sys T W :=
  { s with inner := inner, wakes := s.wakes ++ woken }

/-- A message is sent, which bumps the message id. -/
def begin (s : Sys T W) (inner : Inner T W) (value : T) : Sys T W :=
  { s with inner := some inner, sent := s.sent ++ [value] }

/-- The message sent last was appended under the given keys. -/
def handOut (s : Sys T W) (value : T) (keys : List Nat) : Sys T W :=
  { s with receivers := s.receivers.map fun r =>
      { r with log := r.log.push (s.sent.length - 1) value (keys.count r.index) } }

/-- The future of `send` is gone. -/
def endSend (s : Sys T W) : Sys T W := { s with sending := none, sendPending := none }

/-- A receiver changed. -/
def setReceiver (s : Sys T W) (i : Nat) (r : Receiver T W) : Sys T W :=
  { s with receivers := s.receivers.set i r }

/-- Reach the interior, which a live end keeps allocated. -/
def access (s : Sys T W) : Except Fault (Inner T W) :=
  match s.inner with
  | some inner => .ok inner
  | none => .error .dangling

/-- Call `subscribe`. The slab picks a vacant key, and can hold `usize::MAX` entries. -/
def subscribe [Target] [Layout T] (s : Sys T W) (key : Nat) : Except Fault (Out T × Sys T W) := do
  let inner ← s.access
  if key ∈ inner.value.receivers.keys ∨ usizeMax ≤ key then .ok (.ignored, s)
  else
    let inner ← Broadcast.subscribe inner key
    .ok (.done, { s.put (some inner) [] with
      receivers := s.receivers ++ [⟨key, false, none, ⟨s.sent.length, [], [], false⟩⟩] })

/-- Call `try_send`. -/
def trySend (s : Sys T W) (value : T) : Except Fault (Out T × Sys T W) := do
  let inner ← s.access
  let (result, inner, d) := Broadcast.trySend inner value
  .ok (.trySent result, ((s.begin inner value).put (some inner) d.woken).handOut value d.pushed)

/-- The first poll of the future of `send` runs its body up to the `Send`,
`src/broadcast.rs:272–278`. -/
def resume (s : Sys T W) (value : T) : Except Fault (Sys T W) := do
  let inner ← s.access
  .ok { s.begin { inner with value := bumpMessageId inner.value } value with
    sending := some (.suspended value) }

/-- Drop a `Receiver`. -/
def dropReceiver [Target] (s : Sys T W) (i : Nat) (r : Receiver T W) :
    Except Fault (Out T × Sys T W) := do
  let inner ← s.access
  let (inner, woken) ← Broadcast.dropReceiver inner r.index
  .ok (.done, { s.put inner woken with
    receivers := s.receivers.eraseIdx i
    retired := s.retired ++ [r.log] })

/-- Use a receiver, if it is there and is borrowed by a future of `recv` or not. -/
def withReceiver (s : Sys T W) (i : Nat) (borrowed : Bool)
    (use : Receiver T W → Except Fault (Out T × Sys T W)) : Except Fault (Out T × Sys T W) :=
  match s.receivers[i]? with
  | some r => if r.receiving = borrowed then use r else .ok (.ignored, s)
  | none => .ok (.ignored, s)

variable [Waker W]

/-- Poll the `Send` inside the future of `send`. -/
def pollSend (s : Sys T W) (value : T) (waker : W) : Except Fault (Out T × Sys T W) := do
  let inner ← s.access
  let (poll, inner, d) := sendPoll value inner waker
  let s := (s.put (some inner) d.woken).handOut value d.pushed
  match poll with
  | .pending => .ok (.pending, { s with sendPending := some (waker, s.wakes.length) })
  | .ready n => .ok (.sent n, s.endSend)

/-- Poll the future of `recv`. -/
def pollRecv (s : Sys T W) (i : Nat) (waker : W) (r : Receiver T W) :
    Except Fault (Out T × Sys T W) := do
  let inner ← s.access
  let (poll, inner, woken) := recvPoll inner r.index waker
  let s := s.put (some inner) woken
  match poll with
  | .pending =>
    .ok (.pending, s.setReceiver i { r with pending := some (waker, s.wakes.length) })
  | .ready (some value) =>
    .ok (.received (some value), s.setReceiver i ⟨r.index, false, none,
      { r.log with received := r.log.received ++ [value] }⟩)
  | .ready none =>
    .ok (.received none, s.setReceiver i ⟨r.index, false, none, { r.log with ended := true }⟩)

/-- One operation. -/
def step [Target] [Layout T] (s : Sys T W) : Op T W → Except Fault (Out T × Sys T W)
  | .subscribe key => if s.senderFree then s.subscribe key else .ok (.ignored, s)
  | .trySend value => if s.senderFree then s.trySend value else .ok (.ignored, s)
  | .send value =>
    if s.senderFree then .ok (.done, { s with sending := some (.unresumed value) })
    else .ok (.ignored, s)
  | .pollSend waker =>
    match s.sending with
    | some (.unresumed value) => do
      let s ← s.resume value
      s.pollSend value waker
    | some (.suspended value) => s.pollSend value waker
    | none => .ok (.ignored, s)
  | .cancelSend => if s.sending.isSome then .ok (.done, s.endSend) else .ok (.ignored, s)
  | .recv i => s.withReceiver i false fun r =>
    .ok (.done, s.setReceiver i { r with receiving := true })
  | .pollRecv i waker => s.withReceiver i true (s.pollRecv i waker)
  | .cancelRecv i => s.withReceiver i true fun r =>
    .ok (.done, s.setReceiver i { r with receiving := false, pending := none })
  | .dropSender =>
    if s.senderFree then do
      let inner ← s.access
      let (inner, woken) ← Broadcast.dropSender inner
      .ok (.done, { s.put inner woken with sender := false })
    else .ok (.ignored, s)
  | .dropReceiver i => s.withReceiver i false (s.dropReceiver i)

end Sys

/-! ### What one operation can do -/

/-- The handles, and the entries behind them. -/
structure Inv [Target] (s : Sys T W) : Prop where
  allocated : s.inner.isSome = (s.sender || !s.receivers.isEmpty)
  strong : ∀ b, s.inner = some b → b.strong = s.sender.toNat
  weak : ∀ b, s.inner = some b → b.weak = s.receivers.length
  keys : ∀ b, s.inner = some b →
    (s.receivers.map Receiver.index).Perm b.value.receivers.keys
  bounded : ∀ b, s.inner = some b → ∀ k ∈ b.value.receivers.keys, k < usizeMax
  sendAlive : s.sending.isSome = true → s.sender = true

/-- The channel once the future of `send` was polled: its message is sent. -/
def Sys.Resumed (s : Sys T W) (value : T) (u : Sys T W) : Prop :=
  s.sending = some (.suspended value) ∧ u = s ∨
    s.sending = some (.unresumed value) ∧ ∃ b, s.inner = some b ∧
      u = { s.begin { b with value := bumpMessageId b.value } value with
        sending := some (.suspended value) }

/-- The channel after a loop over the receivers delivered the message sent last. -/
def Sys.deliver (s : Sys T W) (b : Inner T W) (value : T)
    (pass : Delivery W × Slab (ReceiverState T W)) : Sys T W :=
  (s.put (some { b with value := { b.value with receivers := pass.2 } }) pass.1.woken).handOut
    value pass.1.pushed

/-- The loop of `try_send`. -/
def tryPass (b : Inner T W) (value : T) : Delivery W × Slab (ReceiverState T W) :=
  b.value.receivers.forEach (ReceiverState.tryDeliver value) .start

/-- The loop of `Send::poll`. -/
def sendPass (b : Inner T W) (value : T) : Delivery W × Slab (ReceiverState T W) :=
  b.value.receivers.forEach (ReceiverState.deliver b.value.id value) .start

/-- The interior with a receiver changed. -/
def setState (b : Inner T W) (index : Nat) (st : ReceiverState T W) : Inner T W :=
  { b with value := { b.value with receivers := b.value.receivers.set index st } }

/-- The moves of a channel, each with the condition that selects it. -/
inductive Move [Target] [Layout T] [Waker W] (s : Sys T W) : Op T W → Out T → Sys T W → Prop where
  | ignored {op : Op T W} : Move s op .ignored s
  | subscribe {b : Inner T W} {key : Nat} (hb : s.inner = some b) (hs : s.senderFree = true)
    (hk : key ∉ b.value.receivers.keys) (hm : key < usizeMax) :
    Move s (.subscribe key) .done
      { s.put (some ⟨newReceiver b.value key, b.strong, b.weak + 1⟩) [] with
        receivers := s.receivers ++ [⟨key, false, none, ⟨s.sent.length, [], [], false⟩⟩] }
  | trySent {b c : Inner T W} {v : T} (hb : s.inner = some b) (hs : s.senderFree = true)
    (hc : c = { b with value := bumpMessageId b.value })
    (hall : (tryPass c v).1.delivered = s.receivers.length) :
    Move s (.trySend v) (.trySent (.ok s.receivers.length))
      ((s.begin c v).deliver c v (tryPass c v))
  | tryShort {b c : Inner T W} {v : T} (hb : s.inner = some b) (hs : s.senderFree = true)
    (hc : c = { b with value := bumpMessageId b.value })
    (hsome : (tryPass c v).1.delivered ≠ s.receivers.length) :
    Move s (.trySend v) (.trySent (.error ⟨(tryPass c v).1.delivered⟩))
      ((s.begin c v).deliver c v (tryPass c v))
  | send {v : T} (hs : s.senderFree = true) :
    Move s (.send v) .done { s with sending := some (.unresumed v) }
  | sentNone {u : Sys T W} {v : T} {w : W} (hu : s.Resumed v u) (hr : s.receivers = []) :
    Move s (.pollSend w) (.sent 0) u.endSend
  | sent {u : Sys T W} {b c : Inner T W} {v : T} {w : W} (hu : s.Resumed v u)
    (hb : u.inner = some b)
    (hc : c = { b with value := { b.value with sender := register b.value.sender w } })
    (hall : (sendPass c v).1.delivered = s.receivers.length) :
    Move s (.pollSend w) (.sent s.receivers.length) (u.deliver c v (sendPass c v)).endSend
  | sendPark {u : Sys T W} {b c : Inner T W} {v : T} {w : W} (hu : s.Resumed v u)
    (hb : u.inner = some b)
    (hc : c = { b with value := { b.value with sender := register b.value.sender w } })
    (hsome : (sendPass c v).1.delivered ≠ s.receivers.length) :
    Move s (.pollSend w) .pending { u.deliver c v (sendPass c v) with
      sendPending := some (w, u.wakes.length + (sendPass c v).1.woken.length) }
  | cancelSend (hs : s.sending.isSome = true) : Move s .cancelSend .done s.endSend
  | recv {i : Nat} {r : Receiver T W} (hr : s.receivers[i]? = some r)
    (hf : r.receiving = false) :
    Move s (.recv i) .done (s.setReceiver i { r with receiving := true })
  | received {b : Inner T W} {i : Nat} {r : Receiver T W} {st : ReceiverState T W} {v : T}
    {buf : VecDeque T} {w : W} (hb : s.inner = some b) (hr : s.receivers[i]? = some r)
    (hf : r.receiving = true) (hst : b.value.receivers.get? r.index = some st)
    (hv : st.buf.popFront = some (v, buf)) :
    Move s (.pollRecv i w) (.received (some v))
      ((s.put (some (setState b r.index { st with buf := buf }))
        b.value.sender.toList).setReceiver i ⟨r.index, false, none,
          { r.log with received := r.log.received ++ [v] }⟩)
  | recvEnd {b : Inner T W} {i : Nat} {r : Receiver T W} {st : ReceiverState T W} {w : W}
    (hb : s.inner = some b) (hr : s.receivers[i]? = some r) (hf : r.receiving = true)
    (hst : b.value.receivers.get? r.index = some st) (hv : st.buf.items = [])
    (hs : s.sender = false) :
    Move s (.pollRecv i w) (.received none)
      ((s.put (some (setState b r.index { st with waker := none })) []).setReceiver i
        ⟨r.index, false, none, { r.log with ended := true }⟩)
  | recvPark {b : Inner T W} {i : Nat} {r : Receiver T W} {st : ReceiverState T W} {w : W}
    (hb : s.inner = some b) (hr : s.receivers[i]? = some r) (hf : r.receiving = true)
    (hst : b.value.receivers.get? r.index = some st) (hv : st.buf.items = [])
    (hs : s.sender = true) :
    Move s (.pollRecv i w) .pending
      ((s.put (some (setState b r.index { st with waker := register st.waker w }))
        b.value.sender.toList).setReceiver i
          { r with pending := some (w, s.wakes.length + b.value.sender.toList.length) })
  | cancelRecv {i : Nat} {r : Receiver T W} (hr : s.receivers[i]? = some r)
    (hf : r.receiving = true) :
    Move s (.cancelRecv i) .done
      (s.setReceiver i { r with receiving := false, pending := none })
  | dropSender {b : Inner T W} (hb : s.inner = some b) (hs : s.senderFree = true) :
    Move s .dropSender .done
      { s.put (if s.receivers = [] then none else some
          ⟨{ b.value with receivers := b.value.receivers.map fun _ st =>
            { st with waker := none } }, 0, b.weak⟩)
          (b.value.receivers.entries.flatMap fun e => e.2.waker.toList) with
        sender := false }
  | dropReceiver {b : Inner T W} {i : Nat} {r : Receiver T W} (hb : s.inner = some b)
    (hr : s.receivers[i]? = some r) (hf : r.receiving = false) :
    Move s (.dropReceiver i) .done
      { s.put (if s.receivers.length = 1 ∧ s.sender = false then none else some
          ⟨{ b.value with receivers := b.value.receivers.remove r.index, sender := none },
            b.strong, s.receivers.length - 1⟩)
          b.value.sender.toList with
        receivers := s.receivers.eraseIdx i
        retired := s.retired ++ [r.log] }

section Steps

variable [Target] {s : Sys T W}

/-- A live end reaches the interior. -/
theorem access_of_alive (h : Inv s) (ha : s.sender = true ∨ s.receivers ≠ []) :
    ∃ b, s.inner = some b ∧ s.access = .ok b := by
  have hal : s.inner.isSome = true := by
    rw [h.allocated]
    rcases ha with hs | hr
    · simp [hs]
    · simp [hr]
  obtain ⟨b, hb⟩ := Option.isSome_iff_exists.mp hal
  exact ⟨b, hb, by rw [Sys.access, hb]⟩

omit [Target] in
/-- What it takes to use the sender. -/
theorem senderFree_iff : s.senderFree = true ↔ s.sender = true ∧ s.sending = none := by
  simp [Sys.senderFree]

/-- The flag of the strong handle tells whether there are receivers. -/
theorem Inv.anyWeak_iff (h : Inv s) {b : Inner T W} (hb : s.inner = some b) :
    b.anyWeak = !s.receivers.isEmpty := by
  rw [BroadRc.anyWeak, h.weak b hb]
  cases s.receivers <;> rfl

/-- The flag of a weak handle tells whether there is a sender. -/
theorem Inv.anyStrong_iff (h : Inv s) {b : Inner T W} (hb : s.inner = some b) :
    b.anyStrong = s.sender := by
  rw [BroadRc.anyStrong, h.strong b hb]
  cases s.sender <;> rfl

/-- There are as many entries as receivers. -/
theorem Inv.len_eq (h : Inv s) {b : Inner T W} (hb : s.inner = some b) :
    b.value.receivers.len = s.receivers.length := by
  rw [← Slab.length_keys, ← (h.keys b hb).length_eq, List.length_map]

/-- Every receiver has its entry. -/
theorem Inv.entry (h : Inv s) {b : Inner T W} (hb : s.inner = some b) {r : Receiver T W}
    (hr : r ∈ s.receivers) : ∃ st, b.value.receivers.get? r.index = some st :=
  Slab.mem_keys.mp ((h.keys b hb).subset (List.mem_map_of_mem hr))

/-- The receivers can be counted. -/
theorem Inv.length_le (h : Inv s) {b : Inner T W} (hb : s.inner = some b) :
    s.receivers.length ≤ usizeMax := by
  rw [← h.len_eq hb]
  exact Slab.len_le (h.bounded b hb)

variable [Layout T]

/-- What `subscribe` does when the slab picks a vacant key. -/
theorem Inv.subscribe_step (h : Inv s) {b : Inner T W} (hb : s.inner = some b) {key : Nat}
    (hk : key ∉ b.value.receivers.keys) (hm : key < usizeMax) :
    s.subscribe key = .ok (.done,
      { s.put (some ⟨newReceiver b.value key, b.strong, b.weak + 1⟩) [] with
        receivers := s.receivers ++ [⟨key, false, none, ⟨s.sent.length, [], [], false⟩⟩] }) := by
  have hacc : s.access = .ok b := by rw [Sys.access, hb]
  have hroom : b.weak < usizeMax := by
    rw [h.weak b hb, ← h.len_eq hb]
    exact Slab.len_lt (h.bounded b hb) hk hm
  have hadd := BroadRc.addWeak_eq (b := { b with value := newReceiver b.value key }) hroom
  have hno : ¬(key ∈ b.value.receivers.keys ∨ usizeMax ≤ key) := by
    rw [not_or, Nat.not_le]
    exact ⟨hk, hm⟩
  simp only [Sys.subscribe, hacc, ok_bind, if_neg hno, Broadcast.subscribe, hadd]

/-- `subscribe` is one of the moves. -/
theorem Inv.subscribe_move [Waker W] (h : Inv s) (key : Nat) (hs : s.senderFree = true) :
    ∃ out t, s.subscribe key = .ok (out, t) ∧ Move s (.subscribe key) out t := by
  obtain ⟨b, hb, hacc⟩ := access_of_alive h (Or.inl (senderFree_iff.mp hs).1)
  by_cases hk : key ∈ b.value.receivers.keys ∨ usizeMax ≤ key
  · exact ⟨_, _, by rw [Sys.subscribe, hacc, ok_bind, if_pos hk], .ignored⟩
  · rw [not_or, Nat.not_le] at hk
    exact ⟨_, _, h.subscribe_step hb hk.1 hk.2, .subscribe hb hs hk.1 hk.2⟩

omit [Target] [Layout T] in
/-- `try_send` by its loop. -/
theorem trySend_eq {b c : Inner T W} (hc : c = { b with value := bumpMessageId b.value }) (v : T) :
    Broadcast.trySend b v =
      if !b.anyWeak then (.ok 0, c, .start)
      else if (tryPass c v).1.delivered == (tryPass c v).2.len then
        (.ok (tryPass c v).1.delivered,
          { c with value := { c.value with receivers := (tryPass c v).2 } }, (tryPass c v).1)
      else
        (.error ⟨(tryPass c v).1.delivered⟩,
          { c with value := { c.value with receivers := (tryPass c v).2 } }, (tryPass c v).1) := by
  subst hc
  rfl

omit [Layout T] in
/-- What `try_send` does. -/
theorem Inv.trySend_step (h : Inv s) {b c : Inner T W} (hb : s.inner = some b)
    (hc : c = { b with value := bumpMessageId b.value }) (v : T) :
    s.trySend v = .ok (.trySent (if (tryPass c v).1.delivered = s.receivers.length then
      .ok s.receivers.length else .error ⟨(tryPass c v).1.delivered⟩),
      (s.begin c v).deliver c v (tryPass c v)) := by
  have hacc : s.access = .ok b := by rw [Sys.access, hb]
  have hlen : c.value.receivers.len = s.receivers.length := by
    rw [← h.len_eq hb, hc]
    rfl
  have hpass : (tryPass c v).2.len = s.receivers.length := by rw [tryPass, Slab.len_forEach, hlen]
  by_cases hr : s.receivers = []
  · have hnone : tryPass c v = (.start, c.value.receivers) :=
      Slab.forEach_of_len (by rw [hlen, hr]; rfl) _ _
    simp only [Sys.trySend, hacc, ok_bind, trySend_eq hc, h.anyWeak_iff hb, hr, hnone]
    rfl
  · have hweak : (!b.anyWeak) = false := by
      rw [h.anyWeak_iff hb]
      simpa using hr
    simp only [Sys.trySend, hacc, ok_bind, trySend_eq hc, hweak, hpass, beq_iff_eq]
    by_cases hall : (tryPass c v).1.delivered = s.receivers.length
    · simp only [hall]
      rfl
    · simp only [if_neg hall]
      rfl

/-- `try_send` is one of the moves. -/
theorem Inv.trySend_move [Waker W] (h : Inv s) (v : T) (hs : s.senderFree = true) :
    ∃ out t, s.trySend v = .ok (out, t) ∧ Move s (.trySend v) out t := by
  obtain ⟨b, hb, -⟩ := access_of_alive h (Or.inl (senderFree_iff.mp hs).1)
  obtain ⟨c, hc⟩ : ∃ c : Inner T W, c = { b with value := bumpMessageId b.value } := ⟨_, rfl⟩
  have hstep := h.trySend_step hb hc v
  by_cases hall : (tryPass c v).1.delivered = s.receivers.length
  · rw [if_pos hall] at hstep
    exact ⟨_, _, hstep, .trySent hb hs hc hall⟩
  · rw [if_neg hall] at hstep
    exact ⟨_, _, hstep, .tryShort hb hs hc hall⟩

variable [Waker W]

omit [Target] [Layout T] in
/-- A poll of `Send` by its loop. -/
theorem sendPoll_eq {b c : Inner T W} {w : W}
    (hc : c = { b with value := { b.value with sender := register b.value.sender w } }) (v : T) :
    sendPoll v b w =
      if !b.anyWeak then (.ready 0, b, .start)
      else if (sendPass c v).1.delivered == (sendPass c v).2.len then
        (.ready (sendPass c v).1.delivered,
          { c with value := { c.value with receivers := (sendPass c v).2 } }, (sendPass c v).1)
      else
        (.pending, { c with value := { c.value with receivers := (sendPass c v).2 } },
          (sendPass c v).1) := by
  subst hc
  rfl

omit [Layout T] in
/-- A poll of `send` without receivers. -/
theorem Inv.pollSend_nil (h : Inv s) {b : Inner T W} (hb : s.inner = some b)
    (hr : s.receivers = []) (v : T) (w : W) : s.pollSend v w = .ok (.sent 0, s.endSend) := by
  have hacc : s.access = .ok b := by rw [Sys.access, hb]
  have hput : (s.put (some b) []).handOut v [] = s := by
    obtain ⟨inner, sender, sending, receivers, retired, sent, wakes, pending⟩ := s
    simp only at hb hr
    simp [Sys.put, Sys.handOut, hb, hr]
  simp only [Sys.pollSend, hacc, ok_bind, sendPoll_eq rfl, h.anyWeak_iff hb, hr]
  exact congrArg (fun t => Except.ok (Out.sent 0, Sys.endSend t)) hput

omit [Layout T] in
/-- What a poll of `send` does when there are receivers. -/
theorem Inv.pollSend_step (h : Inv s) {b c : Inner T W} {w : W} (hb : s.inner = some b)
    (hc : c = { b with value := { b.value with sender := register b.value.sender w } })
    (hr : s.receivers ≠ []) (v : T) :
    s.pollSend v w = .ok (if (sendPass c v).1.delivered = s.receivers.length then
        (.sent s.receivers.length, (s.deliver c v (sendPass c v)).endSend)
      else (.pending, { s.deliver c v (sendPass c v) with
        sendPending := some (w, s.wakes.length + (sendPass c v).1.woken.length) })) := by
  have hacc : s.access = .ok b := by rw [Sys.access, hb]
  have hpass : (sendPass c v).2.len = s.receivers.length := by
    rw [sendPass, Slab.len_forEach, ← h.len_eq hb, hc]
  have hweak : (!b.anyWeak) = false := by
    rw [h.anyWeak_iff hb]
    simpa using hr
  simp only [Sys.pollSend, hacc, ok_bind, sendPoll_eq hc, hweak, hpass, beq_iff_eq,
    ← List.length_append]
  by_cases hall : (sendPass c v).1.delivered = s.receivers.length
  · simp only [hall]
    rfl
  · simp only [if_neg hall]
    rfl

/-- Once its message is sent, a poll of `send` is one of the moves. -/
theorem Inv.pollSend_move {u : Sys T W} {v : T} (h : Inv u) (hu : s.Resumed v u)
    (hs : u.sender = true) (hr : u.receivers = s.receivers) (w : W) :
    ∃ out t, u.pollSend v w = .ok (out, t) ∧ Move s (.pollSend w) out t := by
  obtain ⟨b, hb, -⟩ := access_of_alive h (Or.inl hs)
  obtain ⟨c, hc⟩ : ∃ c : Inner T W,
      c = { b with value := { b.value with sender := register b.value.sender w } } := ⟨_, rfl⟩
  by_cases hnone : s.receivers = []
  · exact ⟨_, _, h.pollSend_nil hb (hr.trans hnone) v w, .sentNone hu hnone⟩
  · have hstep := h.pollSend_step hb hc (by rwa [hr]) v
    rw [hr] at hstep
    by_cases hall : (sendPass c v).1.delivered = s.receivers.length
    · rw [if_pos hall] at hstep
      exact ⟨_, _, hstep, .sent hu hb hc hall⟩
    · rw [if_neg hall] at hstep
      exact ⟨_, _, hstep, .sendPark hu hb hc hall⟩

/-- A poll of `recv` is one of the moves. -/
theorem Inv.pollRecv_move (h : Inv s) {i : Nat} {r : Receiver T W} (hr : s.receivers[i]? = some r)
    (hf : r.receiving = true) (w : W) :
    ∃ out t, s.pollRecv i w r = .ok (out, t) ∧ Move s (.pollRecv i w) out t := by
  have hmem := List.mem_of_getElem? hr
  obtain ⟨b, hb, hacc⟩ := access_of_alive h (Or.inr (List.ne_nil_of_mem hmem))
  obtain ⟨st, hst⟩ := h.entry hb hmem
  have hstrong := h.anyStrong_iff hb
  cases hpop : st.buf.popFront with
  | some p =>
    obtain ⟨v, buf⟩ := p
    refine ⟨_, _, ?_, .received hb hr hf hst hpop⟩
    simp [Sys.pollRecv, hacc, recvPoll, hst, hpop, setState]
  | none =>
    have hv := VecDeque.popFront_eq_none.mp hpop
    cases hs : s.sender with
    | false =>
      refine ⟨_, _, ?_, .recvEnd hb hr hf hst hv hs⟩
      simp [Sys.pollRecv, hacc, recvPoll, hst, hpop, hstrong, hs, setState]
    | true =>
      refine ⟨_, _, ?_, .recvPark hb hr hf hst hv hs⟩
      simp [Sys.pollRecv, hacc, recvPoll, hst, hpop, hstrong, hs, setState, Sys.put]

omit [Target] [Layout T] [Waker W] in
/-- The drop of the sender takes and wakes every registered waker. -/
theorem takeWakers_eq (slab : Slab (ReceiverState T W)) :
    slab.forEach ReceiverState.takeWaker [] =
      (slab.entries.flatMap fun e => e.2.waker.toList,
        slab.map fun _ st => { st with waker := none }) := by
  have hacc : ∀ (es : List (Nat × ReceiverState T W)) (woken : List W),
      es.foldl (fun c e => c ++ e.2.waker.toList) woken =
        woken ++ es.flatMap fun e => e.2.waker.toList := by
    intro es
    induction es with
    | nil => intro woken; simp
    | cons e es ih => intro woken; simp [ih]
  have hbody : ∀ (c : List W) (k : Nat) (r : ReceiverState T W),
      ReceiverState.takeWaker c k r = (c ++ r.waker.toList, { r with waker := none }) :=
    fun _ _ _ => rfl
  rw [Slab.forEach_eq hbody, hacc, List.nil_append]

/-- The drop of the sender is one of the moves. -/
theorem Inv.dropSender_move (h : Inv s) (hs : s.senderFree = true) :
    ∃ out t, s.step .dropSender = .ok (out, t) ∧ Move s .dropSender out t := by
  have hsender := (senderFree_iff.mp hs).1
  obtain ⟨b, hb, hacc⟩ := access_of_alive h (Or.inl hsender)
  have hstrong : b.strong = 1 := by rw [h.strong b hb, hsender]; rfl
  have hweak : b.weak ≤ usizeMax := by
    rw [h.weak b hb]
    exact h.length_le hb
  refine ⟨_, _, ?_, .dropSender hb hs⟩
  have hdrop := BroadRc.dropStrong_eq (b := { b with value := { b.value with
    receivers := b.value.receivers.map fun _ st => { st with waker := none } } }) hstrong hweak
  have hempty : b.weak = 0 ↔ s.receivers = [] := by rw [h.weak b hb, List.length_eq_zero_iff]
  simp only [Sys.step, hs, if_true, hacc, ok_bind, Broadcast.dropSender, takeWakers_eq, hdrop,
    hempty]

/-- The drop of a receiver is one of the moves. -/
theorem Inv.dropReceiver_move (h : Inv s) {i : Nat} {r : Receiver T W}
    (hr : s.receivers[i]? = some r) (hf : r.receiving = false) :
    ∃ out t, s.dropReceiver i r = .ok (out, t) ∧ Move s (.dropReceiver i) out t := by
  have hmem := List.mem_of_getElem? hr
  obtain ⟨b, hb, hacc⟩ := access_of_alive h (Or.inr (List.ne_nil_of_mem hmem))
  have hpos := List.length_pos_of_mem hmem
  have hle := h.length_le hb
  have hstrong := h.strong b hb
  have hbit : s.sender.toNat ≤ 1 := Bool.toNat_le s.sender
  have hn : b.weak = s.receivers.length - 1 + 1 := by
    rw [h.weak b hb]
    omega
  refine ⟨_, _, ?_, .dropReceiver hb hr hf⟩
  have hdrop := BroadRc.dropWeak_eq (b := { b with value := { b.value with
    receivers := b.value.receivers.remove r.index, sender := none } }) hn
    (by rw [hstrong]; omega)
  have hlast : s.receivers.length - 1 + b.strong = 0 ↔
      s.receivers.length = 1 ∧ s.sender = false := by
    have hone : s.receivers.length - 1 = 0 ↔ s.receivers.length = 1 := by omega
    rw [hstrong, Nat.add_eq_zero_iff, Bool.toNat_eq_zero, hone]
  simp only [Sys.dropReceiver, hacc, ok_bind, Broadcast.dropReceiver, hdrop, hlast]

omit [Layout T] [Waker W] in
/-- The invariant of a channel whose interior is allocated. -/
theorem Inv.of_some {t : Sys T W} {b : Inner T W} (ht : t.inner = some b)
    (halive : (t.sender || !t.receivers.isEmpty) = true) (hstrong : b.strong = t.sender.toNat)
    (hweak : b.weak = t.receivers.length)
    (hkeys : (t.receivers.map Receiver.index).Perm b.value.receivers.keys)
    (hbounded : ∀ k ∈ b.value.receivers.keys, k < usizeMax)
    (hsend : t.sending.isSome = true → t.sender = true) : Inv t := by
  have heq : ∀ c, t.inner = some c → c = b := by
    intro c hc
    exact Option.some.inj (hc.symm.trans ht)
  refine ⟨?_, ?_, ?_, ?_, ?_, hsend⟩
  · rw [ht, halive]
    rfl
  · intro c hc
    rw [heq c hc, hstrong]
  · intro c hc
    rw [heq c hc, hweak]
  · intro c hc
    rw [heq c hc]
    exact hkeys
  · intro c hc
    rw [heq c hc]
    exact hbounded

omit [Layout T] [Waker W] in
private theorem Inv.of_none {t : Sys T W} (ht : t.inner = none) (hs : t.sender = false)
    (hr : t.receivers = []) (hsend : t.sending = none) : Inv t := by
  refine ⟨?_, ?_, ?_, ?_, ?_, ?_⟩ <;> simp [ht, hs, hr, hsend]

omit [Layout T] [Waker W] in
/-- What keeps the handles and the keys keeps the invariant. -/
theorem Inv.keep (h : Inv s) {t : Sys T W} {b b' : Inner T W} (hb : s.inner = some b)
    (ht : t.inner = some b') (hsender : t.sender = s.sender)
    (hindex : t.receivers.map Receiver.index = s.receivers.map Receiver.index)
    (hstrong : b'.strong = b.strong) (hweak : b'.weak = b.weak)
    (hkeys : b'.value.receivers.keys = b.value.receivers.keys)
    (hsend : t.sending.isSome = true → t.sender = true) : Inv t := by
  have hlen : t.receivers.length = s.receivers.length := by
    have hmap := congrArg List.length hindex
    rwa [List.length_map, List.length_map] at hmap
  have halive : (t.sender || !t.receivers.isEmpty) = true := by
    have hempty : t.receivers.isEmpty = s.receivers.isEmpty := by
      rw [Bool.eq_iff_iff, List.isEmpty_iff_length_eq_zero, List.isEmpty_iff_length_eq_zero, hlen]
    rw [hsender, hempty, ← h.allocated, hb]
    rfl
  refine .of_some ht halive ?_ ?_ ?_ ?_ hsend
  · rw [hstrong, h.strong b hb, hsender]
  · rw [hweak, h.weak b hb, hlen]
  · rw [hkeys, hindex]
    exact h.keys b hb
  · rw [hkeys]
    exact h.bounded b hb

omit [Layout T] [Waker W] in
/-- Sending a message keeps the invariant. -/
theorem Inv.resumed (h : Inv s) {u : Sys T W} {v : T} (hu : s.Resumed v u) :
    Inv u ∧ u.sender = true ∧ u.receivers = s.receivers ∧ u.sending = some (.suspended v) := by
  rcases hu with ⟨hs, rfl⟩ | ⟨hs, b, hb, rfl⟩
  · exact ⟨h, h.sendAlive (by rw [hs]; rfl), rfl, hs⟩
  · have hsender := h.sendAlive (by rw [hs]; rfl)
    exact ⟨h.keep hb rfl rfl rfl rfl rfl rfl fun _ => hsender, hsender, rfl, rfl⟩

omit [Layout T] [Waker W] in
/-- The message of a future of `send` that is polled gets sent. -/
theorem Inv.exists_resumed (h : Inv s) {v : T}
    (hs : s.sending = some (.unresumed v) ∨ s.sending = some (.suspended v)) :
    ∃ u, s.Resumed v u := by
  rcases hs with hs | hs
  · obtain ⟨b, hb, -⟩ := access_of_alive h (Or.inl (h.sendAlive (by rw [hs]; rfl)))
    exact ⟨_, Or.inr ⟨hs, b, hb, rfl⟩⟩
  · exact ⟨s, Or.inl ⟨hs, rfl⟩⟩

/-- A poll of the future of `send` is a poll of its `Send` once the message is sent. -/
theorem Sys.Resumed.step_eq {u : Sys T W} {v : T} (hu : s.Resumed v u) (w : W) :
    s.step (.pollSend w) = u.pollSend v w := by
  rcases hu with ⟨hs, rfl⟩ | ⟨hs, b, hb, rfl⟩
  · simp only [Sys.step, hs]
  · have hacc : s.access = .ok b := by rw [Sys.access, hb]
    simp only [Sys.step, hs, Sys.resume, hacc, ok_bind]

omit [Target] [Layout T] [Waker W] in
private theorem Sys.withReceiver_cases (s : Sys T W) (i : Nat) (borrowed : Bool)
    (use : Receiver T W → Except Fault (Out T × Sys T W)) :
    s.withReceiver i borrowed use = .ok (.ignored, s) ∨
      ∃ r, s.receivers[i]? = some r ∧ r.receiving = borrowed ∧
        s.withReceiver i borrowed use = use r := by
  unfold Sys.withReceiver
  cases hr : s.receivers[i]? with
  | none => exact Or.inl rfl
  | some r =>
    by_cases hf : r.receiving = borrowed
    · exact Or.inr ⟨r, rfl, hf, if_pos hf⟩
    · exact Or.inl (if_neg hf)

/-- Every operation succeeds and is one of the moves. -/
theorem Inv.step_move (h : Inv s) (op : Op T W) :
    ∃ out t, s.step op = .ok (out, t) ∧ Move s op out t := by
  cases op with
  | subscribe key =>
    by_cases hs : s.senderFree = true
    · rw [Sys.step, if_pos hs]
      exact h.subscribe_move key hs
    · exact ⟨_, _, by rw [Sys.step, if_neg hs], .ignored⟩
  | trySend v =>
    by_cases hs : s.senderFree = true
    · rw [Sys.step, if_pos hs]
      exact h.trySend_move v hs
    · exact ⟨_, _, by rw [Sys.step, if_neg hs], .ignored⟩
  | send v =>
    by_cases hs : s.senderFree = true
    · exact ⟨_, _, by rw [Sys.step, if_pos hs], .send hs⟩
    · exact ⟨_, _, by rw [Sys.step, if_neg hs], .ignored⟩
  | pollSend w =>
    have hpoll : ∀ v, s.sending = some (.unresumed v) ∨ s.sending = some (.suspended v) →
        ∃ out t, s.step (.pollSend w) = .ok (out, t) ∧ Move s (.pollSend w) out t := by
      intro v hv
      obtain ⟨u, hu⟩ := h.exists_resumed hv
      obtain ⟨hi, halive, hr, -⟩ := h.resumed hu
      rw [hu.step_eq]
      exact hi.pollSend_move hu halive hr w
    cases hs : s.sending with
    | none => exact ⟨_, _, by rw [Sys.step, hs], .ignored⟩
    | some future =>
      cases future with
      | unresumed v => exact hpoll v (Or.inl hs)
      | suspended v => exact hpoll v (Or.inr hs)
  | cancelSend =>
    by_cases hs : s.sending.isSome = true
    · exact ⟨_, _, by rw [Sys.step, if_pos hs], .cancelSend hs⟩
    · exact ⟨_, _, by rw [Sys.step, if_neg hs], .ignored⟩
  | recv i =>
    rcases s.withReceiver_cases i false _ with hstep | ⟨r, hr, hf, hstep⟩
    · exact ⟨_, _, hstep, .ignored⟩
    · exact ⟨_, _, hstep, .recv hr hf⟩
  | pollRecv i w =>
    rcases s.withReceiver_cases i true (s.pollRecv i w) with hstep | ⟨r, hr, hf, hstep⟩
    · exact ⟨_, _, hstep, .ignored⟩
    · rw [Sys.step, hstep]
      exact h.pollRecv_move hr hf w
  | cancelRecv i =>
    rcases s.withReceiver_cases i true _ with hstep | ⟨r, hr, hf, hstep⟩
    · exact ⟨_, _, hstep, .ignored⟩
    · exact ⟨_, _, hstep, .cancelRecv hr hf⟩
  | dropSender =>
    by_cases hs : s.senderFree = true
    · exact h.dropSender_move hs
    · exact ⟨_, _, by rw [Sys.step, if_neg hs], .ignored⟩
  | dropReceiver i =>
    rcases s.withReceiver_cases i false (s.dropReceiver i) with hstep | ⟨r, hr, hf, hstep⟩
    · exact ⟨_, _, hstep, .ignored⟩
    · rw [Sys.step, hstep]
      exact h.dropReceiver_move hr hf

omit [Target] [Layout T] [Waker W] in
/-- Changing what a receiver holds keeps its index. -/
theorem index_set {l : List (Receiver T W)} {i : Nat} {r r' : Receiver T W} (hr : l[i]? = some r)
    (hi : r'.index = r.index) : (l.set i r').map Receiver.index = l.map Receiver.index := by
  rw [List.map_set, hi]
  apply List.ext_getElem?
  intro j
  rw [List.getElem?_set]
  split
  · next hj =>
    subst hj
    obtain ⟨hlt, he⟩ := List.getElem?_eq_some_iff.mp hr
    simp [hlt, he]
  · rfl

omit [Target] [Layout T] [Waker W] in
/-- Recording deliveries keeps the indices. -/
theorem index_handOut (s : Sys T W) (v : T) (keys : List Nat) :
    (s.handOut v keys).receivers.map Receiver.index = s.receivers.map Receiver.index := by
  simp [Sys.handOut]

omit [Layout T] [Waker W] in
private theorem Inv.setReceiver (h : Inv s) {i : Nat} {r r' : Receiver T W} {b : Inner T W}
    {st : ReceiverState T W} {woken : List W} (hb : s.inner = some b)
    (hr : s.receivers[i]? = some r) (hi : r'.index = r.index) :
    Inv ((s.put (some (setState b r.index st)) woken).setReceiver i r') :=
  h.keep hb rfl rfl (index_set hr hi) rfl rfl (Slab.keys_set _ _ _) h.sendAlive

/-- Every move keeps the handles and the entries in order. -/
theorem Inv.move (h : Inv s) {op : Op T W} {out : Out T} {t : Sys T W} (m : Move s op out t) :
    Inv t := by
  cases m with
  | ignored => exact h
  | @subscribe b key hb hs hk hm =>
    have hkeys : (newReceiver b.value key).receivers.keys.Perm (key :: b.value.receivers.keys) :=
      Slab.keys_insert hk _
    refine .of_some rfl (by simp) (h.strong b hb) (by simp [h.weak b hb]) ?_ ?_ h.sendAlive
    · refine List.Perm.trans ?_ hkeys.symm
      rw [List.map_append, List.map_singleton]
      exact (List.perm_append_singleton _ _).trans ((h.keys b hb).cons _)
    · intro k hk'
      rcases List.mem_cons.mp (hkeys.subset hk') with rfl | hk'
      · exact hm
      · exact h.bounded b hb k hk'
  | trySent hb hs hc hall | tryShort hb hs hc hall =>
    subst hc
    exact h.keep hb rfl rfl (index_handOut _ _ _) rfl rfl (Slab.keys_forEach _ _ _) h.sendAlive
  | send hs =>
    exact ⟨h.allocated, h.strong, h.weak, h.keys, h.bounded, fun _ => (senderFree_iff.mp hs).1⟩
  | sentNone hu hr =>
    obtain ⟨hi, hsender, -, -⟩ := h.resumed hu
    exact ⟨hi.allocated, hi.strong, hi.weak, hi.keys, hi.bounded, fun _ => hsender⟩
  | sent hu hb hc hall | sendPark hu hb hc hsome =>
    subst hc
    obtain ⟨hi, hsender, -, -⟩ := h.resumed hu
    exact hi.keep hb rfl rfl (index_handOut _ _ _) rfl rfl (Slab.keys_forEach _ _ _)
      fun _ => hsender
  | cancelSend hs =>
    exact ⟨h.allocated, h.strong, h.weak, h.keys, h.bounded, fun _ => h.sendAlive hs⟩
  | recv hr hf | cancelRecv hr hf =>
    have hne := List.ne_nil_of_mem (List.mem_of_getElem? hr)
    obtain ⟨b, hb, -⟩ := access_of_alive h (Or.inr hne)
    exact h.keep hb hb rfl (index_set hr rfl) rfl rfl rfl h.sendAlive
  | received hb hr hf hst hv => exact h.setReceiver hb hr rfl
  | recvEnd hb hr hf hst hv hs => exact h.setReceiver hb hr rfl
  | recvPark hb hr hf hst hv hs => exact h.setReceiver hb hr rfl
  | @dropSender b hb hs =>
    have hnone := (senderFree_iff.mp hs).2
    have hsend : s.sending.isSome = true → false = true := by simp [hnone]
    by_cases hr : s.receivers = []
    · exact .of_none (if_pos hr) rfl hr hnone
    · refine .of_some (if_neg hr) ?_ rfl (h.weak b hb) ?_ ?_ hsend
      · simpa [Sys.put] using hr
      · rw [Slab.keys_map]
        exact h.keys b hb
      · rw [Slab.keys_map]
        exact h.bounded b hb
  | @dropReceiver b i r hb hr hf =>
    obtain ⟨hlt, he⟩ := List.getElem?_eq_some_iff.mp hr
    have hlen : (s.receivers.eraseIdx i).length = s.receivers.length - 1 :=
      List.length_eraseIdx_of_lt hlt
    by_cases hlast : s.receivers.length = 1 ∧ s.sender = false
    · have hnone : s.sending = none := by
        cases hs : s.sending with
        | none => rfl
        | some future =>
          have hsender := h.sendAlive (by rw [hs]; rfl)
          rw [hlast.2] at hsender
          cases hsender
      have hempty : s.receivers.eraseIdx i = [] :=
        List.eq_nil_of_length_eq_zero (by rw [hlen, hlast.1])
      exact .of_none (if_pos hlast) hlast.2 hempty hnone
    · refine .of_some (if_neg hlast) ?_ (h.strong b hb) hlen.symm ?_ ?_ h.sendAlive
      · by_cases hs : s.sender = true
        · simp [Sys.put, hs]
        · have hone : s.receivers.length ≠ 1 := fun h1 => hlast ⟨h1, by simpa using hs⟩
          have hne : s.receivers.eraseIdx i ≠ [] := by
            intro hnil
            rw [hnil, List.length_nil] at hlen
            omega
          simp [hne]
      · have hsplit := (List.getElem_cons_eraseIdx_perm hlt).map Receiver.index
        rw [List.map_cons, he] at hsplit
        have herase := (hsplit.trans (h.keys b hb)).erase r.index
        rw [List.erase_cons_head] at herase
        exact herase.trans (Slab.keys_remove _ _).symm
      · intro k hk
        exact h.bounded b hb k (List.mem_of_mem_erase ((Slab.keys_remove _ _).subset hk))

omit [Target] [Layout T] [Waker W] in
/-- A new channel has one strong handle, no receiver and the id 0. -/
theorem Setup.create_eq {setup : Setup} {b : Inner T W} (hb : setup.create = some b) :
    b.strong = 1 ∧ b.weak = 0 ∧ b.value.receivers = .empty ∧ b.value.id = 0 := by
  cases setup with
  | unbounded =>
    rw [← Option.some.inj hb]
    exact ⟨rfl, rfl, rfl, rfl⟩
  | bounded capacity =>
    simp only [Setup.create, channel] at hb
    split at hb
    · rw [← Option.some.inj hb]
      exact ⟨rfl, rfl, rfl, rfl⟩
    · cases hb

omit [Layout T] [Waker W] in
/-- A new channel has its sender, or was never made. -/
theorem Inv.new (setup : Setup) : Inv (Sys.new (setup.create : Option (Inner T W))) := by
  refine ⟨?_, ?_, ?_, ?_, ?_, fun h => by cases h⟩
  · simp [Sys.new]
  · intro b hb
    simp only [Sys.new] at hb ⊢
    rw [hb, (Setup.create_eq hb).1]
    rfl
  · intro b hb
    exact (Setup.create_eq hb).2.1
  · intro b hb
    rw [(Setup.create_eq hb).2.2.1]
    exact List.Perm.refl _
  · intro b hb
    rw [(Setup.create_eq hb).2.2.1]
    intro k hk
    cases hk

omit [Target] [Layout T] [Waker W] in
/-- The first poll of a `send` accounts for its message. -/
theorem Sys.Resumed.sent_length {u : Sys T W} {v : T} (hu : s.Resumed v u) :
    u.sent.length = s.started := by
  rcases hu with ⟨hs, rfl⟩ | ⟨hs, b, hb, rfl⟩
  · simp [Sys.started, hs]
  · simp [Sys.started, hs, Sys.begin]

omit [Target] [Layout T] [Waker W] in
/-- The value of a `send` that is polled is the one it was called with. -/
theorem Sys.Resumed.sends {u : Sys T W} {v : T} (hu : s.Resumed v u) :
    s.sending = some (.unresumed v) ∨ s.sending = some (.suspended v) := by
  rcases hu with ⟨hs, -⟩ | ⟨hs, -⟩
  · exact Or.inr hs
  · exact Or.inl hs

omit [Target] [Layout T] [Waker W] in
/-- A sender that can be used has an id left for its next message. -/
theorem id_left (hs : s.senderFree = true) (hlt : s.started + 1 < messageIds) :
    s.sent.length + 1 < 2 ^ 64 := by
  simp only [Sys.started, (senderFree_iff.mp hs).2, messageIds] at hlt
  omega

omit [Target] [Layout T] [Waker W] in
/-- The messages sent are accounted for. -/
theorem sent_le_started (s : Sys T W) : s.sent.length ≤ s.started := Nat.le_add_right _ _

/-- Only the calls that send a message account for one more. -/
theorem Move.started_le {op : Op T W} {out : Out T} {t : Sys T W} (m : Move s op out t) :
    t.started ≤ s.started + op.calls := by
  cases m with
  | ignored => exact Nat.le_add_right _ _
  | trySent hb hs hc hall | tryShort hb hs hc hsome =>
    have hnone := (senderFree_iff.mp hs).2
    simp [Sys.started, Sys.deliver, Sys.handOut, Sys.put, Sys.begin, hnone, Op.calls]
  | send hs => simp [Sys.started, (senderFree_iff.mp hs).2, Op.calls]
  | sentNone hu hr =>
    rw [← hu.sent_length]
    exact Nat.le_refl _
  | sent hu hb hc hall =>
    rw [← hu.sent_length]
    exact Nat.le_refl _
  | @sendPark u b c v w hu hb hc hsome =>
    rw [← hu.sent_length]
    have hsend : u.sending = some (.suspended v) := by
      rcases hu with ⟨hs, rfl⟩ | ⟨-, -, -, rfl⟩
      · exact hs
      · rfl
    simp [Sys.started, Sys.deliver, Sys.handOut, Sys.put, hsend, Op.calls]
  | cancelSend hs => exact sent_le_started s
  | subscribe | recv | received | recvEnd | recvPark | cancelRecv | dropSender | dropReceiver =>
    exact Nat.le_add_right _ _

/-- Every operation succeeds, is one of the moves and keeps the handles in order. -/
theorem Inv.step (h : Inv s) (op : Op T W) :
    ∃ out t, s.step op = .ok (out, t) ∧ Move s op out t ∧ Inv t := by
  obtain ⟨out, t, hs, m⟩ := h.step_move op
  exact ⟨out, t, hs, m, h.move m⟩

/-- What every move keeps, as long as message ids do not repeat, holds at the end of every
run that sends fewer messages than there are ids. -/
theorem run_keeps {P : Sys T W → Prop}
    (hmove : ∀ s op out t, Inv s → P s → s.started + op.calls < messageIds →
      Move s op out t → P t) {s : Sys T W} (h : Inv s) (hp : P s) (ops : List (Op T W))
    (hb : s.started + calls ops < messageIds) :
    ∃ outs t, run Sys.step s ops = .ok (outs, t) ∧ (Inv t ∧ P t) ∧
      t.started ≤ s.started + calls ops := by
  have hstep : ∀ (s : Sys T W) (op : Op T W), (Inv s ∧ P s) → s.started + op.calls < messageIds →
      ∃ out t, s.step op = .ok (out, t) ∧ (Inv t ∧ P t) ∧ t.started ≤ s.started + op.calls := by
    rintro s op ⟨hi, hp⟩ hlt
    obtain ⟨out, t, hs, m, ht⟩ := hi.step op
    exact ⟨out, t, hs, ⟨ht, hmove s op out t hi hp hlt m⟩, m.started_le⟩
  exact run_within hstep ⟨h, hp⟩ ops hb

/-- Every run succeeds and keeps the handles in order. -/
theorem Inv.runs (h : Inv s) (ops : List (Op T W)) :
    ∃ outs t, run Sys.step s ops = .ok (outs, t) ∧ Inv t := by
  have hstep : ∀ (s : Sys T W) (op : Op T W), Inv s →
      ∃ out t, s.step op = .ok (out, t) ∧ Inv t := by
    intro s op hi
    obtain ⟨out, t, hs, -, ht⟩ := hi.step op
    exact ⟨out, t, hs, ht⟩
  exact run_invariant hstep h ops

/-- A state that a run ends in has its handles in order. -/
theorem Inv.of_run (h : Inv s) {ops : List (Op T W)} {outs : List (Out T)} {t : Sys T W}
    (hr : run Sys.step s ops = .ok (outs, t)) : Inv t := by
  obtain ⟨outs', t', hr', ht⟩ := h.runs ops
  rw [hr] at hr'
  cases hr'
  exact ht

end Steps

end Broadcast
end Unsync
