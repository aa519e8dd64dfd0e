import Unsync.Oneshot.Model
import Unsync.Wakes

/-!
# Runs of a oneshot channel

A channel with its two ends as a transition system. `send` consumes the sender, and the
receiver is itself the future, which may be polled again after it was ready. Each operation
has a lemma that says what it does, and every run keeps the invariant that these need.
-/

namespace Unsync
namespace Oneshot

open Runs

/-- A channel and its ends: which of them exist. The remaining fields record the value that
was accepted, the number of polls since then, the wakers woken, and the waker of a latest
poll that is pending with the number of wake-ups before it. -/
structure Sys (T W : Type) where
  inner : Option (Inner T W)
  sender : Bool
  receiver : Bool
  accepted : Option T
  polls : Nat
  wakes : List W
  pending : Option (W × Nat)
  deriving Repr

/-- What the holders of the two ends can do. -/
inductive Op (T W : Type) where
  | send (value : T)
  | poll (waker : W)
  | dropSender
  | dropReceiver
  deriving DecidableEq, Repr

/-- What an operation returns. Operations on an end that is gone are ignored. -/
inductive Out (T : Type) where
  | ignored
  | sent (result : Except (SendError T) Unit)
  | polled (poll : Poll (Option T))
  | done

variable {T W : Type}

namespace Sys

/-- A new channel. -/
def new : Sys T W := ⟨some channel, true, true, none, 0, [], none⟩

/-- The channel after a method returned. -/
def put (s : Sys T W) (inner : Option (Inner T W)) (woken : List W) : Sys T W :=
  { s with inner := inner, wakes := s.wakes ++ woken }

/-- Reach the interior, which a live end keeps allocated. -/
def access (s : Sys T W) : Except Fault (Inner T W) :=
  match s.inner with
  | some inner => .ok inner
  | none => .error .dangling

/-- Call `send`, which consumes the sender. -/
def send [Target] (s : Sys T W) (value : T) : Except Fault (Out T × Sys T W) := do
  let inner ← s.access
  let (result, inner, woken) := Oneshot.send inner value
  let s := { s.put inner woken with sender := false }
  match result with
  | .ok () => .ok (.sent (.ok ()), { s with accepted := some value, polls := 0 })
  | .error error => .ok (.sent (.error error), s)

/-- Poll the receiver. -/
def poll [Waker W] (s : Sys T W) (waker : W) : Except Fault (Out T × Sys T W) := do
  let inner ← s.access
  let (poll, inner) := Oneshot.poll inner waker
  let s := { s.put (some inner) [] with polls := s.polls + 1 }
  match poll with
  | .pending => .ok (.polled .pending, { s with pending := some (waker, s.wakes.length) })
  | .ready value => .ok (.polled (.ready value), { s with pending := none })

/-- One operation. -/
def step [Target] [Waker W] (s : Sys T W) : Op T W → Except Fault (Out T × Sys T W)
  | .send value => if s.sender then s.send value else .ok (.ignored, s)
  | .poll waker => if s.receiver then s.poll waker else .ok (.ignored, s)
  | .dropSender =>
    if s.sender then do
      let inner ← s.access
      let (inner, woken) := Oneshot.dropSender inner
      .ok (.done, { s.put inner woken with sender := false })
    else .ok (.ignored, s)
  | .dropReceiver =>
    if s.receiver then do
      let inner ← s.access
      let (inner, woken) := Oneshot.dropReceiver inner
      .ok (.done, { s.put inner woken with receiver := false, pending := none })
    else .ok (.ignored, s)

end Sys

/-- The value that was accepted and not yet fetched. -/
def Sys.waiting (s : Sys T W) : Option T := if s.polls = 0 then s.accepted else none

/-- What a pending poll waits for: the sender is there, nothing was sent, and its waker is
registered. -/
def Asleep (s : Sys T W) [Waker W] (waker : W) : Prop :=
  s.sender = true ∧ ∃ b, s.inner = some b ∧ b.value.buf = none ∧ Registered b.value.waker waker

/-- The handles, the value, and the latest poll of the receiver. -/
structure Inv [Waker W] (s : Sys T W) : Prop where
  counted : ∀ b, s.inner = some b → b.count = BiRc.handles s.sender s.receiver
  allocated : s.inner.isSome = (s.sender || s.receiver)
  unused : s.sender = true → s.accepted = none
  buffered : ∀ b, s.inner = some b → b.value.buf = s.waiting
  awake : Awake s.wakes s.pending s.receiver (Asleep s)

/-! ### What one operation can do -/

section Steps

variable [Waker W] {s : Sys T W}

/-- A live end reaches the interior. -/
theorem access_of_alive (h : Inv s) (ha : (s.sender || s.receiver) = true) :
    ∃ b, s.inner = some b ∧ s.access = .ok b := by
  have hal := h.allocated
  rw [ha] at hal
  obtain ⟨b, hb⟩ := Option.isSome_iff_exists.mp hal
  exact ⟨b, hb, by rw [Sys.access, hb]⟩

omit [Waker W] in
private theorem wakeAndDrop_eq [Target] {b : Inner T W} {other : Bool}
    (h : b.count = BiRc.handles true other) :
    wakeAndDrop b = (if other then some ⟨{ b.value with waker := none }, 1⟩ else none,
      b.value.waker.toList) := by
  have hdrop := BiRc.drop_eq
    (b := ({ b with value := { b.value with waker := none } } : Inner T W)) h
  rw [wakeAndDrop, hdrop]
  cases other <;> rfl

/-- What `send` does: with a receiver the value is buffered, without one it comes back. -/
theorem Inv.send_step [Target] (h : Inv s) (hs : s.sender = true) {b : Inner T W}
    (hb : s.inner = some b) (v : T) :
    s.step (.send v) = .ok (if s.receiver then
        (.sent (.ok ()), { s.put (some ⟨⟨none, some v⟩, 1⟩) b.value.waker.toList with
          sender := false, accepted := some v, polls := 0 })
      else (.sent (.error ⟨v⟩), { s.put none b.value.waker.toList with sender := false })) := by
  have hacc : s.access = .ok b := by rw [Sys.access, hb]
  have hcount := h.counted b hb
  have hboth := BiRc.bothPresent_iff hcount
  rw [hs, Bool.true_and] at hboth
  rw [hs] at hcount
  simp only [Sys.step, hs, if_true, Sys.send, hacc, ok_bind, Oneshot.send, sendValue, hboth,
    dropSender]
  cases hr : s.receiver with
  | true =>
    rw [hr] at hcount
    have hdrop := wakeAndDrop_eq (b := ({ b with value := ⟨none, some v⟩ } : Inner T W)) hcount
    simp [hdrop]
  | false =>
    rw [hr] at hcount
    simp [wakeAndDrop_eq hcount]

/-- What a poll does: it fetches the value that is waiting, ends without a sender, or parks. -/
theorem Inv.poll_step [Target] (h : Inv s) (hr : s.receiver = true) {b : Inner T W}
    (hb : s.inner = some b) (w : W) :
    s.step (.poll w) = .ok (match s.waiting with
      | some v => (.polled (.ready (some v)),
          { s with
            inner := some { b with value := { b.value with buf := none } }
            polls := s.polls + 1, pending := none })
      | none =>
        if s.sender then
          (.polled .pending,
            { s with
              inner := some { b with
                value := { b.value with waker := register b.value.waker w } }
              polls := s.polls + 1, pending := some (w, s.wakes.length) })
        else
          (.polled (.ready none),
            { s with
              inner := some { b with value := { b.value with waker := none } }
              polls := s.polls + 1, pending := none })) := by
  have hacc : s.access = .ok b := by rw [Sys.access, hb]
  have hboth := BiRc.bothPresent_iff (h.counted b hb)
  rw [hr, Bool.and_true] at hboth
  have hbuf := h.buffered b hb
  cases hw : s.waiting with
  | some v =>
    rw [hw] at hbuf
    simp [Sys.step, hr, Sys.poll, hacc, Oneshot.poll, hbuf, Sys.put]
  | none =>
    rw [hw] at hbuf
    cases hs : s.sender with
    | true =>
      rw [hs] at hboth
      simp [Sys.step, hr, Sys.poll, hacc, Oneshot.poll, hbuf, hboth, Sys.put, hs]
    | false =>
      rw [hs] at hboth
      simp [Sys.step, hr, Sys.poll, hacc, Oneshot.poll, hbuf, hboth, Sys.put, hs]

private theorem Inv.dropSender_step [Target] (h : Inv s) (hs : s.sender = true) {b : Inner T W}
    (hb : s.inner = some b) :
    s.step .dropSender = .ok (.done,
      { s.put (if s.receiver then some ⟨{ b.value with waker := none }, 1⟩ else none)
          b.value.waker.toList with
        sender := false }) := by
  have hacc : s.access = .ok b := by rw [Sys.access, hb]
  have hcount := h.counted b hb
  rw [hs] at hcount
  simp only [Sys.step, hs, if_true, hacc, ok_bind, dropSender, wakeAndDrop_eq hcount]

/-- Dropping the receiver gives up its poll. -/
theorem Inv.dropReceiver_step [Target] (h : Inv s) (hr : s.receiver = true) {b : Inner T W}
    (hb : s.inner = some b) :
    s.step .dropReceiver = .ok (.done,
      { s.put (if s.sender then some ⟨{ b.value with waker := none }, 1⟩ else none)
          b.value.waker.toList with
        receiver := false, pending := none }) := by
  have hacc : s.access = .ok b := by rw [Sys.access, hb]
  have hcount := h.counted b hb
  rw [hr, BiRc.handles_comm] at hcount
  simp only [Sys.step, hr, if_true, hacc, ok_bind, dropReceiver, wakeAndDrop_eq hcount]

/-! ### What every operation keeps -/

private theorem Asleep.registered {w : W} (h : Asleep s w) {b : Inner T W} (hb : s.inner = some b) :
    Registered b.value.waker w := by
  obtain ⟨-, b', hb', -, hreg⟩ := h
  cases hb.symm.trans hb'
  exact hreg

private theorem Inv.finish (h : Inv s) {t : Sys T W} {b : Inner T W} (hb : s.inner = some b)
    (hsender : t.sender = false) (hreceiver : t.receiver = s.receiver)
    (hcount : ∀ b', t.inner = some b' → b'.count = BiRc.handles false s.receiver)
    (halloc : t.inner.isSome = s.receiver)
    (hbuf : ∀ b', t.inner = some b' → b'.value.buf = t.waiting)
    (hwakes : t.wakes = s.wakes ++ b.value.waker.toList) (hpending : t.pending = s.pending) :
    Inv t := by
  refine ⟨?_, ?_, ?_, hbuf, ?_⟩
  · rw [hsender, hreceiver]
    exact hcount
  · rw [hsender, hreceiver, Bool.false_or]
    exact halloc
  · intro hs
    rw [hsender] at hs
    cases hs
  · rw [hwakes, hpending, hreceiver]
    exact h.awake.wake fun w ha => ha.registered hb

/-- Sending keeps the invariant. -/
theorem Inv.send [Target] (h : Inv s) (hs : s.sender = true) (v : T) :
    ∃ out t, s.step (.send v) = .ok (out, t) ∧ Inv t := by
  obtain ⟨b, hb, -⟩ := access_of_alive h (by rw [hs, Bool.true_or])
  have hstep := h.send_step hs hb v
  cases hr : s.receiver with
  | true =>
    rw [hr] at hstep
    refine ⟨_, _, hstep, h.finish hb rfl rfl ?_ hr.symm ?_ rfl rfl⟩
    · rintro _ ⟨⟩
      rw [hr]
      rfl
    · rintro _ ⟨⟩
      rfl
  | false =>
    rw [hr] at hstep
    refine ⟨_, _, hstep, h.finish hb rfl rfl ?_ hr.symm ?_ rfl rfl⟩
    · intro b' hb'
      cases hb'
    · intro b' hb'
      cases hb'

/-- A poll keeps the invariant. -/
theorem Inv.poll [Target] (h : Inv s) (hr : s.receiver = true) (w : W) :
    ∃ out t, s.step (.poll w) = .ok (out, t) ∧ Inv t := by
  obtain ⟨b, hb, -⟩ := access_of_alive h (by rw [hr, Bool.or_true])
  have hstep := h.poll_step hr hb w
  have hbuf := h.buffered b hb
  have halloc := h.allocated
  rw [hb] at halloc
  have hcount := h.counted b hb
  cases hw : s.waiting with
  | some v =>
    rw [hw] at hstep
    refine ⟨_, _, hstep, ?_, halloc, h.unused, ?_, Awake.idle⟩
    · rintro _ ⟨⟩
      exact hcount
    · rintro _ ⟨⟩
      rfl
  | none =>
    rw [hw] at hstep hbuf
    cases hs : s.sender with
    | true =>
      dsimp only at hstep
      rw [if_pos hs] at hstep
      obtain ⟨x, hx, htask⟩ := register_task b.value.waker w
      refine ⟨_, _, hstep, ?_, halloc, h.unused, ?_, ?_⟩
      · rintro _ ⟨⟩
        exact hcount
      · rintro _ ⟨⟩
        exact hbuf
      · exact Awake.park hr ⟨hs, _, rfl, hbuf, x, hx, htask⟩
    | false =>
      have hno : ¬s.sender = true := by rw [hs]; exact Bool.false_ne_true
      dsimp only at hstep
      rw [if_neg hno] at hstep
      refine ⟨_, _, hstep, ?_, halloc, h.unused, ?_, Awake.idle⟩
      · rintro _ ⟨⟩
        exact hcount
      · rintro _ ⟨⟩
        exact hbuf

private theorem Inv.dropSender [Target] (h : Inv s) (hs : s.sender = true) :
    ∃ out t, s.step .dropSender = .ok (out, t) ∧ Inv t := by
  obtain ⟨b, hb, -⟩ := access_of_alive h (by rw [hs, Bool.true_or])
  have hstep := h.dropSender_step hs hb
  cases hr : s.receiver with
  | true =>
    rw [hr] at hstep
    refine ⟨_, _, hstep, h.finish hb rfl rfl ?_ hr.symm ?_ rfl rfl⟩
    · rintro _ ⟨⟩
      rw [hr]
      rfl
    · rintro _ ⟨⟩
      exact h.buffered b hb
  | false =>
    rw [hr] at hstep
    refine ⟨_, _, hstep, h.finish hb rfl rfl ?_ hr.symm ?_ rfl rfl⟩
    · intro b' hb'
      cases hb'
    · intro b' hb'
      cases hb'

/-- Dropping the receiver keeps the invariant. -/
theorem Inv.dropReceiver [Target] (h : Inv s) (hr : s.receiver = true) :
    ∃ out t, s.step .dropReceiver = .ok (out, t) ∧ Inv t := by
  obtain ⟨b, hb, -⟩ := access_of_alive h (by rw [hr, Bool.or_true])
  have hstep := h.dropReceiver_step hr hb
  cases hs : s.sender with
  | true =>
    rw [hs] at hstep
    refine ⟨_, _, hstep, ?_, ?_, h.unused, ?_, Awake.idle⟩
    · rintro _ ⟨⟩
      show 1 = BiRc.handles s.sender false
      rw [hs]
      rfl
    · show true = (s.sender || false)
      rw [hs]
      rfl
    · rintro _ ⟨⟩
      exact h.buffered b hb
  | false =>
    rw [hs] at hstep
    refine ⟨_, _, hstep, ?_, ?_, h.unused, ?_, Awake.idle⟩
    · intro b' hb'
      cases hb'
    · show false = (s.sender || false)
      rw [hs]
      rfl
    · intro b' hb'
      cases hb'

/-- Every operation succeeds and keeps the invariant. -/
theorem Inv.step [Target] (h : Inv s) (op : Op T W) :
    ∃ out t, s.step op = .ok (out, t) ∧ Inv t := by
  have hignored : ∀ {x : Except Fault (Out T × Sys T W)}, x = .ok (.ignored, s) →
      ∃ out t, x = .ok (out, t) ∧ Inv t := fun hx => ⟨_, _, hx, h⟩
  cases op with
  | send v =>
    by_cases hs : s.sender = true
    · exact h.send hs v
    · exact hignored (if_neg hs)
  | poll w =>
    by_cases hr : s.receiver = true
    · exact h.poll hr w
    · exact hignored (if_neg hr)
  | dropSender =>
    by_cases hs : s.sender = true
    · exact h.dropSender hs
    · exact hignored (if_neg hs)
  | dropReceiver =>
    by_cases hr : s.receiver = true
    · exact h.dropReceiver hr
    · exact hignored (if_neg hr)

/-- A new channel has both its ends and no value. -/
theorem Inv.new : Inv (Sys.new : Sys T W) := by
  refine ⟨?_, rfl, fun _ => rfl, ?_, Awake.idle⟩
  · rintro _ ⟨⟩
    rfl
  · rintro _ ⟨⟩
    rfl

/-- In every reachable state: `send` gives the value back if and only if the receiver was
dropped; a poll resolves to a value if and only if it is the first one after that value was
accepted, and to `None` only if the sender is gone and no value is waiting; and a receiver
whose latest poll was pending and whose waker was not woken since has a sender that was not
used, and no value is buffered. -/
theorem oneshot_delivers_exactly_once [Target] (ops : List (Op T W)) :
    ∃ outs s, run Sys.step (Sys.new : Sys T W) ops = .ok (outs, s) ∧
      (s.sender = true → ∀ v, ∃ result t, s.step (.send v) = .ok (.sent result, t) ∧
        (result = .error ⟨v⟩ ↔ s.receiver = false) ∧
        (result = .ok () ↔ s.receiver = true) ∧
        (s.receiver = true → t.accepted = some v ∧ t.polls = 0)) ∧
      (s.receiver = true → ∀ w, ∃ poll t, s.step (.poll w) = .ok (.polled poll, t) ∧
        (∀ v, poll = .ready (some v) ↔ s.accepted = some v ∧ s.polls = 0) ∧
        (poll = .ready none →
          s.sender = false ∧ ∀ b, s.inner = some b → b.value.buf = none) ∧
        t.accepted = s.accepted ∧ t.polls = s.polls + 1) ∧
      ∀ w n, s.pending = some (w, n) → ¬ WokenSince s.wakes w n →
        s.sender = true ∧ ∃ b, s.inner = some b ∧ b.value.buf = none := by
  obtain ⟨outs, s, hrun, h⟩ := run_invariant (fun s op (h : Inv s) => h.step op)
    (Inv.new (T := T) (W := W)) ops
  refine ⟨outs, s, hrun, ?_, ?_, ?_⟩
  · intro hs v
    obtain ⟨b, hb, -⟩ := access_of_alive h (by rw [hs, Bool.true_or])
    rw [h.send_step hs hb v]
    cases hr : s.receiver with
    | true => exact ⟨_, _, rfl, by simp⟩
    | false => exact ⟨_, _, rfl, by simp⟩
  · intro hr w
    obtain ⟨b, hb, -⟩ := access_of_alive h (by rw [hr, Bool.or_true])
    have hwaits : ∀ v, s.waiting = some v ↔ s.accepted = some v ∧ s.polls = 0 := by
      intro v
      simp [Sys.waiting, and_comm]
    rw [h.poll_step hr hb w]
    cases hw : s.waiting with
    | some v =>
      refine ⟨_, _, rfl, ?_, ?_, rfl, rfl⟩
      · intro v'
        rw [← hwaits, hw]
        simp
      · intro hn
        cases hn
    | none =>
      have hbuf := h.buffered b hb
      rw [hw] at hbuf
      have hnone : ∀ v, ¬(s.accepted = some v ∧ s.polls = 0) := by
        intro v
        rw [← hwaits, hw]
        exact Option.some_ne_none v ∘ Eq.symm
      cases hs : s.sender with
      | true =>
        refine ⟨_, _, rfl, ?_, ?_, rfl, rfl⟩
        · intro v
          simpa using hnone v
        · intro hn
          cases hn
      | false =>
        refine ⟨_, _, rfl, ?_, ?_, rfl, rfl⟩
        · intro v
          simpa using hnone v
        · intro _
          refine ⟨rfl, ?_⟩
          intro b' hb'
          cases hb.symm.trans hb'
          exact hbuf
  · intro w n hp hnot
    obtain ⟨hs, b, hb, hbuf, -⟩ := h.awake.asleep w n hp hnot
    exact ⟨hs, b, hb, hbuf⟩

end Steps

end Oneshot
end Unsync
