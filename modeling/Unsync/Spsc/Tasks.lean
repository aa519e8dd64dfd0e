import Unsync.Spsc.Fifo
import Unsync.Spsc.Wake
import Unsync.Tasks

/-!
# A sending and a receiving task

The program of `src/lib.rs:64–92` and `tests/spsc.rs:10–46`: one task sends values and drops
its end, the other one collects them until `recv` resolves to `None`, or until it has as many
as it wants, and drops its end then. A turn takes a task from one `await` to the next. The
executor may switch tasks at every `await`, which covers tasks that yield between two of them.
-/

namespace Unsync
namespace Spsc

open Runs Executor

/-- The two tasks. -/
inductive Role where
  | sender
  | receiver
  deriving DecidableEq, Repr

instance : Fintype Role := ⟨{.sender, .receiver}, fun r => by cases r <;> decide⟩

/-- The channel between the tasks, what the sender has not passed to `send` yet, whether it
returns when `send` fails (`send(n).await?`) or goes on (`let _ = send(n).await`), how many
values the receiver still wants, if not all, and what it has collected. Which future a task
awaits is up to the channel. -/
structure Session (T W : Type) where
  sys : Sys T W
  unsent : List T
  stops : Bool
  wants : Option Nat
  out : List T

variable {T W : Type}

namespace Session

/-- Both tasks have been spawned. -/
def new (inner : Option (Inner T W)) (values : List T) (stops : Bool) (wants : Option Nat) :
    Session T W :=
  ⟨.new inner, values, stops, wants, []⟩

section Turns

variable [Target] [Waker W]

/-- Poll `send`, and go on when it resolves. The flag tells whether the task goes on. -/
def awaitSend (p : Session T W) (w : W) : Except Fault (Bool × Session T W) := do
  let (out, sys) ← p.sys.step (.pollSend w)
  match out with
  | .sent (.ok ()) => .ok (true, { p with sys := sys })
  | .sent (.error _) =>
    .ok (true, { p with sys := sys, unsent := if p.stops then [] else p.unsent })
  | _ => .ok (false, { p with sys := sys })

/-- A turn of `for n in .. { tx.send(n).await }`, after which `tx` is dropped. -/
def senderTurn (p : Session T W) (w : W) : Except Fault (Bool × Session T W) :=
  if p.sys.sending.isSome then p.awaitSend w
  else
    match p.unsent with
    | value :: rest => do
      let (_, sys) ← p.sys.step (.send value)
      { p with sys := sys, unsent := rest }.awaitSend w
    | [] => do
      let (_, sys) ← p.sys.step .dropSender
      .ok (false, { p with sys := sys })

/-- Poll `recv`, and go on when it resolves to a value. Once it resolves to `None` the task
returns, and `rx` is dropped. -/
def awaitRecv (p : Session T W) (w : W) : Except Fault (Bool × Session T W) := do
  let (out, sys) ← p.sys.step (.pollRecv w)
  match out with
  | .received (some value) =>
    .ok (true, { p with sys := sys, wants := p.wants.map (· - 1), out := p.out ++ [value] })
  | .received none => do
    let (_, sys) ← sys.step .dropReceiver
    .ok (false, { p with sys := sys })
  | _ => .ok (false, { p with sys := sys })

/-- A turn of `while let Some(value) = rx.recv().await { out.push(value) }`, with a `break` once
the task has what it wants. -/
def receiverTurn (p : Session T W) (w : W) : Except Fault (Bool × Session T W) :=
  if p.sys.receiving then p.awaitRecv w
  else if p.wants = some 0 then do
    let (_, sys) ← p.sys.step .dropReceiver
    .ok (false, { p with sys := sys })
  else do
    let (_, sys) ← p.sys.step .recv
    { p with sys := sys }.awaitRecv w

/-- The two tasks, each of which is polled with wakers of its own. -/
def tasks (name : Waker.Task W → Role) : Tasks Fault (Session T W) W Role where
  task := roleOf name
  finished p
    | .sender => !p.sys.sender
    | .receiver => !p.sys.receiver
  turn p w := do
    let (again, q) ← match roleOf name w with
      | .sender => p.senderTurn w
      | .receiver => p.receiverTurn w
    .ok (turnOf name again p.sys.wakes q.sys.wakes, q)

end Turns

end Session

/-! ### What every turn keeps -/

/-- The borrow checker allows the operation. -/
def Sys.allows (s : Sys T W) : Op T W → Bool
  | .trySend _ | .send _ | .dropSender => s.senderFree
  | .pollSend _ | .cancelSend => s.sending.isSome
  | .recv | .dropReceiver => s.receiverFree
  | .pollRecv _ | .cancelRecv => s.receiving

/-- An operation that is allowed is not ignored. -/
theorem Sys.step_ne_ignored [Target] [Waker W] {s t : Sys T W} {op : Op T W}
    (ha : s.allows op = true) : s.step op ≠ .ok (.ignored, t) := by
  intro h
  cases op with
  | trySend v =>
    rw [Sys.step, if_pos (show s.senderFree = true from ha), Sys.trySend] at h
    cases hacc : s.access <;> rw [hacc] at h <;> cases h
  | send v =>
    rw [Sys.step, if_pos (show s.senderFree = true from ha)] at h
    cases h
  | pollSend w =>
    obtain ⟨send, hs⟩ := Option.isSome_iff_exists.mp (show s.sending.isSome = true from ha)
    simp only [Sys.step, hs, Sys.pollSend] at h
    cases hacc : s.access with
    | error e =>
      rw [hacc] at h
      cases h
    | ok b =>
      rw [hacc, ok_bind] at h
      cases hp : send.poll b w with
      | error e =>
        rw [hp] at h
        cases h
      | ok r =>
        rw [hp, ok_bind] at h
        split at h <;> cases h
  | cancelSend =>
    rw [Sys.step, if_pos (show s.sending.isSome = true from ha)] at h
    cases h
  | recv =>
    rw [Sys.step, if_pos (show s.receiverFree = true from ha)] at h
    cases h
  | pollRecv w =>
    rw [Sys.step, if_pos (show s.receiving = true from ha), Sys.pollRecv] at h
    cases hacc : s.access with
    | error e =>
      rw [hacc] at h
      cases h
    | ok b =>
      rw [hacc, ok_bind] at h
      generalize recvPoll b w = r at h
      obtain ⟨poll, b', woken⟩ := r
      rcases poll with _ | _ | v <;> cases h
  | cancelRecv =>
    rw [Sys.step, if_pos (show s.receiving = true from ha)] at h
    cases h
  | dropSender =>
    rw [Sys.step, if_pos (show s.senderFree = true from ha)] at h
    cases hacc : s.access <;> rw [hacc] at h <;> cases h
  | dropReceiver =>
    rw [Sys.step, if_pos (show s.receiverFree = true from ha)] at h
    cases hacc : s.access <;> rw [hacc] at h <;> cases h

/-- What the channel owes to the tasks at its ends. -/
structure Sys.Sound [Waker W] (s : Sys T W) : Prop where
  inv : Inv s
  fifo : Fifo s
  recvAwake : RecvAwake s
  sendAwake : SendAwake s

/-- Every operation succeeds and is one of the moves, which all keep this. -/
theorem Sys.Sound.step [Target] [Waker W] {s : Sys T W} (h : s.Sound) (op : Op T W)
    (ha : s.allows op = true) :
    ∃ out t, s.step op = .ok (out, t) ∧ out ≠ .ignored ∧ Move s op out t ∧ t.Sound := by
  obtain ⟨out, t, hs, m⟩ := h.inv.step_move op
  refine ⟨out, t, hs, ?_, m,
    ⟨h.inv.move m, h.fifo.move h.inv m, h.recvAwake.move m, h.sendAwake.move m⟩⟩
  rintro rfl
  exact Sys.step_ne_ignored ha hs

/-- A new channel owes nothing yet. -/
theorem Sys.Sound.new [Target] [Layout T] [Waker W] (setup : Setup) :
    (Sys.new (setup.create : Option (Inner T W))).Sound :=
  ⟨.new setup, .new setup, Awake.idle, Awake.idle⟩

/-- The messages in the buffer. -/
def Sys.buffered (s : Sys T W) : List T :=
  match s.inner with
  | some b => b.value.buf.items
  | none => []

private theorem Sys.buffered_le {s t : Sys T W} {b : Inner T W} (hb : s.inner = some b)
    (h : ∀ c, t.inner = some c → c.value.buf = b.value.buf) :
    t.buffered.length ≤ s.buffered.length := by
  unfold Sys.buffered
  rw [hb]
  cases ht : t.inner with
  | none => exact Nat.zero_le _
  | some c =>
    show c.value.buf.items.length ≤ b.value.buf.items.length
    rw [h c ht]

/-- The buffer can hold a message, and the waker of the sender is its own. -/
structure Wired [Waker W] (name : Waker.Task W → Role) (b : Inner T W) : Prop where
  room : b.value.unbounded = true ∨ 0 < b.value.buf.capacity
  tx : ∀ w, b.value.tx = some w → roleOf name w = .sender

/-- What a turn of a task uses up. A poll of the receiver may wake the sender. -/
def Role.cost : Role → Nat
  | .sender => 1
  | .receiver => 2

section Wired

variable [Waker W] {name : Waker.Task W → Role} {b : Inner T W}

/-- Waking a slot costs no more than a turn of the receiver. -/
theorem slot_cost (name : Waker.Task W → Role) (slot : Option W) :
    ((slot.toList.map (roleOf name)).map Role.cost).sum ≤ 2 := by
  cases slot with
  | none => exact Nat.zero_le 2
  | some w =>
    simp only [Option.toList, List.map_cons, List.map_nil, List.sum_cons, List.sum_nil]
    cases roleOf name w <;> decide

/-- Waking the slot of the sender costs no more than a turn of its own. -/
theorem Wired.tx_cost (h : Wired name b) :
    ((b.value.tx.toList.map (roleOf name)).map Role.cost).sum ≤ 1 := by
  cases hx : b.value.tx with
  | none => simp
  | some w => simp [h.tx w hx, Role.cost]

end Wired

namespace Session

variable [Waker W] {name : Waker.Task W → Role} {values : List T} {wants : Option Nat}
  {p : Session T W}

/-- The receiver has what it wants and is gone. -/
def Left (p : Session T W) : Prop := p.sys.receiver = false ∧ p.wants = some 0

/-- The channel is wired to the tasks, every value is accounted for until the receiver leaves
early, and it leaves early only with what it wants. -/
structure Keeps (name : Waker.Task W → Role) (values : List T) (wants : Option Nat)
    (p : Session T W) : Prop where
  sound : p.sys.Sound
  wired : ∀ b, p.sys.inner = some b → Wired name b
  offered : p.sys.offer.isSome = p.sys.sending.isSome
  sent : accepted p.sys.settled ++ p.sys.offer.toList ++ p.unsent = values ∨
    p.Left ∧ accepted p.sys.settled <+: values
  collected : p.out = p.sys.received
  counted : p.wants.map (· + p.out.length) = wants
  wanting : p.sys.receiving = true → p.wants ≠ some 0
  returned : p.sys.sender = false → p.unsent = []
  ended : p.sys.receiver = false → p.sys.ended = true ∨ p.wants = some 0

/-- The task waits for the channel. -/
def Waits (name : Waker.Task W → Role) (p : Session T W) : Role → Prop
  | .sender => Asleep name p.sys.wakes p.sys.sendPending .sender
  | .receiver => Asleep name p.sys.wakes p.sys.recvPending .receiver

/-- What is left to do: a value is sent, buffered and received, and both tasks return. -/
def potential (p : Session T W) : Nat :=
  5 * (p.unsent.length + p.sys.offer.toList.length) + 2 * p.sys.buffered.length +
    3 * p.sys.sender.toNat + 3 * p.sys.receiver.toNat

/-- A turn of a task between two states. -/
abbrev Turned [Target] (name : Waker.Task W → Role) (p : Session T W) (role : Role)
    (again : Bool) (q : Session T W) : Prop :=
  (tasks name).Advances (Waits name) potential Role.cost p role
    (turnOf name again p.sys.wakes q.sys.wakes) q

private theorem Keeps.accepted_prefix (h : Keeps name values wants p) :
    accepted p.sys.settled <+: values := by
  rcases h.sent with hsent | ⟨-, hpre⟩
  · rw [List.append_assoc] at hsent
    exact ⟨_, hsent⟩
  · exact hpre

private theorem Keeps.all_there (h : Keeps name values wants p) (hr : p.sys.receiver = true) :
    accepted p.sys.settled ++ p.sys.offer.toList ++ p.unsent = values :=
  h.sent.resolve_right fun hleft => Bool.false_ne_true (hleft.1.1.symm.trans hr)

private theorem Keeps.left (h : Keeps name values wants p) (hs : p.sys.sender = true)
    (hr : p.sys.receiver = false) : p.Left :=
  ⟨hr, (h.ended hr).resolve_left fun he =>
    Bool.false_ne_true ((h.sound.fifo.ended he).1.symm.trans hs)⟩

private theorem Keeps.receiver_waits (h : Keeps name values wants p) (hw : Waits name p .receiver) :
    p.sys.sender = true ∧ ∃ b, p.sys.inner = some b ∧ b.value.buf.items = [] := by
  obtain ⟨_, ⟨b, hb, hempty, hs, -⟩, -⟩ := Asleep.reason hw h.sound.recvAwake
  exact ⟨hs, b, hb, hempty⟩

private theorem Keeps.sender_waits (h : Keeps name values wants p) (hw : Waits name p .sender) :
    p.sys.receiver = true ∧ ∃ b, p.sys.inner = some b ∧ b.value.buf.items ≠ [] := by
  obtain ⟨w, ⟨b, hb, hcap, hr, -⟩, -⟩ := Asleep.reason hw h.sound.sendAwake
  refine ⟨hr, b, hb, fun hempty => ?_⟩
  simp only [Shared.atCapacity, VecDeque.len, hempty, List.length_nil, Bool.and_eq_true,
    Bool.not_eq_true', beq_iff_eq] at hcap
  rcases (h.wired b hb).room with hu | hpos
  · rw [hu] at hcap
    cases hcap.1
  · omega

/-- The tasks do not sleep both: one would find the buffer empty, the other one full. -/
theorem Keeps.awake [Target] (h : Keeps name values wants p)
    (hw : ∀ i, (tasks name).finished p i = false → Waits name p i) :
    ∀ i, (tasks name).finished p i = true := by
  have hsender : p.sys.sender = false := by
    by_contra hno
    have hlive : p.sys.sender = true := by simpa using hno
    obtain ⟨hr, b, hb, hfull⟩ := h.sender_waits (hw .sender (by simp [tasks, hlive]))
    obtain ⟨-, b', hb', hempty⟩ := h.receiver_waits (hw .receiver (by simp [tasks, hr]))
    cases hb.symm.trans hb'
    exact hfull hempty
  have hreceiver : p.sys.receiver = false := by
    by_contra hno
    have hlive : p.sys.receiver = true := by simpa using hno
    have hwait := h.receiver_waits (hw .receiver (by simp [tasks, hlive]))
    rw [hsender] at hwait
    cases hwait.1
  intro i
  cases i with
  | sender => simp [tasks, hsender]
  | receiver => simp [tasks, hreceiver]

variable [Target]

/-- A turn of the sender that leaves the receiver alone or wakes it. -/
theorem Turned.of_sender {q : Session T W} {again : Bool} {new : List W}
    (hk : Keeps name values wants p) (hs : q.sys.sender = p.sys.sender ∨ q.sys.sender = false)
    (hr : q.sys.receiver = p.sys.receiver) (hp : q.sys.recvPending = p.sys.recvPending)
    (hw : q.sys.wakes = p.sys.wakes ++ new)
    (hrest : again = false → q.sys.sender = true → Waits name q .sender)
    (hpays : potential q + (if again then 1 else 0) +
      ((new.map (roleOf name)).map Role.cost).sum < potential p + 1) :
    Turned name p .sender again q := by
  refine ⟨?_, ?_, ?_, ?_⟩
  · intro j hj
    cases j with
    | sender =>
      rcases hs with hs | hs
      · simpa [tasks, hs] using hj
      · simp [tasks, hs]
    | receiver => simpa [tasks, hr] using hj
  · intro ha hf
    exact hrest ha (by simpa [tasks] using hf)
  · intro j hj hn hwait
    cases j with
    | sender => exact absurd rfl hj
    | receiver =>
      rw [hw, turnOf_append] at hn
      show Asleep name q.sys.wakes q.sys.recvPending .receiver
      rw [hw, hp]
      exact Asleep.keep hwait hk.sound.recvAwake hn
  · rw [hw, turnOf_append]
    exact hpays

/-- A turn of the receiver that leaves the sender alone or wakes it. -/
theorem Turned.of_receiver {q : Session T W} {again : Bool} {new : List W}
    (hk : Keeps name values wants p) (hr : q.sys.receiver = p.sys.receiver ∨ q.sys.receiver = false)
    (hs : q.sys.sender = p.sys.sender) (hp : q.sys.sendPending = p.sys.sendPending)
    (hw : q.sys.wakes = p.sys.wakes ++ new)
    (hrest : again = false → q.sys.receiver = true → Waits name q .receiver)
    (hpays : potential q + (if again then 2 else 0) +
      ((new.map (roleOf name)).map Role.cost).sum < potential p + 2) :
    Turned name p .receiver again q := by
  refine ⟨?_, ?_, ?_, ?_⟩
  · intro j hj
    cases j with
    | sender => simpa [tasks, hs] using hj
    | receiver =>
      rcases hr with hr | hr
      · simpa [tasks, hr] using hj
      · simp [tasks, hr]
  · intro ha hf
    exact hrest ha (by simpa [tasks] using hf)
  · intro j hj hn hwait
    cases j with
    | sender =>
      rw [hw, turnOf_append] at hn
      show Asleep name q.sys.wakes q.sys.sendPending .sender
      rw [hw, hp]
      exact Asleep.keep hwait hk.sound.sendAwake hn
    | receiver => exact absurd rfl hj
  · rw [hw, turnOf_append]
    exact hpays

/-- A poll of `send` delivers the value, finds the buffer full and waits, or fails because the
receiver has left. -/
theorem Keeps.awaitSend (h : Keeps name values wants p) (hs : p.sys.sending.isSome = true) {w : W}
    (hw : roleOf name w = .sender) :
    ∃ again q, p.awaitSend w = .ok (again, q) ∧ Keeps name values wants q ∧
      Turned name p .sender again q := by
  obtain ⟨out, t, hstep, hne, m, ht⟩ := h.sound.step (.pollSend w) hs
  obtain ⟨send, hsend⟩ := Option.isSome_iff_exists.mp hs
  obtain ⟨hlive, v, hv, hoffer⟩ := h.sound.inv.sendAlive send hsend
  cases m with
  | ignored => exact absurd rfl hne
  | @sendFail b v' _ hb hv' hr =>
    have hwired := h.wired b hb
    refine ⟨true, _, by rw [Session.awaitSend, hstep]; rfl, ?_, ?_⟩
    · refine ⟨ht, ?_, rfl, Or.inr ⟨h.left hlive hr, ?_⟩, h.collected, h.counted, h.wanting, ?_,
        h.ended⟩
      · rintro _ ⟨⟩
        exact ⟨hwired.room, fun w hw => (by cases hw)⟩
      · show accepted (p.sys.settled ++ [(v', _)]) <+: values
        rw [accepted_other _ _ (by simp)]
        exact h.accepted_prefix
      · intro hgone
        exact absurd (hgone.symm.trans hlive) Bool.false_ne_true
    · refine .of_sender h (Or.inl rfl) rfl rfl (List.append_nil _).symm (fun ha => by cases ha) ?_
      have hle : (if p.stops = true then [] else p.unsent).length ≤ p.unsent.length := by
        split
        · exact Nat.zero_le _
        · exact Nat.le_refl _
      simp only [potential, Sys.endSend, Sys.settle, Sys.buffered, hb, hoffer, Option.toList,
        List.length_singleton, List.length_nil, List.map_nil, List.sum_nil, if_true]
      omega
  | @sent b v' _ hb hv' hr hc =>
    have hwired := h.wired b hb
    cases hsend.symm.trans hv'
    cases hv
    refine ⟨true, _, by rw [Session.awaitSend, hstep]; rfl, ?_, ?_⟩
    · refine ⟨ht, ?_, rfl, Or.inl ?_, h.collected, h.counted, h.wanting, h.returned, h.ended⟩
      · rintro _ ⟨⟩
        exact ⟨Or.inr (by simp [Shared.pushBack, VecDeque.pushBack]), hwired.tx⟩
      · have hsent := h.all_there hr
        rw [hoffer] at hsent
        simpa [Sys.endSend, Sys.settle, Sys.put, accepted_settle] using hsent
    · refine .of_sender h (Or.inl rfl) rfl rfl rfl (fun ha => by cases ha) ?_
      have hcost := slot_cost name b.value.rx
      simp only [potential, Sys.endSend, Sys.settle, Sys.put, Sys.buffered, hb, hoffer,
        Shared.pushBack, VecDeque.pushBack_items, List.length_append, Option.toList,
        List.length_singleton, List.length_nil, if_true] at hcost ⊢
      omega
  | @sendPark b v' _ hb hv' hr hc =>
    have hwired := h.wired b hb
    refine ⟨false, _, by rw [Session.awaitSend, hstep]; rfl, ?_, ?_⟩
    · refine ⟨ht, ?_, h.offered, h.sent, h.collected, h.counted, h.wanting, h.returned, h.ended⟩
      rintro _ ⟨⟩
      exact ⟨hwired.room, roleOf_register hw⟩
    · refine .of_sender h (Or.inl rfl) rfl rfl (List.append_nil _).symm (fun _ _ => .park hw) ?_
      simp [potential, Sys.buffered, hb]

/-- A poll of `recv` collects a value and goes on, returns at the end of the channel, or finds
the buffer empty and waits. -/
theorem Keeps.awaitRecv (h : Keeps name values wants p) (hr : p.sys.receiving = true) {w : W}
    (hw : roleOf name w = .receiver) :
    ∃ again q, p.awaitRecv w = .ok (again, q) ∧ Keeps name values wants q ∧
      Turned name p .receiver again q := by
  obtain ⟨out, t, hstep, hne, m, ht⟩ := h.sound.step (.pollRecv w) hr
  have hlive := h.sound.inv.recvAlive hr
  cases m with
  | ignored => exact absurd rfl hne
  | @received b v buf _ hb _ hv =>
    have hwired := h.wired b hb
    obtain ⟨hitems, hcap⟩ := VecDeque.popFront_eq_some hv
    refine ⟨true, _, by rw [Session.awaitRecv, hstep]; rfl, ?_, ?_⟩
    · refine ⟨ht, ?_, h.offered, Or.inl (h.all_there hlive), ?_, ?_, ?_, h.returned, ?_⟩
      · rintro _ ⟨⟩
        exact ⟨by rw [hcap]; exact hwired.room, hwired.tx⟩
      · show p.out ++ [v] = p.sys.received ++ [v]
        rw [h.collected]
      · have hcounted := h.counted
        have hwanting := h.wanting hr
        cases hleft : p.wants with
        | none =>
          rw [hleft] at hcounted
          simpa using hcounted
        | some k =>
          rw [hleft] at hcounted hwanting
          have hpos : k ≠ 0 := fun hk => hwanting (by rw [hk])
          simp only [Option.map_some, List.length_append, List.length_singleton] at hcounted ⊢
          rw [← hcounted]
          congr 1
          omega
      · intro hno
        cases hno
      · intro hgone
        exact absurd (hgone.symm.trans hlive) Bool.false_ne_true
    · refine .of_receiver h (Or.inl rfl) rfl rfl rfl (fun ha => by cases ha) ?_
      have hcost := hwired.tx_cost
      simp only [potential, Sys.endRecv, Sys.put, Sys.buffered, hb, hitems, List.length_cons,
        if_true] at hcost ⊢
      omega
  | @recvPark b _ hb _ hv hs =>
    have hwired := h.wired b hb
    refine ⟨false, _, by rw [Session.awaitRecv, hstep]; rfl, ?_, ?_⟩
    · refine ⟨ht, ?_, h.offered, h.sent, h.collected, h.counted, h.wanting, h.returned, h.ended⟩
      rintro _ ⟨⟩
      exact ⟨hwired.room, hwired.tx⟩
    · refine .of_receiver h (Or.inl rfl) rfl rfl rfl ?_ ?_
      · intro _ _
        show Asleep name (p.sys.wakes ++ b.value.tx.toList) (some (w, _)) .receiver
        rw [← List.length_append]
        exact .park hw
      · have hcost := hwired.tx_cost
        simp only [potential, Sys.put, Sys.buffered, hb] at hcost ⊢
        simp only [Bool.false_eq_true, if_false]
        omega
  | @recvEnd b _ hb _ hv hs =>
    have hwired := h.wired b hb
    obtain ⟨out', t', hstep', hne', m', ht'⟩ := ht.step .dropReceiver
      (show _ = true by simp [Sys.allows, Sys.receiverFree, Sys.endRecv, hlive])
    cases m' with
    | ignored => exact absurd rfl hne'
    | @dropReceiver b' hb' hf =>
      cases hb'
      refine ⟨false, _, by
        rw [Session.awaitRecv, hstep]
        simp only [ok_bind, hstep']
        rfl, ?_, ?_⟩
      · refine ⟨ht', ?_, h.offered, Or.inl (h.all_there hlive), h.collected, h.counted,
          (fun hno => by cases hno), h.returned, fun _ => Or.inl rfl⟩
        intro c hc
        simp [Sys.put, Sys.endRecv, hs] at hc
      · refine .of_receiver h (Or.inr rfl) rfl rfl rfl (fun _ hr' => by cases hr') ?_
        have hcost := hwired.tx_cost
        simp only [potential, Sys.endRecv, Sys.put, Sys.buffered, hb, hs, hlive] at hcost ⊢
        simp only [Bool.false_eq_true, if_false, Bool.toNat_true, Bool.toNat_false, List.length_nil]
        omega

private theorem Turned.of_eq {u q : Session T W} {role : Role} {again : Bool}
    (h : Turned name u role again q) (hf : (tasks name).finished u = (tasks name).finished p)
    (hw : u.sys.wakes = p.sys.wakes) (hs : u.sys.sendPending = p.sys.sendPending)
    (hr : u.sys.recvPending = p.sys.recvPending) (hp : potential u = potential p) :
    Turned name p role again q := by
  refine ⟨by rw [← hf]; exact h.stays, h.rests, ?_, by rw [← hw, ← hp]; exact h.pays⟩
  intro j hj hn hwait
  rw [← hw] at hn
  refine h.sleeps j hj hn ?_
  cases j with
  | sender =>
    show Asleep name u.sys.wakes u.sys.sendPending .sender
    rw [hw, hs]
    exact hwait
  | receiver =>
    show Asleep name u.sys.wakes u.sys.recvPending .receiver
    rw [hw, hr]
    exact hwait

/-- A turn of the sender polls its `send`, starts another one, or drops the sender. -/
theorem Keeps.senderTurn (h : Keeps name values wants p) (hlive : p.sys.sender = true) {w : W}
    (hw : roleOf name w = .sender) :
    ∃ again q, p.senderTurn w = .ok (again, q) ∧ Keeps name values wants q ∧
      Turned name p .sender again q := by
  unfold Session.senderTurn
  by_cases hs : p.sys.sending.isSome = true
  · rw [if_pos hs]
    exact h.awaitSend hs hw
  · rw [if_neg hs]
    have hnone : p.sys.sending = none := by simpa using hs
    have hfree : p.sys.senderFree = true := senderFree_iff.mpr ⟨hlive, hnone⟩
    have hoffer : p.sys.offer = none := by simpa [hnone] using h.offered
    cases hu : p.unsent with
    | cons value rest =>
      have hstep : p.sys.step (.send value) =
          .ok (.done, { p.sys with sending := some ⟨some value⟩, offer := some value }) := by
        rw [Sys.step, if_pos hfree]
      obtain ⟨out, t, hstep', -, -, ht⟩ := h.sound.step (.send value) hfree
      cases hstep.symm.trans hstep'
      have hstart : Keeps name values wants { p with
          sys := { p.sys with sending := some ⟨some value⟩, offer := some value }
          unsent := rest } := by
        refine ⟨ht, h.wired, rfl, h.sent.imp_left fun hsent => ?_, h.collected, h.counted,
          h.wanting, ?_, h.ended⟩
        · rw [hoffer, hu] at hsent
          simpa using hsent
        · intro hgone
          exact absurd (hgone.symm.trans hlive) Bool.false_ne_true
      obtain ⟨again, q, hq, hk, hturn⟩ := hstart.awaitSend rfl hw
      refine ⟨again, q, ?_, hk, hturn.of_eq rfl rfl rfl rfl ?_⟩
      · simp only [hstep, ok_bind]
        exact hq
      · simp only [potential, hu, hoffer, Sys.buffered, List.length_cons, Option.toList,
          List.length_nil]
    | nil =>
      obtain ⟨out, t, hstep, hne, m, ht⟩ := h.sound.step .dropSender hfree
      cases m with
      | ignored => exact absurd rfl hne
      | @dropSender b hb _ =>
        have hwired := h.wired b hb
        refine ⟨false, _, by simp only [hstep, ok_bind]; rfl, ?_, ?_⟩
        · refine ⟨ht, ?_, h.offered, ?_, h.collected, h.counted, h.wanting, fun _ => rfl, h.ended⟩
          · intro c hc
            simp only [Sys.put] at hc
            split at hc
            · cases hc
              exact ⟨hwired.room, hwired.tx⟩
            · cases hc
          · have hsent := h.sent
            rw [hu] at hsent
            exact hsent
        · refine .of_sender h (Or.inr rfl) rfl rfl rfl (fun _ hs' => by cases hs') ?_
          have hcost := slot_cost name b.value.rx
          have hbuf : (Sys.buffered { p.sys.put (if p.sys.receiver then
              some ⟨{ b.value with rx := none }, 1⟩ else none) b.value.rx.toList with
                sender := false }).length ≤ p.sys.buffered.length := by
            refine Sys.buffered_le hb fun c hc => ?_
            simp only [Sys.put] at hc
            split at hc
            · cases hc
              rfl
            · cases hc
          simp only [potential, hu, hlive, Bool.toNat_true, Bool.toNat_false, Sys.put,
            Bool.false_eq_true, if_false] at hcost hbuf ⊢
          omega

/-- A receiver that has what it wants drops its end. -/
theorem Keeps.leave (h : Keeps name values wants p) (hfree : p.sys.receiverFree = true)
    (hw : p.wants = some 0) :
    ∃ t, p.sys.step .dropReceiver = .ok (.done, t) ∧ Keeps name values wants { p with sys := t } ∧
      Turned name p .receiver false { p with sys := t } := by
  have hlive := (receiverFree_iff.mp hfree).1
  obtain ⟨out, t, hstep, hne, m, ht⟩ := h.sound.step .dropReceiver hfree
  cases m with
  | ignored => exact absurd rfl hne
  | @dropReceiver b hb _ =>
    have hwired := h.wired b hb
    refine ⟨_, hstep, ⟨ht, ?_, h.offered, Or.inr ⟨⟨rfl, hw⟩, h.accepted_prefix⟩, h.collected,
      h.counted, h.wanting, h.returned, fun _ => Or.inr hw⟩, ?_⟩
    · intro c hc
      simp only [Sys.put] at hc
      split at hc
      · cases hc
        exact ⟨hwired.room, fun w hw => (by cases hw)⟩
      · cases hc
    · refine .of_receiver h (Or.inr rfl) rfl rfl rfl (fun _ hr' => by cases hr') ?_
      have hcost := hwired.tx_cost
      have hbuf : (Sys.buffered { p.sys.put (if p.sys.sender then
          some ⟨{ b.value with tx := none }, 1⟩ else none) b.value.tx.toList with
            receiver := false }).length ≤ p.sys.buffered.length := by
        refine Sys.buffered_le hb fun c hc => ?_
        simp only [Sys.put] at hc
        split at hc
        · cases hc
          rfl
        · cases hc
      simp only [potential, hlive, Bool.toNat_true, Bool.toNat_false, Sys.put,
        Bool.false_eq_true, if_false] at hcost hbuf ⊢
      omega

/-- A turn of the receiver polls its `recv`, starts another one, or drops the receiver. -/
theorem Keeps.receiverTurn (h : Keeps name values wants p) (hlive : p.sys.receiver = true) {w : W}
    (hw : roleOf name w = .receiver) :
    ∃ again q, p.receiverTurn w = .ok (again, q) ∧ Keeps name values wants q ∧
      Turned name p .receiver again q := by
  unfold Session.receiverTurn
  by_cases hr : p.sys.receiving = true
  · rw [if_pos hr]
    exact h.awaitRecv hr hw
  · rw [if_neg hr]
    have hfree : p.sys.receiverFree = true := receiverFree_iff.mpr ⟨hlive, by simpa using hr⟩
    by_cases hwant : p.wants = some 0
    · obtain ⟨t, hstep, hk, hturn⟩ := h.leave hfree hwant
      exact ⟨false, _, by rw [if_pos hwant, hstep]; rfl, hk, hturn⟩
    · rw [if_neg hwant]
      have hstep : p.sys.step .recv = .ok (.done, { p.sys with receiving := true }) := by
        rw [Sys.step, if_pos hfree]
      obtain ⟨out, t, hstep', -, -, ht⟩ := h.sound.step .recv hfree
      cases hstep.symm.trans hstep'
      have hstart : Keeps name values wants { p with sys := { p.sys with receiving := true } } :=
        ⟨ht, h.wired, h.offered, h.sent, h.collected, h.counted, fun _ => hwant, h.returned,
          h.ended⟩
      obtain ⟨again, q, hq, hk, hturn⟩ := hstart.awaitRecv rfl hw
      refine ⟨again, q, ?_, hk, hturn.of_eq rfl rfl rfl rfl rfl⟩
      simp only [hstep, ok_bind]
      exact hq

/-- The two tasks cooperate. -/
theorem cooperates (name : Waker.Task W → Role) (values : List T) (wants : Option Nat) :
    (tasks name : Tasks Fault (Session T W) W Role).Cooperates (Keeps name values wants)
      (Waits name) potential Role.cost := by
  refine ⟨?_, fun p h hw => h.awake hw⟩
  intro p w h hf
  have hrole : (tasks name : Tasks Fault (Session T W) W Role).task w = roleOf name w := rfl
  cases hw : roleOf name w with
  | sender =>
    rw [hrole, hw] at hf ⊢
    obtain ⟨again, q, hq, hk, hturn⟩ := h.senderTurn (by simpa [tasks] using hf) hw
    exact ⟨_, q, by simp only [tasks, hw, hq, ok_bind], hk, hturn⟩
  | receiver =>
    rw [hrole, hw] at hf ⊢
    obtain ⟨again, q, hq, hk, hturn⟩ := h.receiverTurn (by simpa [tasks] using hf) hw
    exact ⟨_, q, by simp only [tasks, hw, hq, ok_bind], hk, hturn⟩

/-- A channel that was made is wired to the tasks that were spawned. -/
theorem Keeps.new [Layout T] (name : Waker.Task W → Role) {setup : Setup}
    (hs : (setup.create : Option (Inner T W)).isSome = true) (values : List T) (stops : Bool)
    (wants : Option Nat) :
    Keeps name values wants (.new (setup.create : Option (Inner T W)) values stops wants) := by
  refine ⟨.new setup, ?_, rfl, Or.inl rfl, rfl, ?_, (fun hno => by cases hno), ?_, ?_⟩
  · intro b hb
    simp only [Session.new, Sys.new] at hb
    cases setup with
    | unbounded =>
      cases hb
      exact ⟨Or.inl rfl, fun w hw => (by cases hw)⟩
    | bounded capacity =>
      simp only [Setup.create, channel] at hb
      split at hb
      · next hpos =>
        cases hb
        refine ⟨Or.inr ?_, fun w hw => (by cases hw)⟩
        show 0 < (if Layout.zeroSized T then usizeMax else capacity)
        split
        · have hwide := Nat.pow_le_pow_right (n := 2) (by decide) Target.wide
          simp only [usizeMax]
          omega
        · exact hpos
      · cases hb
  · cases wants <;> rfl
  · intro hgone
    simp [Session.new, Sys.new, hs] at hgone
  · intro hgone
    simp [Session.new, Sys.new, hs] at hgone

omit [Target] in
/-- What was collected is a prefix of the values, and when the receiver has returned, all it
wanted. -/
theorem Keeps.out_prefix (h : Keeps name values wants p) :
    p.out <+: values ∧
      (p.sys.receiver = false → p.out = values.take (wants.getD values.length)) := by
  have hpre : p.out <+: values := by
    rw [h.collected]
    exact h.sound.fifo.delivered.trans h.accepted_prefix
  have hcounted := h.counted
  refine ⟨hpre, fun hr => ?_⟩
  by_cases hw : p.wants = some 0
  · rw [hw, Option.map_some, Nat.zero_add] at hcounted
    rw [← hcounted]
    exact List.prefix_iff_eq_take.mp hpre
  · obtain ⟨hgone, hall⟩ := h.sound.fifo.ended ((h.ended hr).resolve_right hw)
    have hnone : p.sys.sending = none := by
      by_contra hsome
      obtain ⟨send, hsend⟩ := Option.ne_none_iff_exists'.mp hsome
      exact Bool.false_ne_true (hgone.symm.trans (h.sound.inv.sendAlive send hsend).1)
    have hoffer : p.sys.offer = none := by simpa [hnone] using h.offered
    have hsent := h.sent.resolve_right fun hleft => hw hleft.1.2
    rw [hoffer, h.returned hgone, Option.toList, List.append_nil, List.append_nil, ← hall,
      ← h.collected] at hsent
    rw [hsent]
    refine (List.take_of_length_le ?_).symm
    cases hleft : p.wants with
    | none =>
      rw [hleft] at hcounted
      rw [← hcounted]
      exact Nat.le_refl _
    | some k =>
      rw [hleft, hsent] at hcounted
      rw [← hcounted]
      exact Nat.le_add_left _ _

/-- However the executor schedules the two tasks, whichever wakers it polls them with, whether
or not the sender stops at errors and however many values the receiver wants: no turn panics,
the receiver collects the values in order, there are at most five turns for each value and nine
more, and as long as the two have not both returned, one of them is scheduled. When they have,
the receiver has what it wanted, or everything. -/
theorem all_values_arrive [Layout T] (name : Waker.Task W → Role) {setup : Setup}
    (hs : (setup.create : Option (Inner T W)).isSome = true) (values : List T) (stops : Bool)
    (wants : Option Nat) (schedule : List W)
    (hk : (tasks name).Schedule (.start (.new setup.create values stops wants : Session T W))
      schedule) :
    ∃ outs m, run (tasks name).poll (.start (.new setup.create values stops wants)) schedule =
        .ok (outs, m) ∧
      m.shared.out <+: values ∧ schedule.length ≤ 5 * values.length + 9 ∧
      ((∃ role, (tasks name).Ready m role) ∨
        (∀ role, (tasks name).finished m.shared role = true) ∧
          m.shared.out = values.take (wants.getD values.length)) := by
  obtain ⟨outs, m, hrun, h, hlen, hend⟩ := (cooperates name values wants).run
    (Tasks.Sound.start (Keeps.new name hs values stops wants)) hk
  have hrank : (tasks name).rank potential Role.cost
      (.start (.new setup.create values stops wants : Session T W)) ≤ 5 * values.length + 9 := by
    refine Tasks.rank_start_le _ |>.trans ?_
    have hcost : ∑ role : Role, role.cost = 3 := rfl
    have hbuf : (Session.new setup.create values stops wants : Session T W).sys.buffered = [] := by
      obtain ⟨b, hb⟩ := Option.isSome_iff_exists.mp hs
      simp only [Session.new, Sys.new, Sys.buffered, hb]
      exact (Setup.create_eq hb).2
    have hpot : potential (.new setup.create values stops wants : Session T W) =
        5 * values.length + 6 := by
      simp only [potential, hbuf]
      simp [Session.new, Sys.new, hs]
    omega
  obtain ⟨hpre, hall⟩ := h.out_prefix
  refine ⟨outs, m, hrun, hpre, by omega, hend.imp_right fun hf => ⟨hf, hall ?_⟩⟩
  simpa [tasks] using hf .receiver

omit [Target] in
/-- The receiver waits first and wants one value, and the sender is told that it has left. -/
theorem all_values_arrive_two_numbers :
    ∃ outs m, run (@tasks Nat (TaskWaker Role) ⟨64, by decide⟩ _ id).poll
        (.start (.new (@Setup.create Nat (TaskWaker Role) ⟨64, by decide⟩ ⟨false⟩ (.bounded 1))
          [5, 8] true (some 1)))
        [⟨.receiver, 0⟩, ⟨.sender, 1⟩, ⟨.sender, 1⟩, ⟨.receiver, 2⟩, ⟨.receiver, 2⟩,
          ⟨.sender, 3⟩] = .ok (outs, m) ∧
      m.shared.out <+: [5, 8] ∧ 6 ≤ 5 * 2 + 9 ∧
      ((∃ role, (@tasks Nat (TaskWaker Role) ⟨64, by decide⟩ _ id).Ready m role) ∨
        (∀ role, (@tasks Nat (TaskWaker Role) ⟨64, by decide⟩ _ id).finished m.shared role =
          true) ∧ m.shared.out = [5]) :=
  @all_values_arrive Nat (TaskWaker Role) _ ⟨64, by decide⟩ ⟨false⟩ id (.bounded 1) rfl [5, 8] true
    (some 1)
    [⟨.receiver, 0⟩, ⟨.sender, 1⟩, ⟨.sender, 1⟩, ⟨.receiver, 2⟩, ⟨.receiver, 2⟩, ⟨.sender, 3⟩]
    (by decide)

end Session

end Spsc
end Unsync
