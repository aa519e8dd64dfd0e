import Unsync.Broadcast.Wake
import Unsync.Tasks
import Mathlib.Data.Fin.VecNotation
import Mathlib.Data.Fintype.BigOperators
import Mathlib.Tactic.Ring

/-!
# A sending task and receiving tasks

The program of `tests/broadcast.rs:10–66`: the channel gets its subscribers, then one task
sends values and drops its end, and each other task collects them until `recv` resolves to
`None`, or until it has as many as it wants, and drops its end then. A turn takes a task from
one `await` to the next. The executor may switch tasks at every `await`, which covers tasks that
yield between two of them.
-/

namespace Unsync
namespace Broadcast

open Runs Executor

/-- The sender, and the receivers. -/
inductive Role (k : Nat) where
  | sender
  | receiver (i : Fin k)
  deriving DecidableEq, Repr

/-- Roles can be listed. -/
def Role.equiv (k : Nat) : Option (Fin k) ≃ Role k where
  toFun
    | none => .sender
    | some i => .receiver i
  invFun
    | .sender => none
    | .receiver i => some i
  left_inv i := by cases i <;> rfl
  right_inv r := by cases r <;> rfl

instance (k : Nat) : Fintype (Role k) := Fintype.ofEquiv _ (Role.equiv k)

/-- The channel between the tasks, what the sender has not passed to `send` yet, the index of
the `Receiver` that a receiving task owns until it returns, how many values it still wants, if
not all, and what it has collected. Which future a task awaits is up to the channel. -/
structure Session (T W : Type) (k : Nat) where
  sys : Sys T W
  unsent : List T
  owns : Fin k → Option Nat
  wants : Fin k → Option Nat
  out : Fin k → List T

variable {T W : Type} {k : Nat}

namespace Session

/-- A task has been spawned for each subscriber, and one that sends the values. -/
def spawn (k : Nat) (sys : Sys T W) (values : List T) (wants : Fin k → Option Nat) :
    Session T W k :=
  ⟨sys, values, fun i => sys.receivers[i.1]?.map Receiver.index, wants, fun _ => []⟩

/-- Where the receiver with an index stands among the live ones. -/
def position (p : Session T W k) (index : Nat) : Nat :=
  p.sys.receivers.findIdx fun r => r.index == index

section Turns

variable [Target] [Layout T] [Waker W]

/-- Poll `send`, and go on when it resolves. The flag tells whether the task goes on. -/
def awaitSend (p : Session T W k) (w : W) : Except Fault (Bool × Session T W k) := do
  let (out, sys) ← p.sys.step (.pollSend w)
  match out with
  | .sent _ => .ok (true, { p with sys := sys })
  | _ => .ok (false, { p with sys := sys })

/-- A turn of `for n in .. { let _ = tx.send(n).await; }`, after which `tx` is dropped. -/
def senderTurn (p : Session T W k) (w : W) : Except Fault (Bool × Session T W k) :=
  if p.sys.sending.isSome then p.awaitSend w
  else
    match p.unsent with
    | value :: rest => do
      let (_, sys) ← p.sys.step (.send value)
      { p with sys := sys, unsent := rest }.awaitSend w
    | [] => do
      let (_, sys) ← p.sys.step .dropSender
      .ok (false, { p with sys := sys })

/-- The task returns, and `rx` is dropped. -/
def leave (p : Session T W k) (i : Fin k) (at' : Nat) : Except Fault (Bool × Session T W k) := do
  let (_, sys) ← p.sys.step (.dropReceiver at')
  .ok (false, { p with sys := sys, owns := Function.update p.owns i none })

/-- Poll `recv`, and go on when it resolves to a value, or return once it resolves to `None`. -/
def awaitRecv (p : Session T W k) (i : Fin k) (at' : Nat) (w : W) :
    Except Fault (Bool × Session T W k) := do
  let (out, sys) ← p.sys.step (.pollRecv at' w)
  match out with
  | .received (some value) =>
    .ok (true, { p with
      sys := sys
      wants := Function.update p.wants i ((p.wants i).map (· - 1))
      out := Function.update p.out i (p.out i ++ [value]) })
  | .received none => leave { p with sys := sys } i at'
  | _ => .ok (false, { p with sys := sys })

/-- A turn of `while let Some(value) = rx.recv().await { out.push(value) }`, with a `break` once
the task has what it wants. -/
def receiverTurn (p : Session T W k) (i : Fin k) (w : W) :
    Except Fault (Bool × Session T W k) :=
  match p.owns i with
  | none => .ok (false, p)
  | some index =>
    if (p.sys.receivers[p.position index]?).any Receiver.receiving then
      p.awaitRecv i (p.position index) w
    else if p.wants i = some 0 then p.leave i (p.position index)
    else do
      let (_, sys) ← p.sys.step (.recv (p.position index))
      { p with sys := sys }.awaitRecv i (p.position index) w

/-- The tasks, each of which is polled with wakers of its own. -/
def tasks (name : Waker.Task W → Role k) : Tasks Fault (Session T W k) W (Role k) where
  task := roleOf name
  finished p
    | .sender => !p.sys.sender
    | .receiver i => (p.owns i).isNone
  turn p w := do
    let (again, q) ← match roleOf name w with
      | .sender => p.senderTurn w
      | .receiver i => p.receiverTurn i w
    .ok (turnOf name again p.sys.wakes q.sys.wakes, q)

end Turns

end Session

/-! ### What every turn keeps -/

/-- The borrow checker allows the operation. -/
def Sys.allows (s : Sys T W) : Op T W → Bool
  | .subscribe _ => false
  | .trySend _ | .send _ | .dropSender => s.senderFree
  | .pollSend _ | .cancelSend => s.sending.isSome
  | .recv i | .dropReceiver i => (s.receivers[i]?).any fun r => !r.receiving
  | .pollRecv i _ | .cancelRecv i => (s.receivers[i]?).any Receiver.receiving

/-- An operation that is allowed is not ignored. -/
theorem Sys.step_ne_ignored [Target] [Layout T] [Waker W] {s t : Sys T W} {op : Op T W}
    (ha : s.allows op = true) : s.step op ≠ .ok (.ignored, t) := by
  intro h
  have hreceiver : ∀ i borrowed {use}, (s.receivers[i]?).any (fun r => r.receiving == borrowed) =
      true → ∃ r, s.withReceiver i borrowed use = use r := by
    intro i borrowed use hany
    unfold Sys.withReceiver
    cases hr : s.receivers[i]? with
    | none => rw [hr] at hany; cases hany
    | some r =>
      rw [hr, Option.any_some, beq_iff_eq] at hany
      exact ⟨r, if_pos hany⟩
  have hpoll : ∀ v w (u : Sys T W), u.pollSend v w ≠ .ok (.ignored, t) := by
    intro v w u hu
    unfold Sys.pollSend at hu
    cases hacc : u.access with
    | error e =>
      rw [hacc] at hu
      cases hu
    | ok b =>
      rw [hacc, ok_bind] at hu
      generalize sendPoll v b w = r at hu
      obtain ⟨poll, b', d⟩ := r
      rcases poll with _ | n <;> cases hu
  cases op with
  | subscribe key => cases ha
  | trySend v =>
    rw [Sys.step, if_pos (show s.senderFree = true from ha), Sys.trySend] at h
    cases hacc : s.access <;> rw [hacc] at h <;> cases h
  | send v =>
    rw [Sys.step, if_pos (show s.senderFree = true from ha)] at h
    cases h
  | pollSend w =>
    obtain ⟨future, hs⟩ := Option.isSome_iff_exists.mp (show s.sending.isSome = true from ha)
    cases future with
    | unresumed v =>
      simp only [Sys.step, hs] at h
      cases hu : s.resume v with
      | error e =>
        rw [hu] at h
        cases h
      | ok u =>
        rw [hu, ok_bind] at h
        exact hpoll v w u h
    | suspended v =>
      simp only [Sys.step, hs] at h
      exact hpoll v w s h
  | cancelSend =>
    rw [Sys.step, if_pos (show s.sending.isSome = true from ha)] at h
    cases h
  | recv i =>
    obtain ⟨r, hr⟩ := hreceiver i false (by simpa [Sys.allows] using ha)
    rw [Sys.step, hr] at h
    cases h
  | pollRecv i w =>
    obtain ⟨r, hr⟩ := hreceiver i true (by simpa [Sys.allows] using ha)
    rw [Sys.step, hr, Sys.pollRecv] at h
    cases hacc : s.access with
    | error e =>
      rw [hacc] at h
      cases h
    | ok b =>
      rw [hacc, ok_bind] at h
      generalize recvPoll b r.index w = q at h
      obtain ⟨poll, b', woken⟩ := q
      rcases poll with _ | _ | v <;> cases h
  | cancelRecv i =>
    obtain ⟨r, hr⟩ := hreceiver i true (by simpa [Sys.allows] using ha)
    rw [Sys.step, hr] at h
    cases h
  | dropSender =>
    rw [Sys.step, if_pos (show s.senderFree = true from ha)] at h
    cases hacc : s.access with
    | error e =>
      rw [hacc] at h
      cases h
    | ok b =>
      rw [hacc, ok_bind] at h
      cases hd : Broadcast.dropSender b <;> rw [hd] at h <;> cases h
  | dropReceiver i =>
    obtain ⟨r, hr⟩ := hreceiver i false (by simpa [Sys.allows] using ha)
    rw [Sys.step, hr, Sys.dropReceiver] at h
    cases hacc : s.access with
    | error e =>
      rw [hacc] at h
      cases h
    | ok b =>
      rw [hacc, ok_bind] at h
      cases hd : Broadcast.dropReceiver b r.index <;> rw [hd] at h <;> cases h

/-- What the channel owes to the tasks at its ends. -/
structure Sys.Sound [Target] [Waker W] (s : Sys T W) : Prop where
  inv : Inv s
  ordered : Ordered s
  recvAwake : RecvAwake s
  sendAwake : SendAwake s

/-- Every operation succeeds and is one of the moves, which all keep this as long as message
ids do not repeat. -/
theorem Sys.Sound.step [Target] [Layout T] [Waker W] {s : Sys T W} (h : s.Sound) (op : Op T W)
    (ha : s.allows op = true) (hlt : s.started + op.calls < messageIds) :
    ∃ out t, s.step op = .ok (out, t) ∧ out ≠ .ignored ∧ Move s op out t ∧ t.Sound := by
  obtain ⟨out, t, hs, m⟩ := h.inv.step_move op
  refine ⟨out, t, hs, ?_, m, ⟨h.inv.move m, h.ordered.move h.inv hlt m,
    h.recvAwake.move h.inv m, h.sendAwake.move h.inv m⟩⟩
  rintro rfl
  exact Sys.step_ne_ignored ha hs

private theorem Sys.Sound.resumed [Target] [Waker W] {s u : Sys T W} {v : T} (h : s.Sound)
    (hu : s.Resumed v u) (hlt : s.started < messageIds) : u.Sound := by
  refine ⟨(h.inv.resumed hu).1, h.ordered.resumed h.inv hu hlt, h.recvAwake.resumed hu, ?_⟩
  rcases hu with ⟨-, rfl⟩ | ⟨hs, b, hb, rfl⟩
  · exact h.sendAwake
  · refine h.sendAwake.keep_wakes (fun _ => rfl) fun w ha => ?_
    -- A `send` that was not polled yet waits for nothing.
    obtain ⟨⟨v', hv'⟩, -⟩ := ha
    cases hs.symm.trans hv'

/-- The message of a `send` that was not polled yet. -/
def Sys.offered (s : Sys T W) : List T :=
  match s.sending with
  | some (.unresumed value) => [value]
  | _ => []

/-- Each buffer can hold a message, and the waker of the sender is its own. -/
structure Wired [Waker W] (name : Waker.Task W → Role k) (b : Inner T W) : Prop where
  room : ∀ key st, b.value.receivers.get? key = some st →
    st.unbounded = true ∨ 0 < st.buf.capacity
  sender : ∀ w, b.value.sender = some w → roleOf name w = .sender

/-- What a turn of a task uses up. A poll of a receiver may wake the sender. -/
def Role.cost : Role k → Nat
  | .sender => 1
  | .receiver _ => 2

/-- What is left to do for a receiver: messages reach its buffer, it takes them out, and its
task returns. -/
def Log.todo (total : Nat) (log : Log T) : Nat :=
  3 * (total - log.pushed.length) + 2 * (total - log.received.length) + 3

private theorem Role.cost_le (r : Role k) : r.cost ≤ 2 := by
  cases r <;> simp [Role.cost]

private theorem Log.Sound.length_le {log : Log T} {sent : List T} (h : log.Sound sent) :
    log.pushed.length ≤ sent.length := by
  have hsub : log.positions ⊆ List.range sent.length :=
    fun n hn => List.mem_range.mpr (h.lt_length hn)
  have hle := (List.subperm_of_subset (h.increasing.imp Nat.ne_of_lt) hsub).length_le
  simpa [Log.positions] using hle

private theorem Log.Sound.messages_take {log : Log T} {sent : List T} (h : log.Sound sent) {m : Nat}
    (hm : m ≤ sent.length) (hall : ∀ n, n ∈ log.positions ↔ n < m) :
    log.messages = sent.take m := by
  have hperm : log.positions.Perm (List.range m) := by
    refine (List.perm_ext_iff_of_nodup (h.increasing.imp Nat.ne_of_lt) List.nodup_range).mpr ?_
    intro n
    rw [List.mem_range, hall]
  have hpositions : log.positions = List.range m :=
    hperm.eq_of_pairwise (fun a b _ _ hab hba => absurd hab (Nat.lt_asymm hba)) h.increasing
      List.pairwise_lt_range
  have hget : log.messages.map some = log.positions.map fun n => sent[n]? := by
    rw [Log.messages, Log.positions, List.map_map, List.map_map]
    exact List.map_congr_left fun p hp => (h.genuine p hp).2.symm
  refine List.map_injective_iff.mpr (Option.some_injective T) ?_
  rw [hget, hpositions]
  apply List.ext_getElem (by simp [hm])
  intro n h₁ h₂
  simp only [List.length_map, List.length_range] at h₁
  have hn : n < sent.length := by omega
  simp [hn]

/-- A receiver that was given every message but perhaps the last one has a prefix of them. -/
theorem Log.Sound.messages_prefix {log : Log T} {sent : List T} (h : log.Sound sent)
    (hall : ∀ n < sent.length, n ∈ log.positions ∨ n + 1 = sent.length) :
    log.messages <+: sent := by
  by_cases hlast : sent.length - 1 ∈ log.positions
  · have hgiven : ∀ n, n ∈ log.positions ↔ n < sent.length := by
      refine fun n => ⟨h.lt_length, fun hn => ?_⟩
      rcases hall n hn with hin | hn'
      · exact hin
      · rwa [← hn', Nat.add_sub_cancel] at hlast
    rw [h.messages_take (Nat.le_refl _) hgiven]
    exact List.take_prefix _ _
  · have hgiven : ∀ n, n ∈ log.positions ↔ n < sent.length - 1 := by
      intro n
      constructor
      · intro hn
        have hlt := h.lt_length hn
        have hne : n ≠ sent.length - 1 := fun he => hlast (he ▸ hn)
        omega
      · intro hn
        exact (hall n (by omega)).resolve_right (by omega)
    rw [h.messages_take (Nat.sub_le _ _) hgiven]
    exact List.take_prefix _ _

private theorem sum_eraseIdx {α : Type} {l : List α} {i : Nat} {a : α} (ha : l[i]? = some a)
    (f : α → Nat) : ((l.eraseIdx i).map f).sum + f a = (l.map f).sum := by
  obtain ⟨hlt, rfl⟩ := List.getElem?_eq_some_iff.mp ha
  rw [← ((List.getElem_cons_eraseIdx_perm hlt).map f).sum_eq, List.map_cons, List.sum_cons]
  omega

private theorem sum_set {α : Type} {l : List α} {i : Nat} {a : α} (ha : l[i]? = some a) (b : α)
    (f : α → Nat) : ((l.set i b).map f).sum + f a = (l.map f).sum + f b := by
  have hsum := sum_eraseIdx ha f
  obtain ⟨hlt, -⟩ := List.getElem?_eq_some_iff.mp ha
  rw [((List.set_perm_cons_eraseIdx hlt b).map f).sum_eq, List.map_cons, List.sum_cons]
  omega

private theorem sum_add_countP_le {α : Type} {l : List α} {f g : α → Nat} {test : α → Bool}
    {n : Nat} (h : ∀ a ∈ l, f a + n * (test a).toNat ≤ g a) :
    (l.map f).sum + n * l.countP test ≤ (l.map g).sum := by
  induction l with
  | nil => simp
  | cons a l ih =>
    have hhead := h a (List.mem_cons_self ..)
    have htail := ih fun x hx => h x (List.mem_cons_of_mem a hx)
    have hcount : (a :: l).countP test = l.countP test + (test a).toNat := by
      rw [List.countP_cons]
      cases test a <;> rfl
    rw [hcount, Nat.mul_add, List.map_cons, List.map_cons, List.sum_cons, List.sum_cons]
    omega

private theorem length_flatMap_toList_le {α β : Type} (l : List α) (f : α → Option β) :
    (l.flatMap fun a => (f a).toList).length ≤ l.length := by
  induction l with
  | nil => simp
  | cons a l ih =>
    rw [List.flatMap_cons, List.length_append, List.length_cons]
    have hone : (f a).toList.length ≤ 1 := by cases f a <;> simp
    omega

private theorem Pass.woken_le {slab : Slab (ReceiverState T W)}
    {counts pushes : ReceiverState T W → Bool} {change : ReceiverState T W → ReceiverState T W}
    {pass : Delivery W × Slab (ReceiverState T W)} (h : Pass slab counts pushes change pass) :
    pass.1.woken.length ≤ slab.entries.countP fun e => pushes e.2 := by
  rw [h.woken, List.countP_eq_length_filter]
  exact length_flatMap_toList_le _ fun e : Nat × ReceiverState T W => e.2.waker

private theorem newReceiver_room [Target] [Layout T] (inner : Shared T W) (key : Nat) :
    ∃ st, newReceiver inner key = { inner with receivers := inner.receivers.insert key st } ∧
      (st.unbounded = true ∨ 0 < st.buf.capacity) := by
  refine ⟨_, rfl, ?_⟩
  cases hc : inner.capacity with
  | none => exact Or.inl rfl
  | some capacity =>
    refine Or.inr ?_
    show 0 < (if Layout.zeroSized T then usizeMax else capacity.1)
    split
    · have hwide := Nat.pow_le_pow_right (n := 2) (by decide) Target.wide
      simp only [usizeMax]
      omega
    · exact capacity.2

private theorem Inv.index_inj [Target] {s : Sys T W} (hi : Inv s) {x y : Receiver T W}
    (hx : x ∈ s.receivers) (hy : y ∈ s.receivers) (h : x.index = y.index) : x = y := by
  obtain ⟨b, hb, -⟩ := access_of_alive hi (Or.inr (List.ne_nil_of_mem hx))
  have hnodup : (s.receivers.map Receiver.index).Nodup := by
    rw [(hi.keys b hb).nodup_iff]
    exact Slab.nodup_keys _
  exact List.inj_on_of_nodup_map hnodup hx hy h

private theorem mem_eraseIdx_of_ne {α : Type} {l : List α} {i : Nat} {a x : α} (ha : l[i]? = some a)
    (hx : x ∈ l) (hne : x ≠ a) : x ∈ l.eraseIdx i := by
  obtain ⟨hlt, rfl⟩ := List.getElem?_eq_some_iff.mp ha
  have hmem := (List.getElem_cons_eraseIdx_perm hlt).symm.subset hx
  exact (List.mem_cons.mp hmem).resolve_left hne

private theorem mem_set_of_mem_eraseIdx {α : Type} {l : List α} {i : Nat} {a b x : α}
    (ha : l[i]? = some a) (hx : x ∈ l.eraseIdx i) : x ∈ l.set i b := by
  obtain ⟨hlt, -⟩ := List.getElem?_eq_some_iff.mp ha
  exact (List.set_perm_cons_eraseIdx hlt b).symm.subset (List.mem_cons_of_mem b hx)

private theorem Sys.started_eq (s : Sys T W) : s.started = s.sent.length + s.offered.length := by
  unfold Sys.started Sys.offered
  rcases s.sending with _ | _ | _ <;> rfl

section Wiring

variable [Waker W] {name : Waker.Task W → Role k} {b : Inner T W}

private theorem woken_cost_le (new : List W) :
    ((new.map (roleOf name)).map Role.cost).sum ≤ 2 * new.length := by
  induction new with
  | nil => simp
  | cons w new ih =>
    have hone := (roleOf name w).cost_le
    simp only [List.map_cons, List.sum_cons, List.length_cons] at ih ⊢
    omega

private theorem Wired.sender_cost (h : Wired name b) :
    ((b.value.sender.toList.map (roleOf name)).map Role.cost).sum ≤ 1 := by
  cases hs : b.value.sender with
  | none => simp
  | some w => simp [h.sender w hs, Role.cost]

private theorem Wired.setState (h : Wired name b) {index : Nat}
    {st st' : ReceiverState T W} (hst : b.value.receivers.get? index = some st)
    (hu : st'.unbounded = st.unbounded) (hc : st'.buf.capacity = st.buf.capacity) :
    Wired name (setState b index st') := by
  refine ⟨?_, h.sender⟩
  intro key x hx
  rw [Broadcast.setState, Slab.get?_set] at hx
  by_cases hk : key = index
  · rw [if_pos hk] at hx
    obtain ⟨_, -, rfl⟩ := Option.map_eq_some_iff.mp hx
    rw [hu, hc]
    exact h.room index st hst
  · rw [if_neg hk] at hx
    exact h.room key x hx

end Wiring

namespace Session

variable [Waker W] {name : Waker.Task W → Role k} {values : List T} {wants : Fin k → Option Nat}
  {p : Session T W k}

/-- The channel is wired to the tasks, every value was sent or is yet to be, receivers have
what was sent except for a message under way, every receiver is owned by one task, and a task
returns with what it wants. -/
structure Keeps [Target] (name : Waker.Task W → Role k) (values : List T)
    (wants : Fin k → Option Nat) (p : Session T W k) : Prop where
  sound : p.sys.Sound
  wired : ∀ b, p.sys.inner = some b → Wired name b
  sent : p.sys.sent ++ p.sys.offered ++ p.unsent = values
  complete : ∀ r ∈ p.sys.receivers, ∀ n < p.sys.sent.length,
    n ∈ r.log.positions ∨ n + 1 = p.sys.sent.length ∧ p.sys.Suspended
  owned : ∀ r ∈ p.sys.receivers, ∃ i, p.owns i = some r.index
  owner : ∀ i j index, p.owns i = some index → p.owns j = some index → i = j
  collected : ∀ i index, p.owns i = some index →
    ∃ r ∈ p.sys.receivers, r.index = index ∧ p.out i = r.log.received
  counted : ∀ i, (p.wants i).map (· + (p.out i).length) = wants i
  wanting : ∀ r ∈ p.sys.receivers, r.receiving = true → ∀ i, p.owns i = some r.index →
    p.wants i ≠ some 0
  returned : p.sys.sender = false → p.unsent = []
  gathered : ∀ i, p.owns i = none → p.out i = values.take ((wants i).getD values.length)

/-- The task waits for the channel. -/
def Waits (name : Waker.Task W → Role k) (p : Session T W k) : Role k → Prop
  | .sender => Asleep name p.sys.wakes p.sys.sendPending .sender
  | .receiver i => ∃ r ∈ p.sys.receivers, p.owns i = some r.index ∧
    Asleep name p.sys.wakes r.pending (.receiver i)

/-- What is left to do: sends resolve, messages reach the receivers, and the tasks return. -/
def potential (values : List T) (p : Session T W k) : Nat :=
  2 * (p.unsent.length + p.sys.sending.toList.length) +
    (p.sys.receivers.map fun r => r.log.todo values.length).sum +
    p.sys.sender.toNat * (2 * p.sys.receivers.length + 1)

/-- A turn of a task between two states. -/
abbrev Turned [Target] [Layout T] (name : Waker.Task W → Role k) (values : List T)
    (p : Session T W k) (role : Role k) (again : Bool) (q : Session T W k) : Prop :=
  (tasks name).Advances (Waits name) (potential values) Role.cost p role
    (turnOf name again p.sys.wakes q.sys.wakes) q

section Awake

variable [Target]

private theorem Keeps.receiver_waits (h : Keeps name values wants p) {i : Fin k}
    (hw : Waits name p (.receiver i)) :
    p.sys.sender = true ∧ ∃ (b : Inner T W) (index : Nat) (st : ReceiverState T W),
      p.sys.inner = some b ∧ p.owns i = some index ∧
        b.value.receivers.get? index = some st ∧ st.buf.items = [] := by
  obtain ⟨r, hr, hown, hasleep⟩ := hw
  obtain ⟨_, ⟨b, st, hb, hst, hempty, hs, -⟩, -⟩ := hasleep.reason (h.sound.recvAwake r hr)
  exact ⟨hs, b, r.index, st, hb, hown, hst, hempty⟩

private theorem Keeps.sender_waits (h : Keeps name values wants p) (hw : Waits name p .sender) :
    ∃ (b : Inner T W) (index : Nat) (st : ReceiverState T W) (i : Fin k),
      p.sys.inner = some b ∧ p.owns i = some index ∧
        b.value.receivers.get? index = some st ∧ st.buf.items ≠ [] := by
  obtain ⟨_, ⟨-, b, hb, -, r, hr, st, hst, -, hcap⟩, -⟩ := Asleep.reason hw h.sound.sendAwake
  obtain ⟨i, hi⟩ := h.owned r hr
  refine ⟨b, r.index, st, i, hb, hi, hst, fun hempty => ?_⟩
  simp only [ReceiverState.atCapacity, VecDeque.len, hempty, List.length_nil, Bool.and_eq_true,
    Bool.not_eq_true', beq_iff_eq] at hcap
  rcases (h.wired b hb).room r.index st hst with hu | hpos
  · rw [hu] at hcap
    cases hcap.1
  · omega

/-- The tasks do not all sleep: the sender would find some buffer full whose receiver finds it
empty, and without a sender no receiver sleeps. -/
theorem Keeps.awake [Layout T] (h : Keeps name values wants p)
    (hw : ∀ i, (tasks name).finished p i = false → Waits name p i) :
    ∀ i, (tasks name).finished p i = true := by
  have hsender : p.sys.sender = false := by
    by_contra hno
    obtain ⟨b, index, st, i, hb, hi, hst, hfull⟩ :=
      h.sender_waits (hw .sender (by simpa [tasks] using hno))
    obtain ⟨-, b', index', st', hb', hi', hst', hempty⟩ :=
      h.receiver_waits (hw (.receiver i) (by simp [tasks, hi]))
    cases hb.symm.trans hb'
    cases hi.symm.trans hi'
    cases hst.symm.trans hst'
    exact hfull hempty
  intro role
  cases role with
  | sender => simp [tasks, hsender]
  | receiver i =>
    by_contra hno
    have hwait := h.receiver_waits (hw (.receiver i) (by simpa using hno))
    rw [hsender] at hwait
    cases hwait.1

/-- A turn leaves the tasks asleep that it does not wake: their polls stay the latest ones. -/
theorem Turned.of [Layout T] (h : Keeps name values wants p) {role : Role k} {again : Bool}
    {q : Session T W k} {new : List W} (hw : q.sys.wakes = p.sys.wakes ++ new)
    (hstays : ∀ j, (tasks name).finished p j = true → (tasks name).finished q j = true)
    (hrests : again = false → (tasks name).finished q role = false → Waits name q role)
    (hsend : role ≠ .sender → q.sys.sendPending = p.sys.sendPending)
    (hrecv : ∀ i, role ≠ .receiver i → q.owns i = p.owns i ∧
      ∀ r ∈ p.sys.receivers, p.owns i = some r.index →
        ∃ x ∈ q.sys.receivers, x.index = r.index ∧ x.pending = r.pending)
    (hpays : potential values q + (if again then role.cost else 0) +
      ((new.map (roleOf name)).map Role.cost).sum < potential values p + role.cost) :
    Turned name values p role again q := by
  refine ⟨hstays, hrests, ?_, ?_⟩
  · intro j hj hn hwait
    rw [hw, turnOf_append] at hn
    cases j with
    | sender =>
      show Asleep name q.sys.wakes q.sys.sendPending .sender
      rw [hw, hsend (Ne.symm hj)]
      exact Asleep.keep hwait h.sound.sendAwake hn
    | receiver i =>
      obtain ⟨r, hr, hown, hasleep⟩ := hwait
      obtain ⟨howns, hlive⟩ := hrecv i (Ne.symm hj)
      obtain ⟨x, hx, hindex, hpending⟩ := hlive r hr hown
      refine ⟨x, hx, by rw [howns, hown, hindex], ?_⟩
      rw [hw, hpending]
      exact hasleep.keep (h.sound.recvAwake r hr) hn
  · rw [hw, turnOf_append]
    exact hpays

private theorem Turned.of_eq [Layout T] {u q : Session T W k} {role : Role k} {again : Bool}
    (h : Turned name values u role again q)
    (hf : (tasks name).finished u = (tasks name).finished p) (hw : u.sys.wakes = p.sys.wakes)
    (hwaits : ∀ j, j ≠ role → Waits name p j → Waits name u j)
    (hp : potential values u = potential values p) : Turned name values p role again q := by
  refine ⟨by rw [← hf]; exact h.stays, h.rests, ?_, by rw [← hw, ← hp]; exact h.pays⟩
  intro j hj hn hwait
  rw [← hw] at hn
  exact h.sleeps j hj hn (hwaits j hj hwait)

private theorem Keeps.sent_le (h : Keeps name values wants p) :
    p.sys.started + p.unsent.length = values.length := by
  rw [← h.sent, Sys.started_eq]
  simp only [List.length_append]

/-! ### Turns of a receiver -/

private theorem Keeps.others_stay (h : Keeps name values wants p) {i j : Fin k} {at' : Nat}
    {r x : Receiver T W} (hr : p.sys.receivers[at']? = some r) (hown : p.owns i = some r.index)
    (hj : Role.receiver i ≠ .receiver j) (hx : x ∈ p.sys.receivers)
    (hxown : p.owns j = some x.index) : x ∈ p.sys.receivers.eraseIdx at' := by
  refine mem_eraseIdx_of_ne hr hx ?_
  rintro rfl
  exact hj (congrArg Role.receiver (h.owner i j x.index hown hxown))

/-- A poll of `recv` changes one receiver and what its task has collected and still wants. -/
theorem Keeps.changed (h : Keeps name values wants p) {sys : Sys T W} {i : Fin k} {at' : Nat}
    {r : Receiver T W} (hr : p.sys.receivers[at']? = some r) (hown : p.owns i = some r.index)
    (r' : Receiver T W) (hindex : r'.index = r.index)
    (hpositions : r'.log.positions = r.log.positions) {left : Option Nat}
    (hcounted : left.map (· + r'.log.received.length) = wants i)
    (hwanting : r'.receiving = true → left ≠ some 0)
    (hsound : sys.Sound) (hwired : ∀ b, sys.inner = some b → Wired name b)
    (hreceivers : sys.receivers = p.sys.receivers.set at' r') (hsent : sys.sent = p.sys.sent)
    (hsending : sys.sending = p.sys.sending) (hsender : sys.sender = p.sys.sender) :
    Keeps name values wants { p with
      sys := sys
      wants := Function.update p.wants i left
      out := Function.update p.out i r'.log.received } := by
  have hmem := List.mem_of_getElem? hr
  obtain ⟨b, hb, -⟩ := access_of_alive h.sound.inv (Or.inr (List.ne_nil_of_mem hmem))
  have hothers : ∀ x ∈ sys.receivers, x = r' ∨ x ∈ p.sys.receivers ∧ x.index ≠ r.index := by
    intro x hx
    rw [hreceivers] at hx
    exact (mem_setReceiver hr hx).imp_right (h.sound.inv.others hb hr)
  have hsplit : ∀ x ∈ sys.receivers, x = r' ∨ x ∈ p.sys.receivers :=
    fun x hx => (hothers x hx).imp_right And.left
  obtain ⟨hlt, -⟩ := List.getElem?_eq_some_iff.mp hr
  refine ⟨hsound, hwired, ?_, ?_, ?_, h.owner, ?_, ?_, ?_, ?_, ?_⟩
  · show sys.sent ++ sys.offered ++ p.unsent = values
    rw [hsent, Sys.offered, hsending]
    exact h.sent
  · intro x hx n hn
    simp only [hsent, Sys.Suspended, hsending] at hn ⊢
    rcases hsplit x hx with rfl | hx
    · rw [hpositions]
      exact h.complete r hmem n hn
    · exact h.complete x hx n hn
  · intro x hx
    rcases hsplit x hx with rfl | hx
    · exact ⟨i, by rw [hindex]; exact hown⟩
    · exact h.owned x hx
  · intro j index hj
    by_cases hij : j = i
    · subst hij
      rw [hown, Option.some.injEq] at hj
      refine ⟨r', ?_, hindex.trans hj, Function.update_self ..⟩
      show r' ∈ sys.receivers
      rw [hreceivers]
      exact List.mem_set hlt r'
    · obtain ⟨x, hx, hxi, hout⟩ := h.collected j index hj
      refine ⟨x, ?_, hxi, (Function.update_of_ne hij ..).trans hout⟩
      show x ∈ sys.receivers
      rw [hreceivers]
      refine mem_set_of_mem_eraseIdx hr (h.others_stay hr hown ?_ hx (by rw [hxi]; exact hj))
      exact fun heq => hij (Role.receiver.inj heq).symm
  · intro j
    show (Function.update p.wants i left j).map (· + (Function.update p.out i _ j).length) = _
    by_cases hij : j = i
    · subst hij
      rw [Function.update_self, Function.update_self]
      exact hcounted
    · rw [Function.update_of_ne hij, Function.update_of_ne hij]
      exact h.counted j
  · intro x hx hf j hj
    show Function.update p.wants i left j ≠ some 0
    by_cases hij : j = i
    · subst hij
      rw [Function.update_self]
      rcases hothers x hx with rfl | ⟨-, hne⟩
      · exact hwanting hf
      · exact absurd (Option.some.inj (hj.symm.trans hown)) hne
    · rw [Function.update_of_ne hij]
      rcases hothers x hx with rfl | ⟨hx', -⟩
      · exact absurd (h.owner j i r.index (hindex ▸ hj) hown) hij
      · exact h.wanting x hx' hf j hj
  · intro hs
    exact h.returned (hsender.symm.trans hs)
  · intro j hj
    have hij : j ≠ i := by
      rintro rfl
      cases hown.symm.trans hj
    show Function.update p.out i _ j = _
    rw [Function.update_of_ne hij]
    exact h.gathered j hj

private theorem Keeps.at_position (h : Keeps name values wants p) {i : Fin k} {index : Nat}
    (hi : p.owns i = some index) :
    ∃ r, p.sys.receivers[p.position index]? = some r ∧ r.index = index := by
  obtain ⟨r, hr, hindex, -⟩ := h.collected i index hi
  have hlt : p.position index < p.sys.receivers.length :=
    List.findIdx_lt_length_of_exists ⟨r, hr, by simp [hindex]⟩
  have hfound : p.sys.receivers[p.position index].index = index :=
    eq_of_beq (List.findIdx_getElem (w := hlt))
  have heq : p.sys.receivers[p.position index] = r :=
    h.sound.inv.index_inj (List.getElem_mem hlt) hr (hfound.trans hindex.symm)
  exact ⟨r, List.getElem?_eq_some_iff.mpr ⟨hlt, heq⟩, hindex⟩

/-- A turn of a receiver that changes its own end only, or wakes the sender too. -/
theorem Turned.of_receiver [Layout T] (h : Keeps name values wants p) {q : Session T W k}
    {i : Fin k} {at' : Nat} {r : Receiver T W} {again : Bool} {woken : List W}
    (hr : p.sys.receivers[at']? = some r) (hown : p.owns i = some r.index) (r' : Receiver T W)
    (hindex : r'.index = r.index) (howns : q.owns = p.owns) (hunsent : q.unsent = p.unsent)
    (hw : q.sys.wakes = p.sys.wakes ++ woken)
    (hreceivers : q.sys.receivers = p.sys.receivers.set at' r')
    (hsending : q.sys.sending = p.sys.sending) (hpending : q.sys.sendPending = p.sys.sendPending)
    (hsender : q.sys.sender = p.sys.sender)
    (hrests : again = false → Asleep name q.sys.wakes r'.pending (.receiver i))
    (hcost : ((woken.map (roleOf name)).map Role.cost).sum ≤ 1)
    (hpays : r'.log.todo values.length + 2 * again.toNat ≤ r.log.todo values.length) :
    Turned name values p (.receiver i) again q := by
  obtain ⟨hlt, -⟩ := List.getElem?_eq_some_iff.mp hr
  refine .of h hw ?_ ?_ (fun _ => hpending) ?_ ?_
  · intro j hj
    cases j with
    | sender => simpa [tasks, hsender] using hj
    | receiver j => simpa [tasks, howns] using hj
  · intro ha _
    refine ⟨r', ?_, by rw [howns, hindex]; exact hown, hrests ha⟩
    rw [hreceivers]
    exact List.mem_set hlt r'
  · intro j hj
    refine ⟨by rw [howns], fun x hx hxown => ⟨x, ?_, rfl, rfl⟩⟩
    rw [hreceivers]
    exact mem_set_of_mem_eraseIdx hr (h.others_stay hr hown hj hx hxown)
  · have hsum := sum_set hr r' fun x => x.log.todo values.length
    have hbit : (if again = true then (Role.receiver i).cost else 0) = 2 * again.toNat := by
      cases again <;> rfl
    have htwo : (Role.receiver i).cost = 2 := rfl
    rw [hbit, htwo]
    simp only [potential, hunsent, hreceivers, hsending, hsender, List.length_set]
    omega

private theorem Keeps.log_le (h : Keeps name values wants p) {r : Receiver T W}
    (hr : r ∈ p.sys.receivers) :
    r.log.pushed.length ≤ values.length ∧ r.log.received.length ≤ r.log.pushed.length := by
  have hin := h.sound.ordered.inOrder h.sound.inv hr
  have hlen := hin.sound.length_le
  have hdelivered := hin.delivered.length_le
  simp only [Log.messages, List.length_map] at hdelivered
  have hsent := h.sent_le
  have hstarted := sent_le_started p.sys
  omega

private theorem Keeps.got_all (h : Keeps name values wants p) {r : Receiver T W}
    (hr : r ∈ p.sys.receivers)
    (hs : p.sys.sender = false) (hall : r.log.received = r.log.messages) :
    r.log.received = values := by
  have hnone : p.sys.sending = none := by
    by_contra hsome
    have hlive := h.sound.inv.sendAlive (Option.isSome_iff_ne_none.mpr hsome)
    exact Bool.false_ne_true (hs.symm.trans hlive)
  have hsent := h.sent
  rw [Sys.offered, hnone, h.returned hs, List.append_nil, List.append_nil] at hsent
  rw [hall, ← hsent]
  have hgiven : ∀ n < p.sys.sent.length, n ∈ r.log.positions := by
    intro n hn
    rcases h.complete r hr n hn with hin | ⟨-, v, hv⟩
    · exact hin
    · cases hnone.symm.trans hv
  rw [(h.sound.ordered.inOrder h.sound.inv hr).sound.messages_take (Nat.le_refl _) fun n =>
    ⟨(h.sound.ordered.inOrder h.sound.inv hr).sound.lt_length, hgiven n⟩, List.take_length]

private theorem Keeps.got_prefix (h : Keeps name values wants p) {r : Receiver T W}
    (hr : r ∈ p.sys.receivers) : r.log.received <+: values := by
  have hin := h.sound.ordered.inOrder h.sound.inv hr
  have hprefix := hin.sound.messages_prefix fun n hn => (h.complete r hr n hn).imp_right And.left
  have hsent := h.sent
  rw [List.append_assoc] at hsent
  exact (hin.delivered.trans hprefix).trans ⟨_, hsent⟩

private theorem Keeps.out_eq (h : Keeps name values wants p) {i : Fin k} {r : Receiver T W}
    (hr : r ∈ p.sys.receivers) (hown : p.owns i = some r.index) : p.out i = r.log.received := by
  obtain ⟨x, hx, hxi, hout⟩ := h.collected i r.index hown
  rw [h.sound.inv.index_inj hx hr hxi] at hout
  exact hout

private theorem Keeps.has_enough (h : Keeps name values wants p) {i : Fin k} {r : Receiver T W}
    (hr : r ∈ p.sys.receivers) (hown : p.owns i = some r.index)
    (hend : p.wants i = some 0 ∨ p.sys.sender = false ∧ r.log.received = r.log.messages) :
    p.out i = values.take ((wants i).getD values.length) := by
  have hcounted := h.counted i
  rcases hend with hw | ⟨hs, hall⟩
  · rw [hw, Option.map_some, Nat.zero_add] at hcounted
    rw [← hcounted, Option.getD_some, ← List.prefix_iff_eq_take, h.out_eq hr hown]
    exact h.got_prefix hr
  · rw [h.out_eq hr hown, h.got_all hr hs hall] at hcounted ⊢
    refine (List.take_of_length_le ?_).symm
    rw [← hcounted]
    cases p.wants i with
    | none => exact Nat.le_refl _
    | some n => exact Nat.le_add_left _ _

/-- The receiver is dropped when its task returns. -/
theorem Keeps.returns (h : Keeps name values wants p) {sys : Sys T W} {i : Fin k} {at' : Nat}
    {r : Receiver T W} (hr : p.sys.receivers[at']? = some r) (hown : p.owns i = some r.index)
    (henough : p.out i = values.take ((wants i).getD values.length))
    (hsound : sys.Sound) (hwired : ∀ b, sys.inner = some b → Wired name b)
    (hreceivers : sys.receivers = p.sys.receivers.eraseIdx at') (hsent : sys.sent = p.sys.sent)
    (hsending : sys.sending = p.sys.sending) (hsender : sys.sender = p.sys.sender) :
    Keeps name values wants { p with sys := sys, owns := Function.update p.owns i none } := by
  have hmem := List.mem_of_getElem? hr
  obtain ⟨b, hb, -⟩ := access_of_alive h.sound.inv (Or.inr (List.ne_nil_of_mem hmem))
  have hothers : ∀ x ∈ sys.receivers, x ∈ p.sys.receivers ∧ x.index ≠ r.index := by
    intro x hx
    rw [hreceivers] at hx
    exact h.sound.inv.others hb hr hx
  have howns : ∀ j index, Function.update p.owns i none j = some index →
      j ≠ i ∧ p.owns j = some index := by
    intro j index hj
    by_cases hij : j = i
    · subst hij
      rw [Function.update_self] at hj
      cases hj
    · rw [Function.update_of_ne hij] at hj
      exact ⟨hij, hj⟩
  refine ⟨hsound, hwired, ?_, ?_, ?_, ?_, ?_, h.counted, ?_, ?_, ?_⟩
  · show sys.sent ++ sys.offered ++ p.unsent = values
    rw [hsent, Sys.offered, hsending]
    exact h.sent
  · intro x hx n hn
    simp only [hsent, Sys.Suspended, hsending] at hn ⊢
    exact h.complete x (hothers x hx).1 n hn
  · intro x hx
    obtain ⟨hx', hne⟩ := hothers x hx
    obtain ⟨j, hj⟩ := h.owned x hx'
    refine ⟨j, ?_⟩
    show Function.update p.owns i none j = _
    rw [Function.update_of_ne, hj]
    rintro rfl
    exact hne (Option.some.inj (hj.symm.trans hown))
  · intro j l index hj hl
    exact h.owner j l index (howns j index hj).2 (howns l index hl).2
  · intro j index hj
    obtain ⟨hij, hj'⟩ := howns j index hj
    obtain ⟨x, hx, hxi, hout⟩ := h.collected j index hj'
    refine ⟨x, ?_, hxi, hout⟩
    show x ∈ sys.receivers
    rw [hreceivers]
    refine h.others_stay hr hown ?_ hx (by rw [hxi]; exact hj')
    exact fun heq => hij (Role.receiver.inj heq).symm
  · intro x hx hf j hj
    exact h.wanting x (hothers x hx).1 hf j (howns j _ hj).2
  · intro hs
    exact h.returned (hsender.symm.trans hs)
  · intro j hj
    by_cases hij : j = i
    · rw [hij]
      exact henough
    · exact h.gathered j ((Function.update_of_ne hij ..).symm.trans hj)

/-- The turn in which a receiving task returns may wake the sender. -/
theorem Turned.of_return [Layout T] (h : Keeps name values wants p) {sys : Sys T W} {i : Fin k}
    {at' : Nat} {r : Receiver T W} {woken : List W} (hr : p.sys.receivers[at']? = some r)
    (hown : p.owns i = some r.index) (hw : sys.wakes = p.sys.wakes ++ woken)
    (hreceivers : sys.receivers = p.sys.receivers.eraseIdx at')
    (hsending : sys.sending = p.sys.sending) (hpending : sys.sendPending = p.sys.sendPending)
    (hsender : sys.sender = p.sys.sender)
    (hcost : ((woken.map (roleOf name)).map Role.cost).sum ≤ 1) :
    Turned name values p (.receiver i) false { p with
      sys := sys, owns := Function.update p.owns i none } := by
  refine .of h hw ?_ ?_ (fun _ => hpending) ?_ ?_
  · intro j hj
    cases j with
    | sender => simpa [tasks, hsender] using hj
    | receiver j =>
      by_cases hij : j = i
      · simp [tasks, hij]
      · simpa [tasks, Function.update_of_ne hij] using hj
  · intro _ hlive
    simp [tasks] at hlive
  · intro j hj
    have hij : j ≠ i := fun hij => hj (congrArg Role.receiver hij.symm)
    refine ⟨Function.update_of_ne hij .., fun x hx hxown => ⟨x, ?_, rfl, rfl⟩⟩
    show x ∈ sys.receivers
    rw [hreceivers]
    exact h.others_stay hr hown hj hx hxown
  · have hsum := sum_eraseIdx hr fun x => x.log.todo values.length
    have htodo : 3 ≤ r.log.todo values.length := Nat.le_add_left 3 _
    have htwo : (Role.receiver i).cost = 2 := rfl
    have hfewer : p.sys.sender.toNat * (2 * sys.receivers.length + 1) ≤
        p.sys.sender.toNat * (2 * p.sys.receivers.length + 1) := by
      refine Nat.mul_le_mul_left _ ?_
      have hle := List.length_eraseIdx_le p.sys.receivers at'
      rw [hreceivers]
      omega
    rw [htwo]
    simp only [potential, hsending, hsender]
    rw [hreceivers] at hfewer ⊢
    simp only [Bool.false_eq_true, if_false]
    omega

/-- A task that has what it wants drops its receiver and returns. -/
theorem Keeps.leave [Layout T] (h : Keeps name values wants p) (hlt : values.length < messageIds)
    {i : Fin k} {at' : Nat} {r : Receiver T W} (hr : p.sys.receivers[at']? = some r)
    (hown : p.owns i = some r.index) (hf : r.receiving = false)
    (hend : p.wants i = some 0 ∨ p.sys.sender = false ∧ r.log.received = r.log.messages) :
    ∃ q, p.leave i at' = .ok (false, q) ∧ Keeps name values wants q ∧
      Turned name values p (.receiver i) false q := by
  have hmem := List.mem_of_getElem? hr
  have hstarted := h.sent_le
  obtain ⟨out, t, hstep, hne, m, ht⟩ := h.sound.step (.dropReceiver at')
    (by simp [Sys.allows, hr, hf]) (by simp only [Op.calls]; omega)
  refine ⟨_, by rw [Session.leave, hstep]; rfl, ?_⟩
  cases m with
  | ignored => exact absurd rfl hne
  | @dropReceiver b _ r' hb hr' _ =>
    cases hr.symm.trans hr'
    have hwired := h.wired b hb
    refine ⟨h.returns hr hown (h.has_enough hmem hown hend) ht ?_ rfl rfl rfl rfl,
      .of_return h hr hown rfl rfl rfl rfl rfl hwired.sender_cost⟩
    intro c hc
    obtain ⟨-, hc⟩ := Option.ite_none_left_eq_some.mp hc
    cases hc
    refine ⟨?_, fun w hw => (by cases hw)⟩
    intro key x hx
    simp only [Slab.get?_remove] at hx
    split at hx
    · cases hx
    · exact hwired.room key x hx

private theorem Keeps.touched (h : Keeps name values wants p) {sys : Sys T W} {i : Fin k}
    {at' : Nat}
    {r : Receiver T W} (hr : p.sys.receivers[at']? = some r) (hown : p.owns i = some r.index)
    (r' : Receiver T W) (hindex : r'.index = r.index) (hpushed : r'.log.pushed = r.log.pushed)
    (hreceived : r'.log.received = r.log.received)
    (hwanting : r'.receiving = true → p.wants i ≠ some 0)
    (hsound : sys.Sound) (hwired : ∀ b, sys.inner = some b → Wired name b)
    (hreceivers : sys.receivers = p.sys.receivers.set at' r') (hsent : sys.sent = p.sys.sent)
    (hsending : sys.sending = p.sys.sending) (hsender : sys.sender = p.sys.sender) :
    Keeps name values wants { p with sys := sys } := by
  have hout := h.out_eq (List.mem_of_getElem? hr) hown
  have hchanged := h.changed hr hown r' hindex (by rw [Log.positions, hpushed]; rfl)
    (by rw [hreceived, ← hout]; exact h.counted i) hwanting hsound hwired hreceivers hsent hsending
    hsender
  rwa [hreceived, ← hout, Function.update_eq_self, Function.update_eq_self] at hchanged

/-- A step that changes one receiver, but not what it was given or has got, is part of a turn. -/
theorem Turned.of_touched [Layout T] {sys : Sys T W} {i : Fin k} {again : Bool}
    {q : Session T W k} (ht : Turned name values { p with sys := sys } (.receiver i) again q)
    (h : Keeps name values wants p) {at' : Nat} {r : Receiver T W}
    (hr : p.sys.receivers[at']? = some r) (hown : p.owns i = some r.index) (r' : Receiver T W)
    (hpushed : r'.log.pushed = r.log.pushed) (hreceived : r'.log.received = r.log.received)
    (hw : sys.wakes = p.sys.wakes) (hreceivers : sys.receivers = p.sys.receivers.set at' r')
    (hsending : sys.sending = p.sys.sending) (hpending : sys.sendPending = p.sys.sendPending)
    (hsender : sys.sender = p.sys.sender) : Turned name values p (.receiver i) again q := by
  refine ht.of_eq ?_ hw (fun j hj hwait => ?_) ?_
  · funext j
    cases j with
    | sender => simp [tasks, hsender]
    | receiver j => rfl
  · cases j with
    | sender =>
      show Asleep name sys.wakes sys.sendPending .sender
      rw [hw, hpending]
      exact hwait
    | receiver j =>
      obtain ⟨x, hx, hxown, hasleep⟩ := hwait
      refine ⟨x, ?_, hxown, ?_⟩
      · show x ∈ sys.receivers
        rw [hreceivers]
        exact mem_set_of_mem_eraseIdx hr (h.others_stay hr hown hj.symm hx hxown)
      · rw [hw]
        exact hasleep
  · have hsum := sum_set hr r' fun x => x.log.todo values.length
    have htodo : r'.log.todo values.length = r.log.todo values.length := by
      rw [Log.todo, hpushed, hreceived]
      rfl
    simp only [potential, hreceivers, hsending, hsender, List.length_set]
    omega

/-- A poll of `recv` collects a value and goes on, returns at the end of the channel, or finds
the buffer empty and waits. -/
theorem Keeps.awaitRecv [Layout T] (h : Keeps name values wants p)
    (hlt : values.length < messageIds) {i : Fin k} {at' : Nat} {r : Receiver T W}
    (hr : p.sys.receivers[at']? = some r) (hown : p.owns i = some r.index)
    (hf : r.receiving = true) {w : W} (hw : roleOf name w = .receiver i) :
    ∃ again q, p.awaitRecv i at' w = .ok (again, q) ∧ Keeps name values wants q ∧
      Turned name values p (.receiver i) again q := by
  have hmem := List.mem_of_getElem? hr
  have hstarted := h.sent_le
  have hout := h.out_eq hmem hown
  have hwant := h.wanting r hmem hf i hown
  obtain ⟨out, t, hstep, hne, m, ht⟩ := h.sound.step (.pollRecv at' w)
    (by simp [Sys.allows, hr, hf]) (by simp only [Op.calls]; omega)
  cases m with
  | ignored => exact absurd rfl hne
  | @received b _ r₁ st v buf _ hb hr₁ _ hst hv =>
    cases hr.symm.trans hr₁
    have hwired := h.wired b hb
    obtain ⟨-, hcap⟩ := VecDeque.popFront_eq_some hv
    refine ⟨true, { p with sys := _, wants := _, out := _ },
      by rw [Session.awaitRecv, hstep]; rfl, ?_, ?_⟩
    · have hcounted := h.counted i
      rw [hout] at hcounted ⊢
      refine h.changed hr hown ⟨r.index, false, none, { r.log with
        received := r.log.received ++ [v] }⟩ rfl rfl ?_ (fun hf => (by cases hf)) ht ?_
        rfl rfl rfl rfl
      · rw [← hcounted]
        cases hleft : p.wants i with
        | none => rfl
        | some n =>
          have hn : n ≠ 0 := fun hn => hwant (hleft.trans (congrArg some hn))
          simp only [Option.map_some, List.length_append, List.length_singleton]
          congr 1
          omega
      · rintro _ ⟨⟩
        exact hwired.setState hst rfl hcap
    · have hle := (h.log_le hmem).2
      have hlog := (h.log_le hmem).1
      refine .of_receiver h hr hown ⟨r.index, false, none, { r.log with
        received := r.log.received ++ [v] }⟩ rfl rfl rfl rfl rfl rfl rfl rfl
        (fun ha => by cases ha) hwired.sender_cost ?_
      have htracks := (h.sound.ordered.tracked b hb r hmem st hst).order
      have hmore := congrArg List.length htracks
      rw [(VecDeque.popFront_eq_some hv).1] at hmore
      simp only [Log.messages, List.length_map, List.length_append, List.length_cons] at hmore
      simp only [Log.todo, List.length_append, List.length_singleton, Bool.toNat_true]
      omega
  | @recvPark b _ r₁ st _ hb hr₁ _ hst hv hs =>
    cases hr.symm.trans hr₁
    have hwired := h.wired b hb
    refine ⟨false, { p with sys := _ }, by rw [Session.awaitRecv, hstep]; rfl, ?_, ?_⟩
    · refine h.touched hr hown { r with
        pending := some (w, p.sys.wakes.length + b.value.sender.toList.length) }
        rfl rfl rfl (fun _ => hwant) ht ?_ rfl rfl rfl rfl
      rintro _ ⟨⟩
      exact hwired.setState hst rfl rfl
    · refine .of_receiver h hr hown { r with
        pending := some (w, p.sys.wakes.length + b.value.sender.toList.length) }
        rfl rfl rfl rfl rfl rfl rfl rfl ?_ hwired.sender_cost (by simp)
      intro _
      show Asleep name (p.sys.wakes ++ b.value.sender.toList) (some (w, _)) (.receiver i)
      rw [← List.length_append]
      exact .park hw
  | @recvEnd b _ r₁ st _ hb hr₁ _ hst hv hs =>
    cases hr.symm.trans hr₁
    obtain ⟨hpos, -⟩ := List.getElem?_eq_some_iff.mp hr
    have hall : r.log.received = r.log.messages := by
      have horder := (h.sound.ordered.tracked b hb r hmem st hst).order
      rwa [hv, List.append_nil] at horder
    have hwired : ∀ c, some (setState b r.index { st with waker := none }) = some c →
        Wired name c := by
      rintro _ ⟨⟩
      exact (h.wired b hb).setState hst rfl rfl
    let r' : Receiver T W := ⟨r.index, false, none, { r.log with ended := true }⟩
    have hk := h.touched hr hown r' rfl rfl rfl (fun hf => (by cases hf)) ht hwired rfl rfl rfl rfl
    obtain ⟨q, hq, hkq, hturn⟩ := hk.leave hlt (List.getElem?_set_self hpos) hown rfl
      (Or.inr ⟨hs, hall⟩)
    refine ⟨false, q, ?_, hkq,
      hturn.of_touched h hr hown r' rfl rfl (List.append_nil _) rfl rfl rfl rfl⟩
    rw [Session.awaitRecv, hstep]
    exact hq

/-! ### Turns of the sender -/

private theorem Keeps.resumed (h : Keeps name values wants p) (hlt : values.length < messageIds)
    {u : Sys T W} {v : T} (hu : p.sys.Resumed v u) :
    Keeps name values wants { p with sys := u } := by
  have hstarted := h.sent_le
  have hsound := h.sound.resumed hu (by omega)
  rcases hu with ⟨-, rfl⟩ | ⟨hs, b, hb, rfl⟩
  · exact h
  · refine ⟨hsound, ?_, ?_, ?_, h.owned, h.owner, h.collected, h.counted, h.wanting, h.returned,
      h.gathered⟩
    · rintro _ ⟨⟩
      exact ⟨(h.wired b hb).room, (h.wired b hb).sender⟩
    · have hsent := h.sent
      simp only [Sys.offered, hs] at hsent
      simpa [Sys.offered, Sys.begin] using hsent
    · intro r hr n hn
      simp only [Sys.begin, List.length_append, List.length_singleton] at hn ⊢
      by_cases hold : n < p.sys.sent.length
      · rcases h.complete r hr n hold with hin | ⟨-, v', hv'⟩
        · exact Or.inl hin
        · cases hs.symm.trans hv'
      · exact Or.inr ⟨by omega, v, rfl⟩

/-- The first poll of a `send` is part of a turn. -/
theorem Turned.resumed [Layout T] (h : Keeps name values wants p) {u : Sys T W} {v : T}
    (hu : p.sys.Resumed v u) {q : Session T W k} {again : Bool}
    (ht : Turned name values { p with sys := u } .sender again q) :
    Turned name values p .sender again q := by
  obtain ⟨-, hsender, hreceivers, hsending⟩ := h.sound.inv.resumed hu
  have hlive : p.sys.sending.isSome = true := by
    rcases hu.sends with hs | hs <;> rw [hs] <;> rfl
  have hsender' := h.sound.inv.sendAlive hlive
  have hwakes : u.wakes = p.sys.wakes := by
    rcases hu with ⟨-, rfl⟩ | ⟨-, b, hb, rfl⟩ <;> rfl
  refine ht.of_eq ?_ hwakes ?_ ?_
  · funext j
    cases j with
    | sender => simp [tasks, hsender, hsender']
    | receiver i => rfl
  · intro j hj hwait
    cases j with
    | sender => exact absurd rfl hj
    | receiver i =>
      obtain ⟨r, hr, hown, hasleep⟩ := hwait
      refine ⟨r, by rw [hreceivers]; exact hr, hown, ?_⟩
      rw [hwakes]
      exact hasleep
  · obtain ⟨future, hf⟩ := Option.isSome_iff_exists.mp hlive
    simp only [potential, hreceivers, hsending, hf, hsender, hsender', Option.toList,
      List.length_singleton]

/-- A poll of `Send` gives the message to more receivers. -/
theorem Keeps.delivered (h : Keeps name values wants p) {b c : Inner T W} {v : T} {w : W}
    (hv : p.sys.sending = some (.suspended v)) (hb : p.sys.inner = some b)
    (hc : c = { b with value := { b.value with sender := register b.value.sender w } })
    (hw : roleOf name w = .sender) {sending : Option (Sending T)} {pending : Option (W × Nat)}
    (hsend : sending = none ∧ (sendPass c v).1.delivered = p.sys.receivers.length ∨
      sending = p.sys.sending)
    (ht : Sys.Sound { p.sys.deliver c v (sendPass c v) with
      sending := sending, sendPending := pending }) :
    Keeps name values wants { p with sys := { p.sys.deliver c v (sendPass c v) with
      sending := sending, sendPending := pending } } := by
  have hloop := sendPass_pass c v
  have hsender := h.sound.inv.sendAlive (by rw [hv]; rfl)
  have hreceivers : c.value.receivers = b.value.receivers := by rw [hc]
  refine ⟨ht, ?_, ?_, ?_, ?_, h.owner, ?_, h.counted, ?_, h.returned, h.gathered⟩
  · rintro _ ⟨⟩
    refine ⟨?_, ?_⟩
    · intro key st hst
      simp only [hloop.get?, Option.map_eq_some_iff] at hst
      obtain ⟨st', hst', rfl⟩ := hst
      have hroom := (h.wired b hb).room key st' (hreceivers ▸ hst')
      split
      · exact Or.inr (by simp [VecDeque.pushBack])
      · exact hroom
    · intro w' hw'
      rw [hc] at hw'
      exact roleOf_register hw w' hw'
  · have hnone : Sys.offered { p.sys.deliver c v (sendPass c v) with
        sending := sending, sendPending := pending } = [] := by
      rcases hsend with ⟨rfl, -⟩ | rfl
      · rfl
      · simp only [Sys.offered, hv]
    have hsent := h.sent
    simp only [Sys.offered, hv] at hsent
    rw [hnone]
    exact hsent
  · intro x hx n hn
    obtain ⟨r, hr, rfl⟩ := List.mem_map.mp hx
    rcases h.complete r hr n hn with hin | ⟨hlast, hsus⟩
    · refine Or.inl ?_
      simp only [Log.positions, Log.push, List.map_append]
      exact List.mem_append_left _ hin
    · rcases hsend with ⟨rfl, hall⟩ | rfl
      · have hgiven := (sendDelivering hv hsender hb hc (Or.inl rfl)).given_all h.sound.ordered
          h.sound.inv hall _ hx
        refine Or.inl (List.count_pos_iff.mp ?_)
        have hn' : n = p.sys.sent.length - 1 := by omega
        rw [hn', hgiven]
        exact Nat.one_pos
      · exact Or.inr ⟨hlast, hsus⟩
  · intro x hx
    obtain ⟨r, hr, rfl⟩ := List.mem_map.mp hx
    exact h.owned r hr
  · intro i index hi
    obtain ⟨r, hr, hri, hout⟩ := h.collected i index hi
    exact ⟨_, List.mem_map_of_mem hr, hri, hout⟩
  · intro x hx hf i hi
    obtain ⟨r, hr, rfl⟩ := List.mem_map.mp hx
    exact h.wanting r hr hf i hi

/-- A poll of `Send` pays for the receivers that it wakes. -/
theorem Keeps.delivered_pays (h : Keeps name values wants p) {b c : Inner T W} {v : T}
    {sending : Option (Sending T)} {pending : Option (W × Nat)} (hb : p.sys.inner = some b)
    (hc : c.value.receivers = b.value.receivers)
    (ht : Keeps name values wants { p with sys := { p.sys.deliver c v (sendPass c v) with
      sending := sending, sendPending := pending } }) :
    (((p.sys.deliver c v (sendPass c v)).receivers.map fun r => r.log.todo values.length).sum +
      3 * (sendPass c v).1.woken.length) ≤
      (p.sys.receivers.map fun r => r.log.todo values.length).sum := by
  have hloop := sendPass_pass c v
  have hwoken := hloop.woken_le
  rw [hc, h.sound.inv.countP_entries hb] at hwoken
  refine (Nat.add_le_add_left (Nat.mul_le_mul_left 3 hwoken) _).trans ?_
  have hmap : (p.sys.deliver c v (sendPass c v)).receivers = p.sys.receivers.map fun r =>
      { r with log :=
          r.log.push (p.sys.sent.length - 1) v ((sendPass c v).1.pushed.count r.index) } := rfl
  rw [hmap, List.map_map]
  refine sum_add_countP_le fun r hr => ?_
  obtain ⟨st, hst⟩ := h.sound.inv.entry hb hr
  have hle := (ht.log_le (List.mem_map_of_mem hr)).1
  rw [hloop.count (hc ▸ hst)] at hle
  simp only [Function.comp_apply, hloop.count (hc ▸ hst), hst, Option.any_some]
  simp only [Log.push, Log.todo, List.length_append, List.length_replicate] at hle ⊢
  omega

/-- A turn of the sender that pays for every receiver it wakes. -/
theorem Turned.of_sender [Layout T] (h : Keeps name values wants p) {again : Bool}
    {q : Session T W k} {new : List W} (hw : q.sys.wakes = p.sys.wakes ++ new)
    (hown : q.owns = p.owns) (hs : q.sys.sender = p.sys.sender ∨ q.sys.sender = false)
    (hrests : again = false → q.sys.sender = true → Waits name q .sender)
    (hreceivers : ∀ r ∈ p.sys.receivers,
      ∃ x ∈ q.sys.receivers, x.index = r.index ∧ x.pending = r.pending)
    (hpays : potential values q + again.toNat + 2 * new.length < potential values p + 1) :
    Turned name values p .sender again q := by
  refine .of h hw ?_ ?_ (fun hno => absurd rfl hno) ?_ ?_
  · intro j hj
    cases j with
    | sender =>
      rcases hs with hs | hs
      · simpa [tasks, hs] using hj
      · simp [tasks, hs]
    | receiver i => simpa [tasks, hown] using hj
  · intro ha hf
    exact hrests ha (by simpa [tasks] using hf)
  · exact fun i _ => ⟨by rw [hown], fun r hr _ => hreceivers r hr⟩
  · have hcost : ((new.map (roleOf name)).map Role.cost).sum ≤ 2 * new.length :=
      woken_cost_le new
    have hbit : (if again = true then (Role.sender : Role k).cost else 0) = again.toNat := by
      cases again <;> rfl
    have hone : (Role.sender : Role k).cost = 1 := rfl
    rw [hbit, hone]
    omega

/-- A poll of `send` delivers the message and goes on, or finds a buffer full and waits. -/
theorem Keeps.awaitSend [Layout T] (h : Keeps name values wants p)
    (hlt : values.length < messageIds) (hs : p.sys.sending.isSome = true) {w : W}
    (hw : roleOf name w = .sender) :
    ∃ again q, p.awaitSend w = .ok (again, q) ∧ Keeps name values wants q ∧
      Turned name values p .sender again q := by
  have hstarted := h.sent_le
  obtain ⟨out, t, hstep, hne, m, ht⟩ := h.sound.step (.pollSend w) hs
    (by simp only [Op.calls]; omega)
  cases m with
  | ignored => exact absurd rfl hne
  | @sentNone u v _ hu hr =>
    obtain ⟨-, -, hreceivers, hsending⟩ := h.sound.inv.resumed hu
    have hu' := h.resumed hlt hu
    have hnil : u.receivers = [] := hreceivers.trans hr
    refine ⟨true, { p with sys := u.endSend }, by rw [Session.awaitSend, hstep]; rfl, ?_, ?_⟩
    · refine ⟨ht, hu'.wired, ?_, ?_, hu'.owned, hu'.owner, hu'.collected, hu'.counted,
        hu'.wanting, hu'.returned, hu'.gathered⟩
      · have hsent := hu'.sent
        simp only [Sys.offered, hsending] at hsent
        exact hsent
      · intro r hmem
        have hmem' : r ∈ u.receivers := hmem
        rw [hnil] at hmem'
        cases hmem'
    · refine .resumed h hu (.of_sender hu' (List.append_nil _).symm rfl (Or.inl rfl)
        (fun ha => by cases ha) (fun r hmem => ⟨r, hmem, rfl, rfl⟩) ?_)
      simp only [potential, Sys.endSend, hsending, Option.toList, List.length_singleton,
        List.length_nil, Bool.toNat_true]
      omega
  | @sent u b c v _ hu hb hc hall =>
    obtain ⟨-, -, hreceivers, hsending⟩ := h.sound.inv.resumed hu
    have hu' := h.resumed hlt hu
    rw [← hreceivers] at hall
    have hkeep := hu'.delivered hsending hb hc hw (Or.inl ⟨rfl, hall⟩) ht
    refine ⟨true, _, by rw [Session.awaitSend, hstep]; rfl, hkeep, ?_⟩
    have hpays := hu'.delivered_pays hb (by rw [hc]) hkeep
    refine .resumed h hu (.of_sender hu' rfl rfl (Or.inl rfl) (fun ha => by cases ha)
      (fun r hmem => ⟨_, List.mem_map_of_mem hmem, rfl, rfl⟩) ?_)
    have hlen : (u.deliver c v (sendPass c v)).receivers.length = u.receivers.length :=
      List.length_map _
    simp only [potential, hsending, Option.toList, List.length_singleton, List.length_nil,
      Bool.toNat_true, hlen]
    simp only [Sys.deliver, Sys.handOut, Sys.put] at hpays ⊢
    omega
  | @sendPark u b c v _ hu hb hc hsome =>
    obtain ⟨-, -, hreceivers, hsending⟩ := h.sound.inv.resumed hu
    have hu' := h.resumed hlt hu
    have hkeep := hu'.delivered hsending hb hc hw (Or.inr rfl) ht
    refine ⟨false, _, by rw [Session.awaitSend, hstep]; rfl, hkeep, ?_⟩
    have hpays := hu'.delivered_pays hb (by rw [hc]) hkeep
    refine .resumed h hu (.of_sender hu' rfl rfl (Or.inl rfl) ?_
      (fun r hmem => ⟨_, List.mem_map_of_mem hmem, rfl, rfl⟩) ?_)
    · intro _ _
      show Asleep name (u.wakes ++ (sendPass c v).1.woken) (some (w, _)) .sender
      rw [← List.length_append]
      exact .park hw
    · have hlen : (u.deliver c v (sendPass c v)).receivers.length = u.receivers.length :=
        List.length_map _
      simp only [potential, Bool.toNat_false, hlen]
      simp only [Sys.deliver, Sys.handOut, Sys.put] at hpays ⊢
      omega

/-- A turn of the sender polls its `send`, starts another one, or drops the sender. -/
theorem Keeps.senderTurn [Layout T] (h : Keeps name values wants p)
    (hlt : values.length < messageIds) (hlive : p.sys.sender = true) {w : W}
    (hw : roleOf name w = .sender) :
    ∃ again q, p.senderTurn w = .ok (again, q) ∧ Keeps name values wants q ∧
      Turned name values p .sender again q := by
  have hstarted := h.sent_le
  unfold Session.senderTurn
  by_cases hs : p.sys.sending.isSome = true
  · rw [if_pos hs]
    exact h.awaitSend hlt hs hw
  · rw [if_neg hs]
    have hnone : p.sys.sending = none := by simpa using hs
    have hfree : p.sys.senderFree = true := senderFree_iff.mpr ⟨hlive, hnone⟩
    have hsent := h.sent
    cases hu : p.unsent with
    | cons value rest =>
      rw [hu] at hstarted hsent
      simp only [Sys.offered, hnone] at hsent
      have hstep : p.sys.step (.send value) =
          .ok (.done, { p.sys with sending := some (.unresumed value) }) := by
        rw [Sys.step, if_pos hfree]
      obtain ⟨out, t, hstep', -, -, ht⟩ := h.sound.step (.send value) hfree
        (by simp only [Op.calls, List.length_cons] at hstarted ⊢; omega)
      cases hstep.symm.trans hstep'
      have hstart : Keeps name values wants { p with
          sys := { p.sys with sending := some (.unresumed value) }, unsent := rest } := by
        refine ⟨ht, h.wired, ?_, ?_, h.owned, h.owner, h.collected, h.counted, h.wanting, ?_,
          h.gathered⟩
        · simpa [Sys.offered] using hsent
        · intro r hr n hn
          rcases h.complete r hr n hn with hin | ⟨-, v, hv⟩
          · exact Or.inl hin
          · cases hnone.symm.trans hv
        · intro hgone
          exact absurd (hgone.symm.trans hlive) Bool.false_ne_true
      obtain ⟨again, q, hq, hk, hturn⟩ := hstart.awaitSend hlt rfl hw
      refine ⟨again, q, ?_, hk, hturn.of_eq rfl rfl (fun j hj hwait => ?_) ?_⟩
      · simp only [hstep, ok_bind]
        exact hq
      · cases j with
        | sender => exact absurd rfl hj
        | receiver i => exact hwait
      · simp only [potential, hu, hnone, List.length_cons, Option.toList, List.length_nil]
    | nil =>
      obtain ⟨out, t, hstep, hne, m, ht⟩ := h.sound.step .dropSender hfree
        (by simp only [Op.calls]; omega)
      cases m with
      | ignored => exact absurd rfl hne
      | @dropSender b hb _ =>
        have hwoken := length_flatMap_toList_le b.value.receivers.entries
          fun e : Nat × ReceiverState T W => e.2.waker
        have hlen : b.value.receivers.entries.length = p.sys.receivers.length :=
          h.sound.inv.len_eq hb
        refine ⟨false, _, by simp only [hstep, ok_bind]; rfl, ?_, ?_⟩
        · refine ⟨ht, ?_, by rw [← hu]; exact hsent, h.complete, h.owned, h.owner, h.collected,
            h.counted, h.wanting, fun _ => rfl, h.gathered⟩
          intro c hc
          obtain ⟨-, hc⟩ := Option.ite_none_left_eq_some.mp hc
          cases hc
          refine ⟨?_, (h.wired b hb).sender⟩
          intro key st hst
          rw [Slab.get?_map, Option.map_eq_some_iff] at hst
          obtain ⟨st', hst', rfl⟩ := hst
          exact (h.wired b hb).room key st' hst'
        · refine .of_sender h rfl rfl (Or.inr rfl) (fun _ hs' => by cases hs')
            (fun r hr => ⟨r, hr, rfl, rfl⟩) ?_
          simp only [potential, Sys.put, hu, hlive, Bool.toNat_true, Bool.toNat_false]
          omega

/-- A turn of a receiver polls its `recv`, starts another one, or drops the receiver. -/
theorem Keeps.receiverTurn [Layout T] (h : Keeps name values wants p)
    (hlt : values.length < messageIds) {i : Fin k} (hlive : (p.owns i).isSome = true) {w : W}
    (hw : roleOf name w = .receiver i) :
    ∃ again q, p.receiverTurn i w = .ok (again, q) ∧ Keeps name values wants q ∧
      Turned name values p (.receiver i) again q := by
  have hstarted := h.sent_le
  obtain ⟨index, hown⟩ := Option.isSome_iff_exists.mp hlive
  obtain ⟨r, hr, rfl⟩ := h.at_position hown
  simp only [Session.receiverTurn, hown, hr, Option.any_some]
  by_cases hf : r.receiving = true
  · rw [if_pos hf]
    exact h.awaitRecv hlt hr hown hf hw
  · rw [if_neg hf]
    have hidle : r.receiving = false := by simpa using hf
    by_cases hwant : p.wants i = some 0
    · rw [if_pos hwant]
      obtain ⟨q, hq, hk, hturn⟩ := h.leave hlt hr hown hidle (Or.inl hwant)
      exact ⟨false, q, hq, hk, hturn⟩
    · rw [if_neg hwant]
      obtain ⟨hpos, -⟩ := List.getElem?_eq_some_iff.mp hr
      have hstep : p.sys.step (.recv (p.position r.index)) =
          .ok (.done, p.sys.setReceiver (p.position r.index) { r with receiving := true }) := by
        simp only [Sys.step, Sys.withReceiver, hr, hidle, if_true]
      obtain ⟨out, t, hstep', -, -, ht⟩ := h.sound.step (.recv (p.position r.index))
        (by simp [Sys.allows, hr, hidle]) (by simp only [Op.calls]; omega)
      cases hstep.symm.trans hstep'
      have hstart := h.touched hr hown { r with receiving := true } rfl rfl rfl (fun _ => hwant) ht
        h.wired rfl rfl rfl rfl
      obtain ⟨again, q, hq, hk, hturn⟩ := hstart.awaitRecv hlt (List.getElem?_set_self hpos) hown
        rfl hw
      refine ⟨again, q, ?_, hk, hturn.of_touched h hr hown { r with receiving := true } rfl rfl rfl
        rfl rfl rfl rfl⟩
      simp only [hstep, ok_bind]
      exact hq

/-- The tasks cooperate as long as message ids do not repeat. -/
theorem cooperates [Layout T] (name : Waker.Task W → Role k) {values : List T}
    (wants : Fin k → Option Nat) (hlt : values.length < messageIds) :
    (tasks name : Tasks Fault (Session T W k) W (Role k)).Cooperates (Keeps name values wants)
      (Waits name) (potential values) Role.cost := by
  refine ⟨?_, fun p h hw => h.awake hw⟩
  intro p w h hf
  have hrole : (tasks name : Tasks Fault (Session T W k) W (Role k)).task w = roleOf name w := rfl
  cases hw : roleOf name w with
  | sender =>
    rw [hrole, hw] at hf ⊢
    obtain ⟨again, q, hq, hk, hturn⟩ := h.senderTurn hlt (by simpa [tasks] using hf) hw
    exact ⟨_, q, by simp only [tasks, hw, hq, ok_bind], hk, hturn⟩
  | receiver i =>
    rw [hrole, hw] at hf ⊢
    have hlive : (p.owns i).isSome = true := by
      rw [Option.isSome_iff_ne_none, Ne, ← Option.isNone_iff_eq_none, Bool.not_eq_true]
      exact hf
    obtain ⟨again, q, hq, hk, hturn⟩ := h.receiverTurn hlt hlive hw
    exact ⟨_, q, by simp only [tasks, hw, hq, ok_bind], hk, hturn⟩

/-- What was collected is a prefix of the values. -/
theorem Keeps.out_prefix (h : Keeps name values wants p) (i : Fin k) : p.out i <+: values := by
  cases hown : p.owns i with
  | none =>
    rw [h.gathered i hown]
    exact List.take_prefix _ _
  | some index =>
    obtain ⟨r, hr, rfl, hout⟩ := h.collected i index hown
    rw [hout]
    exact h.got_prefix hr

/-! ### Whole schedules -/

/-- A channel that has subscribers and was not used yet. -/
structure Fresh (name : Waker.Task W → Role k) (s : Sys T W) : Prop where
  sound : s.Sound
  wired : ∀ b, s.inner = some b → Wired name b
  sender : s.sender = true
  sending : s.sending = none
  sent : s.sent = []
  idle : ∀ r ∈ s.receivers, r.receiving = false
  logs : ∀ r ∈ s.receivers, r.log = ⟨0, [], [], false⟩

/-- A new channel was not used yet. -/
theorem Fresh.new {setup : Setup} (hs : (setup.create : Option (Inner T W)).isSome = true) :
    Fresh name (Sys.new (setup.create : Option (Inner T W))) := by
  refine ⟨⟨.new setup, .new setup, fun r hr => (by cases hr), .idle⟩, ?_, hs, rfl, rfl,
    fun r hr => (by cases hr), fun r hr => (by cases hr)⟩
  intro b hb
  have hempty := (Setup.create_eq hb).2.2.1
  refine ⟨fun key st hst => ?_, fun w hw => ?_⟩
  · rw [hempty] at hst
    cases hst
  · have hnone : b.value.sender = none := by
      cases setup with
      | unbounded => rw [← Option.some.inj hb]; rfl
      | bounded capacity =>
        simp only [Sys.new, Setup.create, channel] at hb
        split at hb
        · rw [← Option.some.inj hb]; rfl
        · cases hb
    cases hnone.symm.trans hw

/-- Subscribing does not use the channel. -/
theorem Fresh.subscribe [Layout T] {s : Sys T W} (h : Fresh name s) (key : Nat) :
    ∃ out t, s.step (.subscribe key) = .ok (out, t) ∧ Fresh name t := by
  obtain ⟨out, t, hstep, m⟩ := h.sound.inv.step_move (.subscribe key)
  have hstarted : s.started = 0 := by simp [Sys.started, h.sent, h.sending]
  have hsound : t.Sound := ⟨h.sound.inv.move m,
    h.sound.ordered.move h.sound.inv (by rw [hstarted]; simp [Op.calls, messageIds]) m,
    h.sound.recvAwake.move h.sound.inv m, h.sound.sendAwake.move h.sound.inv m⟩
  refine ⟨out, t, hstep, ?_⟩
  cases m with
  | ignored => exact h
  | @subscribe b _ hb hs hk hm =>
    refine ⟨hsound, ?_, h.sender, h.sending, h.sent, ?_, ?_⟩
    · rintro _ ⟨⟩
      obtain ⟨st, heq, hroom⟩ := newReceiver_room b.value key
      rw [heq]
      refine ⟨?_, (h.wired b hb).sender⟩
      intro key' st' hst'
      rw [Slab.get?_insert] at hst'
      split at hst'
      · cases hst'
        exact hroom
      · exact (h.wired b hb).room key' st' hst'
    · intro r hr
      rcases List.mem_append.mp hr with hr | hr
      · exact h.idle r hr
      · rw [List.mem_singleton.mp hr]
    · intro r hr
      rcases List.mem_append.mp hr with hr | hr
      · exact h.logs r hr
      · rw [List.mem_singleton.mp hr, h.sent]
        rfl

private theorem Fresh.of_run [Layout T] {s t : Sys T W} (h : Fresh name s) {keys : List Nat}
    {outs : List (Out T)} (hr : run Sys.step s (keys.map .subscribe) = .ok (outs, t)) :
    Fresh name t := by
  obtain ⟨outs', t', hr', ht⟩ := run_invariant (fun s key h => Fresh.subscribe h key) h keys
  rw [run_map Sys.step] at hr'
  cases hr.symm.trans hr'
  exact ht

/-- Nothing has happened when the tasks are spawned. -/
theorem Keeps.spawn {s : Sys T W} (h : Fresh name s) (hk : s.receivers.length = k)
    (values : List T) (wants : Fin k → Option Nat) :
    Keeps name values wants (.spawn k s values wants) := by
  have howns : ∀ (i : Fin k) index, (Session.spawn k s values wants).owns i = some index →
      ∃ r, s.receivers[i.1]? = some r ∧ r.index = index := by
    intro i index hi
    exact Option.map_eq_some_iff.mp hi
  refine ⟨h.sound, h.wired, ?_, ?_, ?_, ?_, ?_, ?_, ?_, ?_, ?_⟩
  · simp [Session.spawn, Sys.offered, h.sent, h.sending]
  · intro r hr n hn
    simp [Session.spawn, h.sent] at hn
  · intro r hr
    obtain ⟨n, hn⟩ := List.mem_iff_getElem?.mp hr
    obtain ⟨hlt, -⟩ := List.getElem?_eq_some_iff.mp hn
    exact ⟨⟨n, hk ▸ hlt⟩, Option.map_eq_some_iff.mpr ⟨r, hn, rfl⟩⟩
  · intro i j index hi hj
    obtain ⟨x, hx, hxi⟩ := howns i index hi
    obtain ⟨y, hy, hyi⟩ := howns j index hj
    have hnodup : (s.receivers.map Receiver.index).Nodup := by
      obtain ⟨b, hb, -⟩ := access_of_alive h.sound.inv (Or.inl h.sender)
      rw [(h.sound.inv.keys b hb).nodup_iff]
      exact Slab.nodup_keys _
    have hget : (s.receivers.map Receiver.index)[i.1]? =
        (s.receivers.map Receiver.index)[j.1]? := by
      rw [List.getElem?_map, List.getElem?_map, hx, hy, Option.map_some, Option.map_some, hxi, hyi]
    have hi' : i.1 < (s.receivers.map Receiver.index).length := by
      rw [List.length_map, hk]
      exact i.2
    exact Fin.ext ((List.getElem?_inj hi' hnodup).mp hget)
  · intro i index hi
    obtain ⟨r, hr, hri⟩ := howns i index hi
    refine ⟨r, List.mem_of_getElem? hr, hri, ?_⟩
    rw [h.logs r (List.mem_of_getElem? hr)]
    rfl
  · intro i
    show (wants i).map (· + 0) = wants i
    cases wants i <;> rfl
  · intro r hr hf
    rw [h.idle r hr] at hf
    cases hf
  · intro hgone
    exact absurd (h.sender.symm.trans hgone) Bool.false_ne_true.symm
  · intro i hi
    have hlt : i.1 < s.receivers.length := hk ▸ i.2
    simp [Session.spawn, hlt] at hi

private theorem potential_spawn {s : Sys T W} (h : Fresh name s) (hk : s.receivers.length = k)
    (values : List T) (wants : Fin k → Option Nat) :
    potential values (.spawn k s values wants : Session T W k) =
      2 * values.length + k * (5 * values.length + 3) + (2 * k + 1) := by
  have hlogs : (s.receivers.map fun r => r.log.todo values.length) =
      s.receivers.map fun _ => 5 * values.length + 3 := by
    refine List.map_congr_left fun r hr => ?_
    rw [h.logs r hr]
    simp only [Log.todo, List.length_nil]
    omega
  simp only [potential, Session.spawn, hlogs, List.map_const', List.sum_replicate, Nat.nsmul_eq_mul,
    h.sending, h.sender, hk, Option.toList, List.length_nil, Bool.toNat_true]
  omega

omit [Target] [Waker W] in
private theorem sum_cost (k : Nat) : ∑ role : Role k, role.cost = 1 + 2 * k := by
  rw [← (Role.equiv k).sum_comp, Fintype.sum_option]
  show Role.sender.cost + ∑ i : Fin k, (Role.receiver i).cost = _
  simp only [Role.cost, Finset.sum_const, Finset.card_univ, Fintype.card_fin, Nat.nsmul_eq_mul]
  omega

end Awake

/-- However the executor schedules the tasks, whichever wakers it polls them with and however
many values each receiver wants, where fewer values are sent than there are message ids: no turn
panics, each receiver collects the values in order, the number of turns is bounded, and as long
as not all tasks have returned, one of them is scheduled. When they have, each receiver has what
it wanted, or everything. -/
theorem all_values_reach_all_subscribers [Target] [Layout T] (name : Waker.Task W → Role k)
    {setup : Setup} (hs : (setup.create : Option (Inner T W)).isSome = true) {keys : List Nat}
    {subscribed : List (Out T)} {sys : Sys T W}
    (hsys : run Sys.step (.new setup.create) (keys.map .subscribe) = .ok (subscribed, sys))
    (hk : sys.receivers.length = k) (values : List T) (hlt : values.length < 2 ^ 64 - 1)
    (wants : Fin k → Option Nat) (schedule : List W)
    (hschedule : (tasks name).Schedule (.start (.spawn k sys values wants)) schedule) :
    ∃ outs m,
      run (tasks name).poll (.start (.spawn k sys values wants)) schedule = .ok (outs, m) ∧
      (∀ i, m.shared.out i <+: values) ∧
      schedule.length ≤ (5 * k + 2) * values.length + (7 * k + 2) ∧
      ((∃ role, (tasks name).Ready m role) ∨
        (∀ role, (tasks name).finished m.shared role = true) ∧
          ∀ i, m.shared.out i = values.take ((wants i).getD values.length)) := by
  have hfresh : Fresh name sys := (Fresh.new hs).of_run hsys
  obtain ⟨outs, m, hrun, h, hlen, hend⟩ := (cooperates name wants hlt).run
    (Tasks.Sound.start (Keeps.spawn hfresh hk values wants)) hschedule
  have hrank : (tasks name).rank (potential values) Role.cost
      (.start (.spawn k sys values wants)) ≤ (5 * k + 2) * values.length + (7 * k + 2) := by
    refine Tasks.rank_start_le _ |>.trans ?_
    have hpot := potential_spawn hfresh hk values wants
    have hcost := sum_cost k
    have hbound : 2 * values.length + k * (5 * values.length + 3) + (2 * k + 1) + (1 + 2 * k) =
        (5 * k + 2) * values.length + (7 * k + 2) := by ring
    omega
  refine ⟨outs, m, hrun, h.out_prefix, by omega, hend.imp_right fun hf => ?_⟩
  exact ⟨hf, fun i => h.gathered i (by simpa [tasks] using hf (.receiver i))⟩

/-- Two receivers wait first. The one that wants a single value leaves while the sender waits
for it. -/
theorem all_values_reach_all_subscribers_two_receivers :
    ∃ subscribed sys,
      run (@Sys.step Nat (TaskWaker (Role 2)) _ ⟨64, by decide⟩ ⟨false⟩)
        (.new (Setup.bounded 1).create) ([0, 1].map .subscribe) = .ok (subscribed, sys) ∧
      ∃ outs m,
        run (@tasks Nat (TaskWaker (Role 2)) 2 ⟨64, by decide⟩ ⟨false⟩ _ id).poll
          (.start (.spawn 2 sys [5, 8, 13] ![some 1, none]))
          [⟨.receiver 0, 0⟩, ⟨.receiver 1, 0⟩, ⟨.sender, 0⟩, ⟨.sender, 1⟩, ⟨.receiver 0, 1⟩,
            ⟨.receiver 0, 1⟩, ⟨.sender, 1⟩] = .ok (outs, m) ∧
        (∀ i, m.shared.out i <+: [5, 8, 13]) ∧ 7 ≤ (5 * 2 + 2) * 3 + (7 * 2 + 2) ∧
        ((∃ role, (@tasks Nat (TaskWaker (Role 2)) 2 ⟨64, by decide⟩ ⟨false⟩ _ id).Ready m role) ∨
          (∀ role, (@tasks Nat (TaskWaker (Role 2)) 2 ⟨64, by decide⟩ ⟨false⟩ _ id).finished
            m.shared role = true) ∧
          ∀ i, m.shared.out i =
            [5, 8, 13].take ((![some 1, none] i : Option Nat).getD 3)) :=
  ⟨_, _, rfl, @all_values_reach_all_subscribers Nat (TaskWaker (Role 2)) 2 _ ⟨64, by decide⟩
    ⟨false⟩ id (.bounded 1) rfl [0, 1] _ _ rfl rfl [5, 8, 13] (by decide) ![some 1, none] _
    (by decide)⟩

end Session

end Broadcast
end Unsync
