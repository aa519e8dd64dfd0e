import Unsync.Oneshot.Runs
import Unsync.Spsc.Tasks

/-!
# Requests and replies

The program of `tests/oneshot.rs:10–64`: a client makes a oneshot channel for each request,
sends the sending end through a channel and waits for the reply; a server answers with the
number of requests it served before. A turn takes a task from one `await` to the next. The
executor may switch tasks at every `await`, which covers tasks that yield between two of them.
-/

namespace Unsync
namespace Requests

open Runs Executor
open Spsc (Role Wired)

/-- The channel of the requests, whose messages number the oneshot channels in the order in
which they were made, and these. The remaining fields are those of the tasks: whether the
client has the receiver of the latest call, how many calls it is still to make and what it was
told, and how many requests the server served. The wakers woken through all channels are
recorded in order. -/
structure Session (R W : Type) where
  requests : Spsc.Sys Nat W
  calls : List (Oneshot.Sys R W)
  awaiting : Bool
  left : Nat
  out : List R
  served : Nat
  wakes : List W

variable {R W : Type}

namespace Session

/-- The client and the server have been spawned. -/
def new (inner : Option (Spsc.Inner Nat W)) (left : Nat) : Session R W :=
  ⟨.new inner, [], false, left, [], 0, []⟩

section Turns

variable [Target] [Waker W]

/-- Use the channel of the requests. -/
def request (p : Session R W) (op : Spsc.Op Nat W) :
    Except Fault (Spsc.Out Nat × Session R W) := do
  let (out, requests) ← p.requests.step op
  .ok (out, { p with
    requests := requests
    wakes := p.wakes ++ requests.wakes.drop p.requests.wakes.length })

/-- Use an end of a oneshot channel. -/
def call (p : Session R W) (i : Nat) (op : Oneshot.Op R W) :
    Except Fault (Oneshot.Out R × Session R W) :=
  match p.calls[i]? with
  | none => .error .dangling
  | some before => do
    let (out, after) ← before.step op
    .ok (out, { p with
      calls := p.calls.set i after
      wakes := p.wakes ++ after.wakes.drop before.wakes.length })

/-- Poll `tx.send(oneshot_tx)`, and go on when it resolves. The flag tells whether the task
goes on. -/
def awaitSend (p : Session R W) (w : W) : Except Fault (Bool × Session R W) := do
  let (out, p) ← p.request (.pollSend w)
  match out with
  | .sent (.ok ()) => .ok (true, p)
  -- The error holds the sender of the call, and is dropped.
  | .sent (.error error) => do
    let (_, p) ← p.call error.value .dropSender
    .ok (true, p)
  | _ => .ok (false, p)

/-- Poll `oneshot_rx`, and go on when it resolves. -/
def awaitReply (p : Session R W) (i : Nat) (w : W) : Except Fault (Bool × Session R W) := do
  let (out, p) ← p.call i (.poll w)
  match out with
  | .polled (.ready reply) => do
    let (_, p) ← p.call i .dropReceiver
    .ok (true, { p with awaiting := false, out := p.out ++ reply.toList })
  | _ => .ok (false, p)

/-- A turn of the client: the loop of calls, after which `tx` is dropped. -/
def clientTurn (p : Session R W) (w : W) : Except Fault (Bool × Session R W) :=
  if p.requests.sending.isSome then p.awaitSend w
  else if p.awaiting then p.awaitReply (p.calls.length - 1) w
  else
    match p.left with
    | left + 1 => do
      let (_, p) ← { p with
        calls := p.calls ++ [Oneshot.Sys.new]
        awaiting := true
        left := left }.request (.send p.calls.length)
      p.awaitSend w
    | 0 => do
      let (_, p) ← p.request .dropSender
      .ok (false, p)

/-- Poll `rx.recv()`, and serve the request that it resolves to. Once it resolves to `None` the
task returns, and `rx` is dropped. -/
def awaitRequest (answer : Nat → R) (p : Session R W) (w : W) :
    Except Fault (Bool × Session R W) := do
  let (out, p) ← p.request (.pollRecv w)
  match out with
  | .received (some i) => do
    let (_, p) ← p.call i (.send (answer p.served))
    .ok (true, { p with served := p.served + 1 })
  | .received none => do
    let (_, p) ← p.request .dropReceiver
    .ok (false, p)
  | _ => .ok (false, p)

/-- A turn of the server: the loop over the requests. -/
def serverTurn (answer : Nat → R) (p : Session R W) (w : W) : Except Fault (Bool × Session R W) :=
  if p.requests.receiving then p.awaitRequest answer w
  else do
    let (_, p) ← p.request .recv
    p.awaitRequest answer w

/-- The two tasks, named after the ends of the channel of the requests. -/
def tasks (name : Waker.Task W → Role) (answer : Nat → R) :
    Tasks Fault (Session R W) W Role where
  task := roleOf name
  finished p
    | .sender => !p.requests.sender
    | .receiver => !p.requests.receiver
  turn p w := do
    let (again, q) ← match roleOf name w with
      | .sender => p.clientTurn w
      | .receiver => p.serverTurn answer w
    .ok (turnOf name again p.wakes q.wakes, q)

end Turns

/-! ### What every turn keeps -/

variable [Waker W] {name : Waker.Task W → Role} {answer : Nat → R} {n : Nat} {p : Session R W}

/-- The call that the client waits for, after so many that were answered: the server has not
seen its request yet, or has answered it. -/
structure Current (name : Waker.Task W → Role) (answer : Nat → R) (answered served : Nat)
    (c : Oneshot.Sys R W) : Prop where
  inv : Oneshot.Inv c
  receiver : c.receiver = true
  waker : ∀ b, c.inner = some b → ∀ w, b.value.waker = some w → roleOf name w = .sender
  phase : c.sender = true ∧ served = answered ∨
    c.sender = false ∧ c.waiting = some (answer answered) ∧ served = answered + 1

/-- The requests number the calls and are served in order, at most one of them at a time is not
answered, and the server outlives the client. -/
structure Keeps (name : Waker.Task W → Role) (answer : Nat → R) (n : Nat)
    (p : Session R W) : Prop where
  sound : p.requests.Sound
  wired : ∀ b, p.requests.inner = some b → Wired name b
  sends : p.requests.sending.isSome = true → p.awaiting = true
  offered : p.requests.offer.isSome = p.requests.sending.isSome
  numbered : Spsc.accepted p.requests.settled ++ p.requests.offer.toList =
    List.range p.calls.length
  taken : p.requests.received = List.range p.served
  made : p.calls.length = p.out.length + p.awaiting.toNat
  total : p.calls.length + p.left = n
  replies : p.out = (List.range p.out.length).map answer
  idle : p.awaiting = false → p.served = p.out.length
  current : p.awaiting = true →
    ∃ c, p.calls[p.out.length]? = some c ∧ Current name answer p.out.length p.served c
  outlives : p.requests.sender = true → p.requests.receiver = true
  returned : p.requests.sender = false → p.left = 0 ∧ p.awaiting = false

/-- The task waits for a channel. -/
def Waits (name : Waker.Task W → Role) (p : Session R W) : Role → Prop
  | .sender => p.requests.sending.isSome = true ∧
      Asleep name p.requests.wakes p.requests.sendPending .sender ∨
    p.requests.sending = none ∧ p.awaiting = true ∧
      ∃ c, p.calls[p.out.length]? = some c ∧ Asleep name c.wakes c.pending .sender
  | .receiver => Asleep name p.requests.wakes p.requests.recvPending .receiver

/-- What is left to do: calls are made, sent, served and answered, and the client returns. -/
def potential (p : Session R W) : Nat :=
  8 * p.left + 2 * p.awaiting.toNat + 3 * p.requests.sending.isSome.toNat +
    3 * (p.calls.length - p.served) + 2 * p.requests.sender.toNat

/-- A turn of a task between two states. -/
abbrev Turned [Target] (name : Waker.Task W → Role) (answer : Nat → R) (p : Session R W)
    (role : Role) (again : Bool) (q : Session R W) : Prop :=
  (tasks name answer).Advances (Waits name) potential Role.cost p role
    (turnOf name again p.wakes q.wakes) q

private theorem Keeps.buffered (h : Keeps name answer n p) {b : Spsc.Inner Nat W}
    (hb : p.requests.inner = some b) :
    List.range p.served ++ b.value.buf.items ++ p.requests.offer.toList =
      List.range p.calls.length := by
  rw [← h.numbered, ← h.sound.fifo.order b hb, h.taken]

private theorem Keeps.server_waits (h : Keeps name answer n p) (hw : Waits name p .receiver) :
    p.requests.sender = true ∧
      ∃ b, p.requests.inner = some b ∧ b.value.buf.items = [] := by
  obtain ⟨_, ⟨b, hb, hempty, hs, -⟩, -⟩ := Asleep.reason hw h.sound.recvAwake
  exact ⟨hs, b, hb, hempty⟩

/-- A sleeping client has a request in the channel. -/
theorem Keeps.client_waits (h : Keeps name answer n p) (hs : p.requests.sender = true)
    (hw : Waits name p .sender) :
    ∃ b, p.requests.inner = some b ∧ b.value.buf.items ≠ [] := by
  rcases hw with ⟨-, hasleep⟩ | ⟨hnone, hawait, c, hc, hasleep⟩
  · obtain ⟨w, ⟨b, hb, hcap, -, -⟩, -⟩ := Asleep.reason hasleep h.sound.sendAwake
    refine ⟨b, hb, fun hempty => ?_⟩
    simp only [Spsc.Shared.atCapacity, VecDeque.len, hempty, List.length_nil, Bool.and_eq_true,
      Bool.not_eq_true', beq_iff_eq] at hcap
    rcases (h.wired b hb).room with hu | hpos
    · rw [hu] at hcap
      cases hcap.1
    · omega
  · obtain ⟨c', hc', hcur⟩ := h.current hawait
    cases hc.symm.trans hc'
    obtain ⟨_, ⟨hsender, -⟩, -⟩ := Asleep.reason hasleep hcur.inv.awake
    have hserved : p.served = p.out.length := by
      rcases hcur.phase with ⟨-, he⟩ | ⟨hgone, -⟩
      · exact he
      · exact absurd (hgone.symm.trans hsender) Bool.false_ne_true
    obtain ⟨b, hb, -⟩ := Spsc.access_of_alive h.sound.inv (by rw [hs, Bool.true_or])
    have hoffer : p.requests.offer = none := by simpa [hnone] using h.offered
    refine ⟨b, hb, fun hempty => ?_⟩
    have hlen := congrArg List.length (h.buffered hb)
    have hmade := h.made
    simp [hempty, hoffer, hserved, hmade, hawait] at hlen

/-- The tasks do not sleep both: the server would find no request, the client wait for one. -/
theorem Keeps.awake [Target] (h : Keeps name answer n p)
    (hw : ∀ i, (tasks name answer).finished p i = false → Waits name p i) :
    ∀ i, (tasks name answer).finished p i = true := by
  have hsender : p.requests.sender = false := by
    by_contra hno
    have hlive : p.requests.sender = true := by simpa using hno
    obtain ⟨b, hb, hfull⟩ := h.client_waits hlive (hw .sender (by simp [tasks, hlive]))
    obtain ⟨-, b', hb', hempty⟩ :=
      h.server_waits (hw .receiver (by simp [tasks, h.outlives hlive]))
    cases hb.symm.trans hb'
    exact hfull hempty
  have hreceiver : p.requests.receiver = false := by
    by_contra hno
    have hlive : p.requests.receiver = true := by simpa using hno
    have hwait := h.server_waits (hw .receiver (by simp [tasks, hlive]))
    rw [hsender] at hwait
    cases hwait.1
  intro i
  cases i with
  | sender => simp [tasks, hsender]
  | receiver => simp [tasks, hreceiver]

variable [Target]

private theorem request_eq {op : Spsc.Op Nat W} {out : Spsc.Out Nat} {t : Spsc.Sys Nat W}
    {woken : List W} (hstep : p.requests.step op = .ok (out, t))
    (hw : t.wakes = p.requests.wakes ++ woken) :
    p.request op = .ok (out, { p with requests := t, wakes := p.wakes ++ woken }) := by
  simp only [request, hstep, ok_bind, hw, List.drop_left]

private theorem call_eq {i : Nat} {c c' : Oneshot.Sys R W} {op : Oneshot.Op R W}
    {out : Oneshot.Out R}
    {woken : List W} (hi : p.calls[i]? = some c) (hstep : c.step op = .ok (out, c'))
    (hw : c'.wakes = c.wakes ++ woken) :
    p.call i op = .ok (out, { p with calls := p.calls.set i c', wakes := p.wakes ++ woken }) := by
  simp only [call, hi, hstep, ok_bind, hw, List.drop_left]

/-- A turn of the client leaves the server alone or wakes it. -/
theorem Turned.of_client (h : Keeps name answer n p) {q : Session R W} {again : Bool}
    {new woken : List W} (hw : q.wakes = p.wakes ++ new)
    (hr : q.requests.wakes = p.requests.wakes ++ woken) (hsub : woken ⊆ new)
    (hpending : q.requests.recvPending = p.requests.recvPending)
    (hreceiver : q.requests.receiver = p.requests.receiver)
    (hsender : q.requests.sender = p.requests.sender ∨ q.requests.sender = false)
    (hrests : again = false → q.requests.sender = true → Waits name q .sender)
    (hpays : potential q + again.toNat + ((new.map (roleOf name)).map Role.cost).sum <
      potential p + 1) : Turned name answer p .sender again q := by
  refine ⟨?_, ?_, ?_, ?_⟩
  · intro j hj
    cases j with
    | sender =>
      rcases hsender with hs | hs
      · simpa [tasks, hs] using hj
      · simp [tasks, hs]
    | receiver => simpa [tasks, hreceiver] using hj
  · intro ha hf
    exact hrests ha (by simpa [tasks] using hf)
  · intro j hj hn hwait
    cases j with
    | sender => exact absurd rfl hj
    | receiver =>
      rw [hw, turnOf_append] at hn
      show Asleep name q.requests.wakes q.requests.recvPending .receiver
      rw [hr, hpending]
      refine Asleep.keep hwait h.sound.recvAwake fun hin => hn ?_
      exact List.map_subset (roleOf name) hsub hin
  · rw [hw, turnOf_append]
    have hbit : (if again = true then Role.cost .sender else 0) = again.toNat := by
      cases again <;> rfl
    rw [hbit]
    exact hpays

/-- A turn of the server leaves the client asleep or wakes it. -/
theorem Turned.of_server (h : Keeps name answer n p) {q : Session R W} {again : Bool}
    {new woken : List W} (hw : q.wakes = p.wakes ++ new)
    (hr : q.requests.wakes = p.requests.wakes ++ woken) (hsub : woken ⊆ new)
    (hpending : q.requests.sendPending = p.requests.sendPending)
    (hsending : q.requests.sending = p.requests.sending) (hawait : q.awaiting = p.awaiting)
    (hcall : ∀ c, p.calls[p.out.length]? = some c → p.awaiting = true →
      Asleep name c.wakes c.pending .sender → .sender ∉ new.map (roleOf name) →
      ∃ c', q.calls[q.out.length]? = some c' ∧ Asleep name c'.wakes c'.pending .sender)
    (hsender : q.requests.sender = p.requests.sender)
    (hreceiver : q.requests.receiver = p.requests.receiver ∨ q.requests.receiver = false)
    (hrests : again = false → q.requests.receiver = true → Waits name q .receiver)
    (hpays : potential q + 2 * again.toNat + ((new.map (roleOf name)).map Role.cost).sum <
      potential p + 2) : Turned name answer p .receiver again q := by
  refine ⟨?_, ?_, ?_, ?_⟩
  · intro j hj
    cases j with
    | sender => simpa [tasks, hsender] using hj
    | receiver =>
      rcases hreceiver with hs | hs
      · simpa [tasks, hs] using hj
      · simp [tasks, hs]
  · intro ha hf
    exact hrests ha (by simpa [tasks] using hf)
  · intro j hj hn hwait
    cases j with
    | sender =>
      rw [hw, turnOf_append] at hn
      rcases hwait with ⟨hs, hasleep⟩ | ⟨hs, ha, c, hc, hasleep⟩
      · refine Or.inl ⟨by rw [hsending]; exact hs, ?_⟩
        rw [hr, hpending]
        refine hasleep.keep h.sound.sendAwake fun hin => hn ?_
        exact List.map_subset (roleOf name) hsub hin
      · exact Or.inr ⟨hsending.trans hs, hawait.trans ha, hcall c hc ha hasleep hn⟩
    | receiver => exact absurd rfl hj
  · rw [hw, turnOf_append]
    have hbit : (if again = true then Role.cost .receiver else 0) = 2 * again.toNat := by
      cases again <;> rfl
    rw [hbit]
    exact hpays

private theorem Turned.of_eq {u q : Session R W} {role : Role} {again : Bool}
    (h : Turned name answer u role again q)
    (hf : (tasks name answer).finished u = (tasks name answer).finished p)
    (hw : u.wakes = p.wakes) (hwaits : ∀ j, j ≠ role → Waits name p j → Waits name u j)
    (hp : potential u = potential p) : Turned name answer p role again q := by
  refine ⟨by rw [← hf]; exact h.stays, h.rests, ?_, by rw [← hw, ← hp]; exact h.pays⟩
  intro j hj hn hwait
  rw [← hw] at hn
  exact h.sleeps j hj hn (hwaits j hj hwait)

/-- A poll of `send` passes the request on, or finds the channel full and waits. -/
theorem Keeps.awaitSend (h : Keeps name answer n p) (hs : p.requests.sending.isSome = true)
    {w : W} (hw : roleOf name w = .sender) :
    ∃ again q, p.awaitSend w = .ok (again, q) ∧ Keeps name answer n q ∧
      Turned name answer p .sender again q := by
  obtain ⟨out, t, hstep, hne, m, ht⟩ := h.sound.step (.pollSend w) hs
  obtain ⟨send, hsend⟩ := Option.isSome_iff_exists.mp hs
  have hawait := h.sends hs
  have hlive := (h.sound.inv.sendAlive send hsend).1
  have hrecv := h.outlives hlive
  cases m with
  | ignored => exact absurd rfl hne
  | @sendFail b v _ hb hv hr => exact absurd (hr.symm.trans hrecv) Bool.false_ne_true
  | @sent b v _ hb hv hr hc =>
    have hwired := h.wired b hb
    obtain ⟨-, v', hv', hoffer⟩ := h.sound.inv.sendAlive _ hv
    cases hv'
    refine ⟨true, _, by rw [Session.awaitSend, request_eq hstep rfl]; rfl, ?_, ?_⟩
    · refine ⟨ht, ?_, (fun hs' => by cases hs'), rfl, ?_, h.taken, h.made, h.total, h.replies,
        h.idle, h.current, h.outlives, h.returned⟩
      · rintro _ ⟨⟩
        exact ⟨Or.inr (by simp [Spsc.Shared.pushBack, VecDeque.pushBack]), hwired.tx⟩
      · have hnumbered := h.numbered
        rw [hoffer] at hnumbered
        simpa [Spsc.Sys.endSend, Spsc.Sys.settle, Spsc.Sys.put, Spsc.accepted_settle] using
          hnumbered
    · refine .of_client h rfl rfl (List.Subset.refl _) rfl rfl (Or.inl rfl)
        (fun ha => by cases ha) ?_
      have hcost := Spsc.slot_cost name b.value.rx
      simp only [potential, Spsc.Sys.endSend, Spsc.Sys.settle, Spsc.Sys.put, hv, Bool.toNat_true,
        Option.isSome_some, Option.isSome_none, Bool.toNat_false] at hcost ⊢
      omega
  | @sendPark b v _ hb hv hr hc =>
    have hwired := h.wired b hb
    refine ⟨false, _, by
      rw [Session.awaitSend, request_eq hstep (List.append_nil _).symm]; rfl, ?_, ?_⟩
    · refine ⟨ht, ?_, h.sends, h.offered, h.numbered, h.taken, h.made, h.total, h.replies,
        h.idle, h.current, h.outlives, h.returned⟩
      rintro _ ⟨⟩
      exact ⟨hwired.room, roleOf_register hw⟩
    · refine .of_client h rfl (List.append_nil _).symm (List.Subset.refl _) rfl rfl (Or.inl rfl)
        (fun _ _ => Or.inl ⟨hs, .park hw⟩) ?_
      simp [potential]

section Current

variable {k served : Nat} {c : Oneshot.Sys R W}

omit [Target] in
private theorem Current.waker_cost (h : Current name answer k served c) {b : Oneshot.Inner R W}
    (hb : c.inner = some b) :
    ((b.value.waker.toList.map (roleOf name)).map Role.cost).sum ≤ 1 := by
  cases hw : b.value.waker with
  | none => simp
  | some w => simp [h.waker b hb w hw, Role.cost]

omit [Target] in
private theorem Current.alive (h : Current name answer k served c) : ∃ b, c.inner = some b := by
  obtain ⟨b, hb, -⟩ := Oneshot.access_of_alive h.inv (by rw [h.receiver, Bool.or_true])
  exact ⟨b, hb⟩

private theorem Current.park (h : Current name answer k served c) (hs : c.sender = true) {w : W}
    (hw : roleOf name w = .sender) :
    ∃ c', c.step (.poll w) = .ok (.polled .pending, c') ∧ c'.wakes = c.wakes ∧
      c'.pending = some (w, c.wakes.length) ∧ Current name answer k served c' := by
  obtain ⟨b, hb⟩ := h.alive
  have hstep := h.inv.poll_step h.receiver hb w
  have hwaiting : c.waiting = none := by simp [Oneshot.Sys.waiting, h.inv.unused hs]
  rw [hwaiting] at hstep
  dsimp only at hstep
  rw [if_pos hs] at hstep
  obtain ⟨out, c', hstep', hinv⟩ := h.inv.poll h.receiver w
  cases hstep.symm.trans hstep'
  refine ⟨_, hstep, rfl, rfl, hinv, h.receiver, ?_, ?_⟩
  · rintro _ ⟨⟩
    exact roleOf_register hw
  · rcases h.phase with ⟨-, hserved⟩ | ⟨hgone, -⟩
    · exact Or.inl ⟨hs, hserved⟩
    · exact absurd (hgone.symm.trans hs) Bool.false_ne_true

private theorem Current.fetch (h : Current name answer k served c) (hs : c.sender = false) (w : W) :
    ∃ c' c'' woken, c.step (.poll w) = .ok (.polled (.ready (some (answer k))), c') ∧
      c'.wakes = c.wakes ∧ c'.step .dropReceiver = .ok (.done, c'') ∧
      c''.wakes = c'.wakes ++ woken ∧ ((woken.map (roleOf name)).map Role.cost).sum ≤ 1 := by
  obtain ⟨b, hb⟩ := h.alive
  have hstep := h.inv.poll_step h.receiver hb w
  obtain ⟨-, hwaiting, -⟩ := h.phase.resolve_left fun hno =>
    Bool.false_ne_true (hs.symm.trans hno.1)
  rw [hwaiting] at hstep
  obtain ⟨out, c', hstep', hinv⟩ := h.inv.poll h.receiver w
  cases hstep.symm.trans hstep'
  exact ⟨_, _, b.value.waker.toList, hstep, rfl, hinv.dropReceiver_step h.receiver rfl, rfl,
    h.waker_cost hb⟩

private theorem Current.serve (h : Current name answer k served c) (hs : c.sender = true) :
    ∃ c' woken, c.step (.send (answer served)) = .ok (.sent (.ok ()), c') ∧
      c'.wakes = c.wakes ++ woken ∧ c'.pending = c.pending ∧
      ((woken.map (roleOf name)).map Role.cost).sum ≤ 1 ∧
      Current name answer k (served + 1) c' := by
  obtain ⟨b, hb⟩ := h.alive
  obtain ⟨-, hserved⟩ := h.phase.resolve_right fun hno =>
    Bool.false_ne_true (hno.1.symm.trans hs)
  have hstep := h.inv.send_step hs hb (answer served)
  rw [if_pos h.receiver] at hstep
  obtain ⟨out, c', hstep', hinv⟩ := h.inv.send hs (answer served)
  cases hstep.symm.trans hstep'
  refine ⟨_, _, hstep, rfl, rfl, h.waker_cost hb, hinv, h.receiver, ?_, Or.inr ⟨rfl, ?_, ?_⟩⟩
  · rintro _ ⟨⟩ w hw
    cases hw
  · rw [hserved]
    rfl
  · rw [hserved]

end Current

/-- A poll of the receiver of the current call gets the reply, or finds none and waits. -/
theorem Keeps.awaitReply (h : Keeps name answer n p) (hnone : p.requests.sending = none)
    (hawait : p.awaiting = true) {w : W} (hw : roleOf name w = .sender) :
    ∃ again q, p.awaitReply (p.calls.length - 1) w = .ok (again, q) ∧ Keeps name answer n q ∧
      Turned name answer p .sender again q := by
  obtain ⟨c, hc, hcur⟩ := h.current hawait
  have hmade := h.made
  rw [hawait, Bool.toNat_true] at hmade
  have hidx : p.calls.length - 1 = p.out.length := by omega
  have hlt : p.out.length < p.calls.length := by omega
  have hlive : p.requests.sender = true := by
    by_contra hno
    exact Bool.false_ne_true ((h.returned (by simpa using hno)).2.symm.trans hawait)
  rw [hidx]
  unfold Session.awaitReply
  cases hs : c.sender with
  | true =>
    obtain ⟨c', hstep, hwakes, hpending, hcur'⟩ := hcur.park hs hw
    rw [call_eq hc hstep (hwakes.trans (List.append_nil _).symm)]
    refine ⟨false, _, rfl, ?_, ?_⟩
    · refine ⟨h.sound, h.wired, h.sends, h.offered, ?_, h.taken, ?_, ?_, h.replies, h.idle,
        fun _ => ⟨c', List.getElem?_set_self hlt, hcur'⟩, h.outlives, h.returned⟩
      · rw [List.length_set]
        exact h.numbered
      · rw [List.length_set]
        exact h.made
      · rw [List.length_set]
        exact h.total
    · refine .of_client h rfl (List.append_nil _).symm (List.Subset.refl _) rfl rfl (Or.inl rfl)
        (fun _ _ => Or.inr ⟨hnone, hawait, c', List.getElem?_set_self hlt, ?_⟩) ?_
      · rw [hpending, hwakes]
        exact .park hw
      · simp [potential]
  | false =>
    obtain ⟨c', c'', woken, hstep, hwakes, hdrop, hwakes', hcost⟩ := hcur.fetch hs w
    obtain ⟨-, -, hserved⟩ := hcur.phase.resolve_left fun hno =>
      Bool.false_ne_true (hs.symm.trans hno.1)
    rw [call_eq hc hstep (hwakes.trans (List.append_nil _).symm)]
    simp only [ok_bind]
    rw [call_eq (List.getElem?_set_self hlt) hdrop hwakes']
    refine ⟨true, _, rfl, ?_, ?_⟩
    · refine ⟨h.sound, h.wired, ?_, h.offered, ?_, h.taken, ?_, ?_, ?_, ?_,
        (fun ha => by cases ha), h.outlives, ?_⟩
      · intro hsome
        rw [hnone] at hsome
        cases hsome
      · rw [List.length_set, List.length_set]
        exact h.numbered
      · rw [List.length_set, List.length_set, hmade, List.length_append]
        rfl
      · rw [List.length_set, List.length_set]
        exact h.total
      · show p.out ++ [answer p.out.length] =
          (List.range (p.out ++ [answer p.out.length]).length).map answer
        rw [List.length_append, List.length_singleton, List.range_succ, List.map_append,
          ← h.replies]
        rfl
      · intro _
        rw [hserved, List.length_append]
        rfl
      · intro hgone
        exact absurd (hgone.symm.trans hlive) Bool.false_ne_true
    · refine .of_client h (List.append_assoc p.wakes [] woken) (List.append_nil _).symm
        (List.nil_subset _) rfl rfl (Or.inl rfl) (fun ha => by cases ha) ?_
      simp only [potential, List.length_set, hawait, Bool.toNat_true, Bool.toNat_false,
        List.nil_append]
      omega

/-- A turn of the client sends a request, waits for a reply, makes another call, or drops its
end. -/
theorem Keeps.clientTurn (h : Keeps name answer n p) (hlive : p.requests.sender = true) {w : W}
    (hw : roleOf name w = .sender) :
    ∃ again q, p.clientTurn w = .ok (again, q) ∧ Keeps name answer n q ∧
      Turned name answer p .sender again q := by
  unfold Session.clientTurn
  by_cases hs : p.requests.sending.isSome = true
  · rw [if_pos hs]
    exact h.awaitSend hs hw
  have hnone : p.requests.sending = none := by simpa using hs
  by_cases ha : p.awaiting = true
  · rw [if_neg hs, if_pos ha]
    exact h.awaitReply hnone ha hw
  have hidle : p.awaiting = false := by simpa using ha
  have hfree : p.requests.senderFree = true := Spsc.senderFree_iff.mpr ⟨hlive, hnone⟩
  have hoffer : p.requests.offer = none := by simpa [hnone] using h.offered
  have hmade := h.made
  rw [hidle, Bool.toNat_false, Nat.add_zero] at hmade
  rw [if_neg hs, if_neg ha]
  cases hl : p.left with
  | succ left =>
    have hstep : p.requests.step (.send p.calls.length) = .ok (.done, { p.requests with
        sending := some ⟨some p.calls.length⟩, offer := some p.calls.length }) := by
      rw [Spsc.Sys.step, if_pos hfree]
    obtain ⟨out, t, hstep', -, -, ht⟩ := h.sound.step (.send p.calls.length) hfree
    cases hstep.symm.trans hstep'
    obtain ⟨u, hu⟩ : ∃ u : Session R W, u = { p with
        requests := { p.requests with
          sending := some ⟨some p.calls.length⟩, offer := some p.calls.length }
        calls := p.calls ++ [Oneshot.Sys.new], awaiting := true, left := left
        wakes := p.wakes ++ [] } := ⟨_, rfl⟩
    have hreq : Session.request { p with
        calls := p.calls ++ [Oneshot.Sys.new], awaiting := true, left := left }
        (.send p.calls.length) = .ok (.done, u) := by
      rw [hu]
      exact request_eq hstep (List.append_nil _).symm
    have hstart : Keeps name answer n u := by
      subst hu
      refine ⟨ht, h.wired, fun _ => rfl, rfl, ?_, h.taken, ?_, ?_, h.replies,
        (fun ha => by cases ha), fun _ => ?_, h.outlives, ?_⟩
      · have hnumbered := h.numbered
        rw [hoffer, Option.toList_none, List.append_nil] at hnumbered
        simp [hnumbered, List.range_succ]
      · simp [hmade]
      · have htotal := h.total
        show (p.calls ++ [Oneshot.Sys.new]).length + left = n
        rw [List.length_append, List.length_singleton]
        omega
      · refine ⟨Oneshot.Sys.new, by simp [hmade], .new, rfl, ?_, Or.inl ⟨rfl, h.idle hidle⟩⟩
        rintro _ ⟨⟩ w hw
        cases hw
      · intro hgone
        exact absurd (hgone.symm.trans hlive) Bool.false_ne_true
    obtain ⟨again, q, hq, hk, hturn⟩ := hstart.awaitSend (by rw [hu]; rfl) hw
    refine ⟨again, q, ?_, hk, hturn.of_eq ?_ ?_ (fun j hj hwait => ?_) ?_⟩
    · simp only [hreq, ok_bind]
      exact hq
    · rw [hu]
      rfl
    · rw [hu]
      exact List.append_nil _
    · cases j with
      | sender => exact absurd rfl hj
      | receiver =>
        rw [hu]
        exact hwait
    · have hserved := h.idle hidle
      rw [hu]
      simp only [potential, hnone, hidle, hl, hmade, hserved, List.length_append,
        List.length_singleton, Option.isSome_none, Option.isSome_some, Bool.toNat_true,
        Bool.toNat_false]
      omega
  | zero =>
    obtain ⟨out, t, hstep, hne, m, ht⟩ := h.sound.step .dropSender hfree
    cases m with
    | ignored => exact absurd rfl hne
    | @dropSender b hb _ =>
      have hwired := h.wired b hb
      have hrecv := h.outlives hlive
      refine ⟨false, _, by rw [request_eq hstep rfl]; rfl, ?_, ?_⟩
      · refine ⟨ht, ?_, h.sends, h.offered, h.numbered, h.taken, h.made, h.total, h.replies,
          h.idle, h.current, fun _ => hrecv, fun _ => ⟨hl, hidle⟩⟩
        intro c hc
        simp only [Spsc.Sys.put, hrecv, if_true, Option.some.injEq] at hc
        subst hc
        exact ⟨hwired.room, hwired.tx⟩
      · refine .of_client h rfl rfl (List.Subset.refl _) rfl rfl (Or.inr rfl)
          (fun _ hs' => by cases hs') ?_
        have hcost := Spsc.slot_cost name b.value.rx
        simp only [potential, Spsc.Sys.put, hlive, Bool.toNat_true, Bool.toNat_false] at hcost ⊢
        omega

omit [Target] in
/-- The request at the front is that of the current call. -/
theorem Keeps.front (h : Keeps name answer n p) {b : Spsc.Inner Nat W} {i : Nat}
    {items : List Nat} (hb : p.requests.inner = some b) (hi : b.value.buf.items = i :: items) :
    p.awaiting = true ∧ i = p.out.length ∧ p.served = p.out.length := by
  have hbuf := h.buffered hb
  have hmade := h.made
  rw [hi, List.append_assoc] at hbuf
  have hlen := congrArg List.length hbuf
  simp only [List.length_append, List.length_range, List.length_cons, hmade] at hlen
  have hget := congrArg (fun l => l[p.served]?) hbuf
  simp only [List.cons_append] at hget
  rw [List.getElem?_append_right (by simp), List.length_range, Nat.sub_self,
    List.getElem?_cons_zero] at hget
  cases ha : p.awaiting with
  | false =>
    have hidle := h.idle ha
    rw [ha, Bool.toNat_false] at hlen
    omega
  | true =>
    obtain ⟨c, -, hcur⟩ := h.current ha
    rw [ha, Bool.toNat_true] at hlen
    have hserved : p.served = p.out.length := by
      rcases hcur.phase with ⟨-, he⟩ | ⟨-, -, he⟩ <;> omega
    have hin : p.served < p.out.length + p.awaiting.toNat := by
      rw [ha, Bool.toNat_true]
      omega
    rw [← hmade] at hin
    rw [List.getElem?_range hin, Option.some.injEq] at hget
    exact ⟨rfl, by omega, hserved⟩

/-- A poll of `recv` serves a request, returns at the end of the channel, or finds no request
and waits. -/
theorem Keeps.awaitRequest (h : Keeps name answer n p) (hr : p.requests.receiving = true) {w : W}
    (hw : roleOf name w = .receiver) :
    ∃ again q, p.awaitRequest answer w = .ok (again, q) ∧ Keeps name answer n q ∧
      Turned name answer p .receiver again q := by
  obtain ⟨out, t, hstep, hne, m, ht⟩ := h.sound.step (.pollRecv w) hr
  have hlive := h.sound.inv.recvAlive hr
  cases m with
  | ignored => exact absurd rfl hne
  | @received b i buf _ hb _ hv =>
    have hwired := h.wired b hb
    obtain ⟨hitems, hcap⟩ := VecDeque.popFront_eq_some hv
    obtain ⟨hawait, hi, hserved⟩ := h.front hb hitems
    subst hi
    obtain ⟨c, hc, hcur⟩ := h.current hawait
    have hlt : p.out.length < p.calls.length := by
      have hmade := h.made
      rw [hawait, Bool.toNat_true] at hmade
      omega
    have hs : c.sender = true := by
      rcases hcur.phase with ⟨hs, -⟩ | ⟨-, -, hno⟩
      · exact hs
      · omega
    obtain ⟨c', woken, hsend, hwakes, hpending, hcost, hcur'⟩ := hcur.serve hs
    have hcall : ∀ requests wakes, Session.call { p with requests := requests, wakes := wakes }
        p.out.length (.send (answer p.served)) = .ok (.sent (.ok ()), { p with
          requests := requests, calls := p.calls.set p.out.length c', wakes := wakes ++ woken }) :=
      fun _ _ => call_eq hc hsend hwakes
    refine ⟨true, _, by
      rw [Session.awaitRequest, request_eq hstep rfl]
      simp only [ok_bind]
      rw [hcall]
      rfl, ?_, ?_⟩
    · refine ⟨ht, ?_, h.sends, h.offered, ?_, ?_, ?_, ?_, h.replies, ?_,
        fun _ => ⟨c', List.getElem?_set_self hlt, hcur'⟩, h.outlives, h.returned⟩
      · rintro _ ⟨⟩
        exact ⟨by rw [hcap]; exact hwired.room, hwired.tx⟩
      · rw [List.length_set]
        exact h.numbered
      · show p.requests.received ++ [p.out.length] = List.range (p.served + 1)
        rw [h.taken, List.range_succ, hserved]
      · rw [List.length_set]
        exact h.made
      · rw [List.length_set]
        exact h.total
      · intro hno
        exact absurd (hno.symm.trans hawait) Bool.false_ne_true
    · refine .of_server h (List.append_assoc p.wakes _ _) rfl (List.subset_append_left _ _) rfl rfl
        rfl ?_ rfl (Or.inl rfl) (fun ha => by cases ha) ?_
      · intro d hd _ hasleep hn
        cases hc.symm.trans hd
        refine ⟨c', List.getElem?_set_self hlt, ?_⟩
        rw [hwakes, hpending]
        refine hasleep.keep hcur.inv.awake fun hin => hn ?_
        exact List.map_subset (roleOf name) (List.subset_append_right _ _) hin
      · have htx := hwired.tx_cost
        simp only [potential, Spsc.Sys.endRecv, Spsc.Sys.put, List.length_set, List.map_append,
          List.sum_append, Bool.toNat_true] at htx ⊢
        omega
  | @recvPark b _ hb _ hv hs =>
    have hwired := h.wired b hb
    refine ⟨false, _, by rw [Session.awaitRequest, request_eq hstep rfl]; rfl, ?_, ?_⟩
    · refine ⟨ht, ?_, h.sends, h.offered, h.numbered, h.taken, h.made, h.total, h.replies,
        h.idle, h.current, h.outlives, h.returned⟩
      rintro _ ⟨⟩
      exact ⟨hwired.room, hwired.tx⟩
    · refine .of_server h rfl rfl (List.Subset.refl _) rfl rfl rfl
        (fun c hc _ hasleep _ => ⟨c, hc, hasleep⟩) rfl (Or.inl rfl) ?_ ?_
      · intro _ _
        show Asleep name (p.requests.wakes ++ b.value.tx.toList) (some (w, _)) .receiver
        rw [← List.length_append]
        exact .park hw
      · have hcost := hwired.tx_cost
        simp only [potential, Spsc.Sys.put] at hcost ⊢
        simp only [Bool.toNat_false]
        omega
  | @recvEnd b _ hb _ hv hs =>
    have hwired := h.wired b hb
    obtain ⟨out', t', hstep', hne', m', ht'⟩ := ht.step .dropReceiver
      (show _ = true by simp [Spsc.Sys.allows, Spsc.Sys.receiverFree, Spsc.Sys.endRecv, hlive])
    cases m' with
    | ignored => exact absurd rfl hne'
    | @dropReceiver b' hb' hf =>
      cases hb'
      refine ⟨false, _, by
        rw [Session.awaitRequest, request_eq hstep (List.append_nil _).symm]
        simp only [ok_bind]
        rw [request_eq hstep' rfl]
        rfl, ?_, ?_⟩
      · refine ⟨ht', ?_, h.sends, h.offered, h.numbered, h.taken, h.made, h.total, h.replies,
          h.idle, h.current, ?_, h.returned⟩
        · intro c hc
          simp [Spsc.Sys.put, Spsc.Sys.endRecv, hs] at hc
        · intro hs'
          exact absurd (hs.symm.trans hs') Bool.false_ne_true
      · refine .of_server h (List.append_assoc p.wakes [] _) rfl (List.Subset.refl _) rfl rfl rfl
          (fun c hc _ hasleep _ => ⟨c, hc, hasleep⟩) rfl (Or.inr rfl)
          (fun _ hr' => by cases hr') ?_
        have hcost := hwired.tx_cost
        simp only [potential, Spsc.Sys.endRecv, Spsc.Sys.put, List.nil_append] at hcost ⊢
        simp only [Bool.toNat_false]
        omega

/-- A turn of the server polls its `recv` or starts another one. -/
theorem Keeps.serverTurn (h : Keeps name answer n p) (hlive : p.requests.receiver = true) {w : W}
    (hw : roleOf name w = .receiver) :
    ∃ again q, p.serverTurn answer w = .ok (again, q) ∧ Keeps name answer n q ∧
      Turned name answer p .receiver again q := by
  unfold Session.serverTurn
  by_cases hr : p.requests.receiving = true
  · rw [if_pos hr]
    exact h.awaitRequest hr hw
  · rw [if_neg hr]
    have hfree : p.requests.receiverFree = true :=
      Spsc.receiverFree_iff.mpr ⟨hlive, by simpa using hr⟩
    have hstep : p.requests.step .recv = .ok (.done, { p.requests with receiving := true }) := by
      rw [Spsc.Sys.step, if_pos hfree]
    obtain ⟨out, t, hstep', -, -, ht⟩ := h.sound.step .recv hfree
    cases hstep.symm.trans hstep'
    have hstart : Keeps name answer n { p with
        requests := { p.requests with receiving := true }, wakes := p.wakes ++ [] } :=
      ⟨ht, h.wired, h.sends, h.offered, h.numbered, h.taken, h.made, h.total, h.replies, h.idle,
        h.current, h.outlives, h.returned⟩
    obtain ⟨again, q, hq, hk, hturn⟩ := hstart.awaitRequest rfl hw
    refine ⟨again, q, ?_, hk, hturn.of_eq rfl (List.append_nil _) (fun j _ hwait => ?_) rfl⟩
    · simp only [request_eq hstep (List.append_nil _).symm, ok_bind]
      exact hq
    · cases j with
      | sender => exact hwait
      | receiver => exact hwait

/-- The client and the server cooperate. -/
theorem cooperates (name : Waker.Task W → Role) (answer : Nat → R) (n : Nat) :
    (tasks name answer : Tasks Fault (Session R W) W Role).Cooperates (Keeps name answer n)
      (Waits name) potential Role.cost := by
  refine ⟨?_, fun p h hw => h.awake hw⟩
  intro p w h hf
  have hrole : (tasks name answer : Tasks Fault (Session R W) W Role).task w = roleOf name w := rfl
  cases hw : roleOf name w with
  | sender =>
    rw [hrole, hw] at hf ⊢
    obtain ⟨again, q, hq, hk, hturn⟩ := h.clientTurn (by simpa [tasks] using hf) hw
    exact ⟨_, q, by simp only [tasks, hw, hq, ok_bind], hk, hturn⟩
  | receiver =>
    rw [hrole, hw] at hf ⊢
    obtain ⟨again, q, hq, hk, hturn⟩ := h.serverTurn (by simpa [tasks] using hf) hw
    exact ⟨_, q, by simp only [tasks, hw, hq, ok_bind], hk, hturn⟩

/-- Nothing was asked when the tasks are spawned. -/
theorem Keeps.new [Layout Nat] (name : Waker.Task W → Role) (answer : Nat → R) {setup : Spsc.Setup}
    (hs : (setup.create : Option (Spsc.Inner Nat W)).isSome = true) (n : Nat) :
    Keeps name answer n (.new setup.create n) := by
  have hgone : ¬(Session.new setup.create n : Session R W).requests.sender = false := by
    simp [Session.new, Spsc.Sys.new, hs]
  have hspsc := Spsc.Session.Keeps.new name hs [] false none
  refine ⟨hspsc.sound, hspsc.wired, (fun hno => by cases hno), rfl, rfl, rfl, rfl, ?_, rfl,
    fun _ => rfl, (fun hno => by cases hno), fun _ => hs, fun hno => absurd hno hgone⟩
  exact Nat.zero_add n

omit [Target] in
/-- What was replied are answers in order, and all of them once the client has returned. -/
theorem Keeps.out_prefix (h : Keeps name answer n p) :
    p.out <+: (List.range n).map answer ∧
      (p.requests.sender = false → p.out = (List.range n).map answer) := by
  have hmade := h.made
  have htotal := h.total
  constructor
  · have hprefix : List.range p.out.length <+: List.range n := by
      have htake := List.take_prefix p.out.length (List.range n)
      rwa [List.take_range, Nat.min_eq_left (by omega)] at htake
    have hmap := hprefix.map answer
    rwa [← h.replies] at hmap
  · intro hgone
    obtain ⟨hleft, hidle⟩ := h.returned hgone
    have hlen : p.out.length = n := by
      rw [hidle, Bool.toNat_false] at hmade
      omega
    rw [h.replies, hlen]

/-- However the executor schedules the client and the server, and whichever wakers it polls
them with: no turn panics, the replies are the answers in order, there are at most eight turns
for each call and five more, and as long as the two have not both returned, one of them is
scheduled. When they have, every call was answered. -/
theorem all_requests_are_answered [Layout Nat] (name : Waker.Task W → Role) (answer : Nat → R)
    {setup : Spsc.Setup} (hs : (setup.create : Option (Spsc.Inner Nat W)).isSome = true) (n : Nat)
    (schedule : List W)
    (hk : (tasks name answer).Schedule (.start (.new setup.create n : Session R W)) schedule) :
    ∃ outs m, run (tasks name answer).poll (.start (.new setup.create n)) schedule =
        .ok (outs, m) ∧
      m.shared.out <+: (List.range n).map answer ∧ schedule.length ≤ 8 * n + 5 ∧
      ((∃ role, (tasks name answer).Ready m role) ∨
        (∀ role, (tasks name answer).finished m.shared role = true) ∧
          m.shared.out = (List.range n).map answer) := by
  obtain ⟨outs, m, hrun, h, hlen, hend⟩ := (cooperates name answer n).run
    (Tasks.Sound.start (Keeps.new name answer hs n)) hk
  have hrank : (tasks name answer).rank potential Role.cost
      (.start (.new setup.create n : Session R W)) ≤ 8 * n + 5 := by
    refine Tasks.rank_start_le _ |>.trans ?_
    have hcost : ∑ role : Role, role.cost = 3 := rfl
    have hpot : potential (.new setup.create n : Session R W) = 8 * n + 2 := by
      simp [potential, Session.new, Spsc.Sys.new, hs]
    omega
  obtain ⟨hpre, hall⟩ := h.out_prefix
  refine ⟨outs, m, hrun, hpre, by omega, hend.imp_right fun hf => ⟨hf, hall ?_⟩⟩
  simpa [tasks] using hf .sender

omit [Target] [Waker W] in
/-- The server waits first, then the client waits for its reply. -/
theorem all_requests_are_answered_two_calls :
    ∃ outs m, run (@tasks Nat (TaskWaker Role) ⟨64, by decide⟩ _ id id).poll
        (.start (.new (@Spsc.Setup.create Nat (TaskWaker Role) ⟨64, by decide⟩ ⟨false⟩
          (.bounded 2)) 2))
        [⟨.receiver, 0⟩, ⟨.sender, 1⟩, ⟨.sender, 1⟩, ⟨.receiver, 2⟩, ⟨.sender, 3⟩] =
          .ok (outs, m) ∧
      m.shared.out <+: (List.range 2).map id ∧ 5 ≤ 8 * 2 + 5 ∧
      ((∃ role, (@tasks Nat (TaskWaker Role) ⟨64, by decide⟩ _ id id).Ready m role) ∨
        (∀ role, (@tasks Nat (TaskWaker Role) ⟨64, by decide⟩ _ id id).finished m.shared role =
          true) ∧ m.shared.out = (List.range 2).map id) :=
  @all_requests_are_answered Nat (TaskWaker Role) _ ⟨64, by decide⟩ ⟨false⟩ id id (.bounded 2)
    rfl 2 [⟨.receiver, 0⟩, ⟨.sender, 1⟩, ⟨.sender, 1⟩, ⟨.receiver, 2⟩, ⟨.sender, 3⟩] (by decide)

end Session

end Requests
end Unsync
