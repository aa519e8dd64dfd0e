import Unsync.Broadcast.Ids
import Unsync.Broadcast.Delivery
import Unsync.Lib.Stamps

/-!
# How old the ids of receivers are

A receiver is stamped with the message id when it subscribes and when a poll of `Send`
delivers to it. A watched run counts how often the id was bumped since. As long as the ids
did not go around meanwhile, the comparison in `Send::poll` tells which receivers have the
message.
-/

namespace Unsync
namespace Broadcast

open Runs Stamps

variable {T W : Type}

/-- A channel that is watched: how often the message id was bumped since the id under a key
was last written. -/
structure Aged (T W : Type) where
  sys : Sys T W
  ages : Nat → Nat

/-- How often a poll of the future of `send` bumps the message id: only the first one does. -/
def Sys.firstBump (s : Sys T W) : Nat :=
  match s.sending with
  | some (.unresumed _) => 1
  | _ => 0

/-- How often an operation bumps the message id. -/
def Sys.bumps (s : Sys T W) (op : Op T W) (out : Out T) : Nat :=
  match op, out with
  | _, .ignored => 0
  | .trySend _, _ => 1
  | .pollSend _, _ => s.firstBump
  | _, _ => 0

section Watching

variable [Waker W]

/-- The keys under which a poll of the future of `send` writes the message id. -/
def Sys.delivered (s : Sys T W) (waker : W) : List Nat :=
  match s.sending, s.inner with
  | some (.unresumed value), some inner =>
    (sendPoll value { inner with value := bumpMessageId inner.value } waker).2.2.pushed
  | some (.suspended value), some inner => (sendPoll value inner waker).2.2.pushed
  | _, _ => []

/-- The keys under which an operation writes the message id: `subscribe` makes an entry with
it, and a poll of `Send` writes it where it delivers. -/
def Sys.writes (s : Sys T W) (op : Op T W) (out : Out T) : List Nat :=
  match op, out with
  | _, .ignored => []
  | .subscribe key, _ => [key]
  | .pollSend waker, _ => s.delivered waker
  | _, _ => []

namespace Aged

omit [Waker W] in
/-- A new channel. -/
def new (inner : Option (Inner T W)) : Aged T W := ⟨Sys.new inner, fun _ => 0⟩

/-- The channel after an operation. -/
def put (s : Aged T W) (op : Op T W) (out : Out T) (sys : Sys T W) : Aged T W :=
  ⟨sys, advance s.ages (s.sys.bumps op out) (s.sys.writes op out)⟩

/-- One operation. -/
def step [Target] [Layout T] (s : Aged T W) (op : Op T W) : Except Fault (Out T × Aged T W) := do
  let (out, sys) ← s.sys.step op
  .ok (out, s.put op out sys)

end Aged

end Watching

/-- The id of every receiver is the message id before the bumps that were counted. Unless the
ids went around, it is the current one if and only if the receiver was given the message
sent last. -/
def Sys.IdsTell (s : Sys T W) (ages : Nat → Nat) : Prop :=
  ∀ b, s.inner = some b → ∀ r ∈ s.receivers, ∃ st, b.value.receivers.get? r.index = some st ∧
    b.value.id = nextId^[ages r.index] st.id ∧
    (ages r.index < messageIds →
      (st.id = b.value.id ↔ s.sent.length - 1 ∈ r.log.positions))

/-- A receiver whose id was written a number of bumps ago. While a message is under way, that
number tells whether the receiver has it. -/
structure Dated (sent : List T) (underWay : Prop) (log : Log T) (now id : UInt64) (age : Nat) :
    Prop where
  stamped : Stamped nextId now id age
  past : ∀ n ∈ log.positions, n < sent.length
  holds : underWay → (age = 0 ↔ sent.length - 1 ∈ log.positions)

/-- All receivers are dated, and the message under way was sent last. -/
structure Dates (underWay : Prop) (s : Sys T W) (ages : Nat → Nat) : Prop where
  current : ∀ v, s.sending = some (.suspended v) → s.sent.getLast? = some v
  dated : ∀ b, s.inner = some b → ∀ r ∈ s.receivers, ∀ st,
    b.value.receivers.get? r.index = some st →
      Dated s.sent underWay r.log b.value.id st.id (ages r.index)

namespace Dated

variable {sent : List T} {c c' : Prop} {log log' : Log T} {now id : UInt64} {age : Nat}

private theorem weaken (h : Dated sent c log now id age) (hc : c' → c) :
    Dated sent c' log now id age :=
  ⟨h.stamped, h.past, fun h' => h.holds (hc h')⟩

private theorem fresh (hc : ¬c) (since : Nat) : Dated sent c ⟨since, [], [], false⟩ now now 0 :=
  ⟨.new, fun n hn => (by cases hn), fun h => absurd h hc⟩

private theorem begin (h : Dated sent c log now id age) (v : T) :
    Dated (sent ++ [v]) True log (nextId now) id (age + 1) := by
  have hlen : (sent ++ [v]).length = sent.length + 1 := List.length_append
  refine ⟨h.stamped.tick, ?_, fun _ => ?_⟩
  · intro n hn
    rw [hlen]
    exact Nat.lt_succ_of_lt (h.past n hn)
  · constructor
    · intro hzero
      cases hzero
    · intro hin
      have hlt := h.past _ hin
      omega

private theorem past_push (h : Dated sent c log now id age) (hsent : sent ≠ []) (v : T)
    (times : Nat) :
    ∀ n ∈ (log.push (sent.length - 1) v times).positions, n < sent.length := by
  intro n hn
  have hpos := List.length_pos_iff.mpr hsent
  simp only [Log.positions, Log.push, List.map_append, List.map_replicate, List.mem_append,
    List.mem_replicate] at hn
  rcases hn with hn | ⟨-, rfl⟩
  · exact h.past n hn
  · exact Nat.sub_one_lt_of_lt hpos

private theorem append (h : Dated sent c log now id age) (hsent : sent ≠ []) (v : T) (times : Nat)
    (hc : ¬c') : Dated sent c' (log.push (sent.length - 1) v times) now id age :=
  ⟨h.stamped, h.past_push hsent v times, fun h' => absurd h' hc⟩

private theorem give (h : Dated sent c log now id age) (hsent : sent ≠ []) (v : T) :
    Dated sent True (log.push (sent.length - 1) v 1) now now 0 := by
  refine ⟨.new, h.past_push hsent v 1, fun _ => ?_⟩
  simp [Log.positions, Log.push]

end Dated

section Steps

variable {s t u : Sys T W} {c c' : Prop} {ages : Nat → Nat}

private theorem Dates.weaken (h : Dates c s ages) (hc : c' → c) : Dates c' s ages :=
  ⟨h.current, fun b hb r hr st hst => (h.dated b hb r hr st hst).weaken hc⟩

private theorem Dates.keep (h : Dates s.Suspended s ages) (q : Quiet s t) :
    Dates t.Suspended t ages := by
  constructor
  · intro v hv
    rw [q.sent]
    exact h.current v (q.sending v hv)
  · intro d hd x hx st' hst'
    obtain ⟨b, hb, hid, hentry⟩ := q.inner d hd
    obtain ⟨r, hr, hindex, hlog⟩ := q.receivers x hx
    obtain ⟨st, hst, hst', -⟩ := hentry _ st' hst'
    have hdated := h.dated b hb r hr st (hindex ▸ hst)
    rw [q.sent, hid, hst', ← hindex, ← hlog]
    apply hdated.weaken
    rintro ⟨v, hv⟩
    exact ⟨v, q.sending v hv⟩

/-- A poll of `recv` leaves the ids alone. -/
theorem Dates.setReceiver [Target] (h : Dates c s ages) (hi : Inv s) {b : Inner T W}
    (hb : s.inner = some b) {i : Nat} {r r' : Receiver T W} {st st' : ReceiverState T W}
    (hr : s.receivers[i]? = some r) (hindex : r'.index = r.index)
    (hst : b.value.receivers.get? r.index = some st) (hid : st'.id = st.id)
    (hpushed : r'.log.pushed = r.log.pushed) (woken : List W) :
    Dates c ((s.put (some (setState b r.index st')) woken).setReceiver i r') ages := by
  refine ⟨h.current, ?_⟩
  rintro _ ⟨⟩ x hx old hold
  have hget := Slab.get?_set b.value.receivers r.index x.index st'
  rcases mem_setReceiver hr hx with rfl | hx
  · rw [if_pos hindex, hindex, hst] at hget
    cases hget.symm.trans (hindex ▸ hold)
    have hdated := h.dated b hb r (List.mem_of_getElem? hr) st hst
    have hpositions : x.log.positions = r.log.positions := congrArg (List.map Prod.fst) hpushed
    rw [hid, hindex]
    refine ⟨hdated.stamped, ?_, ?_⟩
    · rw [hpositions]
      exact hdated.past
    · rw [hpositions]
      exact hdated.holds
  · obtain ⟨hmem, hne⟩ := hi.others hb hr hx
    rw [if_neg hne] at hget
    exact h.dated b hb x hmem old (hget.symm.trans hold)

private theorem Dates.begin (h : Dates c s ages) {b : Inner T W} (hb : s.inner = some b) (v : T) :
    Dates True { s.begin { b with value := bumpMessageId b.value } v with
      sending := some (.suspended v) } (advance ages 1 []) := by
  rw [advance_nil]
  constructor
  · rintro _ ⟨⟩
    exact List.getLast?_concat
  · rintro _ ⟨⟩ r hr st hst
    exact (h.dated b hb r hr st hst).begin v

private theorem Dates.resumed (h : Dates s.Suspended s ages) {v : T} (hu : s.Resumed v u) :
    Dates True u (advance ages s.firstBump []) := by
  rcases hu with ⟨hs, rfl⟩ | ⟨hs, b, hb, rfl⟩
  · have hfirst : u.firstBump = 0 := by rw [Sys.firstBump, hs]
    rw [hfirst, advance_zero_nil]
    exact h.weaken fun _ => ⟨v, hs⟩
  · have hfirst : s.firstBump = 1 := by rw [Sys.firstBump, hs]
    rw [hfirst]
    exact h.begin hb v

private theorem Pass.entry {b : Inner T W} {v : T} {counts pushes : ReceiverState T W → Bool}
    {change : ReceiverState T W → ReceiverState T W} {pass : Delivery W × Slab (ReceiverState T W)}
    (h : Pass b.value.receivers counts pushes change pass) {x : Receiver T W}
    (hx : x ∈ (u.deliver b v pass).receivers) {st' : ReceiverState T W}
    (hst' : pass.2.get? x.index = some st') :
    ∃ r ∈ u.receivers, ∃ st, b.value.receivers.get? r.index = some st ∧ change st = st' ∧
      r.index = x.index ∧ x.log = r.log.push (u.sent.length - 1) v (pushes st).toNat ∧
      (r.index ∈ pass.1.pushed ↔ pushes st = true) := by
  obtain ⟨r, hr, rfl⟩ := List.mem_map.mp hx
  rw [h.get?, Option.map_eq_some_iff] at hst'
  obtain ⟨st, hst, hchange⟩ := hst'
  have hcount := h.count hst
  refine ⟨r, hr, st, hst, hchange, rfl, ?_, ?_⟩
  · rw [← hcount]
    rfl
  · rw [← List.count_pos_iff, hcount]
    cases pushes st <;> decide

private theorem Dates.tryDeliver (h : Dates c s ages) {b d : Inner T W} (hb : s.inner = some b)
    (hd : d = { b with value := bumpMessageId b.value }) (v : T) (hs : s.sending = none)
    (hc : ¬c') : Dates c' ((s.begin d v).deliver d v (tryPass d v)) (advance ages 1 []) := by
  have hbegin := h.begin hb v
  subst hd
  constructor
  · intro v' hv'
    cases hs.symm.trans hv'
  · rintro _ ⟨⟩ x hx st' hst'
    obtain ⟨r, hr, st, hst, rfl, hindex, hlog, -⟩ := (tryPass_pass _ v).entry hx hst'
    have hdated := hbegin.dated _ rfl r hr st hst
    have hid : ∀ st : ReceiverState T W,
        (if st.room then { st with buf := st.buf.pushBack v } else st).id = st.id := by
      intro st
      split <;> rfl
    rw [hlog, ← hindex, hid]
    exact hdated.append (List.append_ne_nil_of_right_ne_nil _ (List.cons_ne_nil v [])) v _ hc

section Polls

variable [Target] [Waker W]

/-- The keys under which a poll of the future of `send` writes the message id are those where
its loop appends the message. -/
theorem Inv.delivered_eq (hi : Inv s) {v : T} {w : W} (hu : s.Resumed v u) {b d : Inner T W}
    (hb : u.inner = some b)
    (hd : d = { b with value := { b.value with sender := register b.value.sender w } }) :
    s.delivered w = (sendPass d v).1.pushed := by
  obtain ⟨hi', -⟩ := hi.resumed hu
  have hpoll : s.delivered w = (sendPoll v b w).2.2.pushed := by
    rcases hu with ⟨hs, rfl⟩ | ⟨hs, b', hb', rfl⟩
    · simp only [Sys.delivered, hs, hb]
    · cases hb
      simp only [Sys.delivered, hs, hb']
  rw [hpoll, sendPoll_eq hd, hi'.anyWeak_iff hb]
  by_cases hr : u.receivers = []
  · have hlen : d.value.receivers.len = 0 := by
      rw [hd]
      show b.value.receivers.len = 0
      rw [hi'.len_eq hb, hr]
      rfl
    rw [sendPass, Slab.forEach_of_len hlen, hr]
    rfl
  · have hsome : (!!u.receivers.isEmpty) = false := by simpa using hr
    rw [hsome, if_neg Bool.false_ne_true]
    split <;> rfl

omit [Target] in
/-- A poll of `Send` writes the ids of the receivers that it delivers to. -/
theorem Dates.deliver (h : Dates True u ages) {v : T} {w : W} (hs : u.sending = some (.suspended v))
    {b d : Inner T W} (hb : u.inner = some b)
    (hd : d = { b with value := { b.value with sender := register b.value.sender w } }) :
    Dates True (u.deliver d v (sendPass d v)) (advance ages 0 (sendPass d v).1.pushed) := by
  have hsent : u.sent ≠ [] := by
    intro hnil
    have hlast := h.current v hs
    rw [hnil] at hlast
    cases hlast
  refine ⟨h.current, ?_⟩
  rintro _ ⟨⟩ x hx st' hst'
  obtain ⟨r, hr, st, hst, rfl, hindex, hlog, hmem⟩ := (sendPass_pass d v).entry hx hst'
  have hdated := h.dated b hb r hr st (by rw [hd] at hst; exact hst)
  have hid : d.value.id = b.value.id := by rw [hd]
  rw [hlog, ← hindex]
  cases hgets : st.gets d.value.id with
  | true =>
    have hgiven := hdated.give hsent v
    rw [← hid] at hgiven
    rw [advance_of_mem (hmem.mpr hgets)]
    exact hgiven
  | false =>
    have hno : r.index ∉ (sendPass d v).1.pushed := by
      rw [hmem, hgets]
      exact Bool.false_ne_true
    rw [advance_of_notMem hno, Bool.toNat_false, Log.push_zero]
    show Dated _ _ _ d.value.id _ _
    rw [hid]
    exact hdated

private theorem Dates.resumeDeliver (hi : Inv s) (h : Dates s.Suspended s ages) {v : T} {w : W}
    (hu : s.Resumed v u) {b d : Inner T W} (hb : u.inner = some b)
    (hd : d = { b with value := { b.value with sender := register b.value.sender w } }) :
    Dates True (u.deliver d v (sendPass d v)) (advance ages s.firstBump (s.delivered w)) := by
  obtain ⟨-, -, -, hsend⟩ := hi.resumed hu
  rw [hi.delivered_eq hu hb hd, ← advance_advance]
  exact (h.resumed hu).deliver hsend hb hd

variable [Layout T] {op : Op T W} {out : Out T}

/-- After a poll of the future of `send` the ids tell who was given its message, also when it is
ready. -/
private theorem Dates.polled (hi : Inv s) (h : Dates s.Suspended s ages) {w : W}
    (m : Move s (.pollSend w) out t) (hout : out ≠ .ignored) :
    Dates True t (advance ages (s.bumps (.pollSend w) out) (s.writes (.pollSend w) out)) := by
  cases m with
  | ignored => exact absurd rfl hout
  | @sentNone u v w hu hr =>
    obtain ⟨-, -, hreceivers, -⟩ := hi.resumed hu
    refine ⟨fun v hv => (by cases hv), fun b hb r hmem => ?_⟩
    have hmem' : r ∈ u.receivers := hmem
    rw [hreceivers, hr] at hmem'
    cases hmem'
  | sent hu hb hd hall =>
    exact ⟨fun v hv => (by cases hv), (h.resumeDeliver hi hu hb hd).dated⟩
  | sendPark hu hb hd hsome =>
    have hdates := h.resumeDeliver hi hu hb hd
    exact ⟨hdates.current, hdates.dated⟩

/-- Every move keeps the ids dated. -/
theorem Dates.move (hi : Inv s) (h : Dates s.Suspended s ages) (m : Move s op out t) :
    Dates t.Suspended t (advance ages (s.bumps op out) (s.writes op out)) := by
  have hmove := m
  cases m with
  | ignored =>
    cases op <;> exact h
  | @subscribe b key hb hs hk hm =>
    obtain ⟨-, hnone⟩ := senderFree_iff.mp hs
    refine ⟨h.current, ?_⟩
    rintro _ ⟨⟩ x hx st hst
    show Dated _ _ _ _ _ (advance ages 0 [key] x.index)
    rcases hi.subscribed hb hk rfl hx hst with ⟨hx, hne, hst⟩ | ⟨rfl, rfl⟩
    · rw [advance_of_notMem fun hin => hne (List.mem_singleton.mp hin)]
      exact h.dated b hb x hx st hst
    · rw [advance_of_mem (List.mem_singleton_self key)]
      apply Dated.fresh
      rintro ⟨v, hv⟩
      cases hnone.symm.trans hv
  | trySent hb hs hd hall | tryShort hb hs hd hsome =>
    obtain ⟨-, hnone⟩ := senderFree_iff.mp hs
    refine h.tryDeliver hb hd _ hnone ?_
    rintro ⟨v, hv⟩
    cases hnone.symm.trans hv
  | sentNone | sent | sendPark => exact (h.polled hi hmove (by simp)).weaken fun _ => trivial
  | received hb hr hf hst | recvEnd hb hr hf hst | recvPark hb hr hf hst =>
    refine h.setReceiver hi hb hr ?_ hst ?_ ?_ _
    · rfl
    · rfl
    · rfl
  | send | cancelSend | recv | cancelRecv | dropSender | dropReceiver =>
    exact h.keep (hmove.quiet rfl)

/-! ### What the comparison of ids tells -/

omit [Target] [Waker W] [Layout T] in
/-- The ids do not come around in fewer bumps than there are ids. -/
theorem nextId_noReturn : NoReturn nextId messageIds := fun _ _ h1 h2 => nextId_iterate_ne h1 h2

omit [Target] [Waker W] [Layout T] in
/-- Several bumps move on by as many ids. -/
theorem bumpMessageId_iterate (inner : Shared T W) (k : Nat) :
    (bumpMessageId^[k] inner).id = nextId^[k] inner.id := by
  induction k with
  | zero => rfl
  | succ k ih =>
    rw [Function.iterate_succ_apply', Function.iterate_succ_apply', bumpMessageId_eq, ih]

omit [Waker W] [Layout T] in
private theorem Dates.idsTell (hi : Inv s) (h : Dates True s ages) : s.IdsTell ages := by
  intro b hb r hr
  obtain ⟨st, hst⟩ := hi.entry hb hr
  have hdated := h.dated b hb r hr st hst
  refine ⟨st, hst, hdated.stamped, fun hage => ?_⟩
  rw [hdated.stamped.eq_now_iff nextId_noReturn hage]
  exact hdated.holds trivial

omit [Target] [Layout T] in
private theorem Sys.of_pollSend {v : T} {w : W} (h : u.pollSend v w = .ok (out, t)) :
    out ≠ .ignored ∧ t.sent = u.sent := by
  unfold Sys.pollSend at h
  cases hacc : u.access with
  | error fault =>
    rw [hacc] at h
    cases h
  | ok b =>
    simp only [hacc, ok_bind] at h
    split at h
    · cases h
      exact ⟨nofun, rfl⟩
    · cases h
      exact ⟨nofun, rfl⟩

/-- The handles of a watched channel are in order and its ids are dated. -/
structure Aged.Inv (s : Aged T W) : Prop where
  sys : Broadcast.Inv s.sys
  dates : Dates s.sys.Suspended s.sys s.ages

/-- Every operation succeeds and keeps the ids dated. -/
theorem Aged.Inv.step {s : Aged T W} (h : s.Inv) (op : Op T W) :
    ∃ out t, s.step op = .ok (out, t) ∧ t.Inv := by
  obtain ⟨out, t, hstep, m, hi⟩ := h.sys.step op
  refine ⟨out, s.put op out t, ?_, hi, h.dates.move h.sys m⟩
  simp only [Aged.step, hstep, ok_bind]

omit [Waker W] [Layout T] in
/-- Nobody is stamped on a new channel. -/
theorem Aged.Inv.new (setup : Setup) : (Aged.new setup.create : Aged T W).Inv := by
  refine ⟨.new setup, ?_, ?_⟩
  · intro v hv
    cases hv
  · intro b hb r hr
    cases hr

/-- In every run, however long, and for every `send` that is polled: when the poll compares the
ids, and when it returns, the id of a receiver is the message id if and only if the receiver
was given the message of this `send`, unless as many bumps as there are ids went by since
the id of the receiver was written. From no id do fewer bumps lead back to it, and no
message has the id 0. -/
theorem message_ids_tell_who_was_given (setup : Setup) (ops : List (Op T W)) :
    (∃ outs s, run Aged.step (Aged.new setup.create : Aged T W) ops = .ok (outs, s) ∧
      run Sys.step (Sys.new setup.create) ops = .ok (outs, s.sys) ∧
      ∀ v, s.sys.sending = some (.unresumed v) ∨ s.sys.sending = some (.suspended v) →
        ∃ u, s.sys.Resumed v u ∧ u.sent.getLast? = some v ∧
          u.IdsTell (fun k => s.ages k + s.sys.firstBump) ∧
          ∀ w, ∃ out t, s.step (.pollSend w) = .ok (out, t) ∧
            u.pollSend v w = .ok (out, t.sys) ∧ t.sys.sent = u.sent ∧ t.sys.IdsTell t.ages) ∧
    ∀ inner : Shared T W, (∀ k, 0 < k → k < 2 ^ 64 - 1 →
      (bumpMessageId^[k] inner).id ≠ inner.id) ∧ (bumpMessageId inner).id ≠ 0 := by
  constructor
  · have hwatch : ∀ (s : Aged T W) op,
        s.sys.step op = (s.step op).map (Prod.map id Aged.sys) := by
      intro s op
      unfold Aged.step
      cases s.sys.step op <;> rfl
    obtain ⟨outs, s, hrun, h⟩ := run_invariant
      (fun s op (h : Aged.Inv s) => h.step op) (Aged.Inv.new setup) ops
    refine ⟨outs, s, hrun, run_of_watched (f := Aged.sys) hwatch hrun, ?_⟩
    intro v hs
    obtain ⟨u, hu⟩ := h.sys.exists_resumed hs
    obtain ⟨hi, -, -, hsend⟩ := h.sys.resumed hu
    have hdates := h.dates.resumed hu
    refine ⟨u, hu, hdates.current v hsend, ?_, ?_⟩
    · rw [← advance_nil]
      exact hdates.idsTell hi
    · intro w
      obtain ⟨out, t, hstep, m, ht⟩ := h.sys.step (.pollSend w)
      have hpoll : u.pollSend v w = .ok (out, t) := by rw [← hu.step_eq, hstep]
      obtain ⟨hout, hsent⟩ := Sys.of_pollSend hpoll
      refine ⟨out, s.put _ out t, ?_, hpoll, hsent, (h.dates.polled h.sys m hout).idsTell ht⟩
      simp only [Aged.step, hstep, ok_bind]
  · intro inner
    constructor
    · intro k h1 h2
      rw [bumpMessageId_iterate]
      exact nextId_iterate_ne h1 h2
    · exact nextId_ne_zero inner.id

end Polls

end Steps

end Broadcast
end Unsync
