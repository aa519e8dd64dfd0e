import Unsync.Broadcast.Ids
import Unsync.Lib.Simulation

/-!
# Channels that differ in stamps

`send` stamps receivers with the id of its message and leaves a waker; `try_send` does neither.
Channels that differ in stamps and in the sender's waker have the same results and buffers in
every run, as long as no message takes an id that tells the stamps apart.
-/

namespace Unsync
namespace Broadcast

open Runs

variable {T W : Type}

/-- States of a receiver that differ in their ids at most, which compare alike with the given
ids. -/
structure AlikeState (ids : UInt64 → Prop) (r r' : ReceiverState T W) : Prop where
  waker : r.waker = r'.waker
  buf : r.buf = r'.buf
  unbounded : r.unbounded = r'.unbounded
  id : ∀ x, ids x → (r.id = x ↔ r'.id = x)

/-- Channels at a message id whose receivers compare alike with the given ids. Their sender's
wakers may differ. -/
structure Alike (ids : UInt64 → Prop) (id : UInt64) (b c : Inner T W) : Prop where
  left : b.value.id = id
  right : c.value.id = id
  capacity : b.value.capacity = c.value.capacity
  receivers : Slab.Related (AlikeState ids) b.value.receivers c.value.receivers
  strong : b.strong = c.strong
  weak : b.weak = c.weak

section Functions

variable {ids : UInt64 → Prop} {id : UInt64}

private theorem AlikeState.atCapacity {r r' : ReceiverState T W} (h : AlikeState ids r r') :
    r.atCapacity = r'.atCapacity := by
  simp only [ReceiverState.atCapacity, h.buf, h.unbounded]

private theorem AlikeState.change {r r' : ReceiverState T W} (h : AlikeState ids r r')
    (w : Option W) (d : VecDeque T) :
    AlikeState ids { r with waker := w, buf := d } { r' with waker := w, buf := d } :=
  ⟨rfl, rfl, h.unbounded, h.id⟩

private theorem AlikeState.tryDeliver {r r' : ReceiverState T W} (h : AlikeState ids r r') (v : T)
    (d : Delivery W) (k : Nat) :
    (r.tryDeliver v d k).1 = (r'.tryDeliver v d k).1 ∧
      AlikeState ids (r.tryDeliver v d k).2 (r'.tryDeliver v d k).2 := by
  unfold ReceiverState.tryDeliver
  rw [h.atCapacity]
  cases r'.atCapacity with
  | true => exact ⟨rfl, h⟩
  | false => exact ⟨by rw [h.waker]; rfl, h.waker, by simp [h.buf], h.unbounded, h.id⟩

private theorem AlikeState.deliver {r r' : ReceiverState T W} (h : AlikeState ids r r')
    (hid : ids id) (v : T) (d : Delivery W) (k : Nat) :
    (r.deliver id v d k).1 = (r'.deliver id v d k).1 ∧
      AlikeState ids (r.deliver id v d k).2 (r'.deliver id v d k).2 := by
  have hsame : (r.id == id) = (r'.id == id) := by
    rw [Bool.eq_iff_iff, beq_iff_eq, beq_iff_eq]
    exact h.id id hid
  unfold ReceiverState.deliver
  rw [hsame, h.atCapacity]
  cases r'.id == id with
  | true => exact ⟨rfl, h⟩
  | false =>
    cases r'.atCapacity with
    | true => exact ⟨rfl, h⟩
    | false =>
      refine ⟨by simp [h.waker], h.waker, by simp [h.buf], h.unbounded, ?_⟩
      intro x _
      exact Iff.rfl

variable {b c : Inner T W}

private theorem Alike.mono {ids' : UInt64 → Prop} (h : Alike ids id b c)
    (hi : ∀ x, ids' x → ids x) :
    Alike ids' id b c :=
  ⟨h.left, h.right, h.capacity,
    h.receivers.mono fun _ _ hr => ⟨hr.waker, hr.buf, hr.unbounded, fun x hx => hr.id x (hi x hx)⟩,
    h.strong, h.weak⟩

private theorem Alike.put (h : Alike ids id b c) {slab slab' : Slab (ReceiverState T W)}
    (hr : Slab.Related (AlikeState ids) slab slab') (w w' : Option W) :
    Alike ids id { b with value := { b.value with receivers := slab, sender := w } }
      { c with value := { c.value with receivers := slab', sender := w' } } :=
  ⟨h.left, h.right, h.capacity, hr, h.strong, h.weak⟩

private theorem Alike.bump (h : Alike ids id b c) :
    Alike ids (nextId id) { b with value := bumpMessageId b.value }
      { c with value := bumpMessageId c.value } :=
  ⟨congrArg nextId h.left, congrArg nextId h.right, h.capacity, h.receivers, h.strong, h.weak⟩

private theorem Alike.anyWeak (h : Alike ids id b c) : b.anyWeak = c.anyWeak := by
  simp only [BroadRc.anyWeak, h.weak]

private theorem Alike.tryPass (h : Alike ids id b c) (v : T) :
    (tryPass b v).1 = (tryPass c v).1 ∧
      Slab.Related (AlikeState ids) (tryPass b v).2 (tryPass c v).2 :=
  h.receivers.forEach (fun d k _ _ hr => hr.tryDeliver v d k) .start

private theorem Alike.sendPass (h : Alike ids id b c) (hid : ids id) (v : T) :
    (sendPass b v).1 = (sendPass c v).1 ∧
      Slab.Related (AlikeState ids) (sendPass b v).2 (sendPass c v).2 := by
  unfold Broadcast.sendPass
  rw [h.left, h.right]
  exact h.receivers.forEach (fun d k _ _ hr => hr.deliver hid v d k) .start

private theorem Alike.trySend (h : Alike ids id b c) (v : T) :
    (trySend b v).1 = (trySend c v).1 ∧
      Alike ids (nextId id) (trySend b v).2.1 (trySend c v).2.1 ∧
      (trySend b v).2.2 = (trySend c v).2.2 := by
  have hb := h.bump
  obtain ⟨hd, hr⟩ := hb.tryPass v
  rw [trySend_eq rfl, trySend_eq rfl, h.anyWeak, hd, hr.len_eq]
  cases c.anyWeak with
  | false => exact ⟨rfl, hb, rfl⟩
  | true =>
    simp only [Bool.not_true, Bool.false_eq_true, if_false]
    by_cases hall : ((Broadcast.tryPass { c with value := bumpMessageId c.value } v).1.delivered ==
        (Broadcast.tryPass { c with value := bumpMessageId c.value } v).2.len) = true
    · rw [if_pos hall, if_pos hall]
      exact ⟨rfl, hb.put hr _ _, rfl⟩
    · rw [if_neg hall, if_neg hall]
      exact ⟨rfl, hb.put hr _ _, rfl⟩

variable [Waker W]

private theorem Alike.sendPoll (h : Alike ids id b c) (hid : ids id) (v : T) (w : W) :
    (sendPoll v b w).1 = (sendPoll v c w).1 ∧
      Alike ids id (sendPoll v b w).2.1 (sendPoll v c w).2.1 ∧
      (sendPoll v b w).2.2 = (sendPoll v c w).2.2 := by
  have hb := h.put h.receivers (register b.value.sender w) (register c.value.sender w)
  obtain ⟨hd, hr⟩ := hb.sendPass hid v
  obtain ⟨c', hc⟩ : ∃ c' : Inner T W,
      c' = { c with value := { c.value with sender := register c.value.sender w } } := ⟨_, rfl⟩
  rw [← hc] at hb hd hr
  rw [sendPoll_eq rfl, sendPoll_eq hc, h.anyWeak, hd, hr.len_eq]
  cases c.anyWeak with
  | false => exact ⟨rfl, h, rfl⟩
  | true =>
    simp only [Bool.not_true, Bool.false_eq_true, if_false]
    by_cases hall : ((Broadcast.sendPass c' v).1.delivered ==
        (Broadcast.sendPass c' v).2.len) = true
    · rw [if_pos hall, if_pos hall]
      exact ⟨rfl, hb.put hr _ _, rfl⟩
    · rw [if_neg hall, if_neg hall]
      exact ⟨rfl, hb.put hr _ _, rfl⟩

/-- A poll of `recv` on channels that are alike. -/
theorem Alike.recvPoll (h : Alike ids id b c) (k : Nat) (w : W) :
    (recvPoll b k w).1 = (recvPoll c k w).1 ∧
      Alike ids id (recvPoll b k w).2.1 (recvPoll c k w).2.1 := by
  have hstrong : b.anyStrong = c.anyStrong := by simp only [BroadRc.anyStrong, h.strong]
  unfold Broadcast.recvPoll
  have hget := h.receivers.get? k
  cases hb : b.value.receivers.get? k with
  | none =>
    cases hc : c.value.receivers.get? k with
    | none => exact ⟨rfl, h⟩
    | some r' =>
      rw [hb, hc] at hget
      cases hget
  | some r =>
    cases hc : c.value.receivers.get? k with
    | none =>
      rw [hb, hc] at hget
      cases hget
    | some r' =>
      rw [hb, hc] at hget
      cases hget with
      | some hr =>
        simp only [hr.buf, hstrong, hr.waker]
        cases r'.buf.popFront with
        | some p =>
          obtain ⟨v, buf⟩ := p
          exact ⟨rfl, h.put (h.receivers.set k (hr.change r'.waker buf)) _ _⟩
        | none =>
          cases c.anyStrong with
          | false => exact ⟨rfl, h.put (h.receivers.set k (hr.change none r'.buf)) _ _⟩
          | true =>
            have hset := hr.change (register r'.waker w) r'.buf
            exact ⟨rfl, h.put (h.receivers.set k hset) _ _⟩

variable [Target]

omit [Waker W] in
private theorem Alike.subscribe [Layout T] (h : Alike ids id b c) (k : Nat) :
    Follows (Alike ids id) (subscribe b k) (subscribe c k) := by
  have hnew : Alike ids id { b with value := newReceiver b.value k }
      { c with value := newReceiver c.value k } := by
    refine ⟨h.left, h.right, h.capacity, h.receivers.insert k ?_, h.strong, h.weak⟩
    rw [h.capacity, h.left, h.right]
    exact ⟨rfl, rfl, rfl, fun _ _ => Iff.rfl⟩
  unfold Broadcast.subscribe BroadRc.addWeak
  rw [h.weak]
  cases checkedIncrement c.weak with
  | error e => exact .error _ e
  | ok n => exact .ok ⟨hnew.left, hnew.right, hnew.capacity, hnew.receivers, hnew.strong, rfl⟩

omit [Waker W] in
private theorem Alike.tryDealloc (h : Alike ids id b c) :
    Follows (Option.Rel (Alike ids id)) b.tryDealloc c.tryDealloc := by
  unfold BroadRc.tryDealloc
  rw [h.weak, h.strong]
  cases addUsize c.weak c.strong with
  | error e => exact .error _ e
  | ok n =>
    simp only [ok_bind]
    split
    · exact .ok .none
    · exact .ok (.some h)

omit [Waker W] in
private theorem Alike.dropSender (h : Alike ids id b c) :
    Follows (fun p q => Option.Rel (Alike ids id) p.1 q.1) (dropSender b) (dropSender c) := by
  have hbody : ∀ (woken : List W) (k : Nat) (r r' : ReceiverState T W), AlikeState ids r r' →
      (r.takeWaker woken k).1 = (r'.takeWaker woken k).1 ∧
        AlikeState ids (r.takeWaker woken k).2 (r'.takeWaker woken k).2 := by
    intro woken k r r' hr
    exact ⟨by simp only [ReceiverState.takeWaker, hr.waker], rfl, hr.buf, hr.unbounded, hr.id⟩
  have hr := (h.receivers.forEach hbody []).2
  have hdrop : Alike ids id
      { b with
        value := { b.value with
          receivers := (b.value.receivers.forEach ReceiverState.takeWaker []).2 }
        strong := wrappingDec b.strong }
      { c with
        value := { c.value with
          receivers := (c.value.receivers.forEach ReceiverState.takeWaker []).2 }
        strong := wrappingDec c.strong } :=
    ⟨h.left, h.right, h.capacity, hr, congrArg wrappingDec h.strong, h.weak⟩
  exact hdrop.tryDealloc.bind fun _ _ hrest => .ok hrest

omit [Waker W] in
private theorem Alike.dropReceiver (h : Alike ids id b c) (k : Nat) :
    Follows (fun p q => Option.Rel (Alike ids id) p.1 q.1) (dropReceiver b k)
      (dropReceiver c k) := by
  have hput := h.put (h.receivers.remove k) none none
  have hdrop : Alike ids id
      { b with
        value := { b.value with receivers := b.value.receivers.remove k, sender := none }
        weak := wrappingDec b.weak }
      { c with
        value := { c.value with receivers := c.value.receivers.remove k, sender := none }
        weak := wrappingDec c.weak } :=
    ⟨hput.left, hput.right, hput.capacity, hput.receivers, h.strong, congrArg wrappingDec h.weak⟩
  exact hdrop.tryDealloc.bind fun _ _ hrest => .ok hrest

end Functions

/-! ### Whole channels -/

/-- The ids of the next messages, after the given one. -/
def upcoming (id : UInt64) (n : Nat) (x : UInt64) : Prop := ∃ m < n, nextId^[m + 1] id = x

/-- The ids that polls of `send` may still compare with, when so many messages are sent. -/
def compared (sending : Option (Sending T)) (id : UInt64) (n : Nat) (x : UInt64) : Prop :=
  match sending with
  | none => upcoming id n x
  | some (.unresumed _) => upcoming id (n + 1) x
  | some (.suspended _) => x = id ∨ upcoming id n x

/-- A receiver without its latest poll. -/
def Receiver.unpolled (r : Receiver T W) : Receiver T W := { r with pending := none }

private theorem unpolled_eq {r r' : Receiver T W} :
    r.unpolled = r'.unpolled ↔
      r.index = r'.index ∧ r.receiving = r'.receiving ∧ r.log = r'.log := by
  simp [Receiver.unpolled]

/-- Two runs that are alike for so many more messages: wake-ups of the sender, and records of
when a receiver was polled last, may differ. -/
structure Twins (n : Nat) (id : UInt64) (s t : Sys T W) : Prop where
  inner : Option.Rel (Alike (compared s.sending id n) id) s.inner t.inner
  sender : s.sender = t.sender
  sending : s.sending = t.sending
  receivers : s.receivers.map Receiver.unpolled = t.receivers.map Receiver.unpolled
  retired : s.retired = t.retired
  sent : s.sent = t.sent

section Steps

variable {n : Nat} {id : UInt64} {s t : Sys T W}

private theorem upcoming_mono {m : Nat} (h : m ≤ n) {x : UInt64} (hx : upcoming id m x) :
    upcoming id n x := by
  obtain ⟨k, hk, he⟩ := hx
  exact ⟨k, Nat.lt_of_lt_of_le hk h, he⟩

/-- After a message the others are upcoming still. -/
theorem upcoming_next {x : UInt64} (hx : x = nextId id ∨ upcoming (nextId id) n x) :
    upcoming id (n + 1) x := by
  rcases hx with rfl | ⟨k, hk, he⟩
  · exact ⟨0, Nat.succ_pos n, rfl⟩
  · exact ⟨k + 1, Nat.succ_lt_succ hk, he⟩

private theorem Twins.access (h : Twins n id s t) :
    Follows (Alike (compared s.sending id n) id) s.access t.access := by
  have hi := h.inner
  unfold Sys.access
  generalize s.inner = o at hi ⊢
  generalize t.inner = o' at hi ⊢
  cases hi with
  | none => exact .error _ _
  | some hbc => exact .ok hbc

private theorem Twins.put (h : Twins n id s t) {n' : Nat} {id' : UInt64} {o o' : Option (Inner T W)}
    (ho : Option.Rel (Alike (compared s.sending id' n') id') o o') (woken woken' : List W) :
    Twins n' id' (s.put o woken) (t.put o' woken') :=
  ⟨ho, h.sender, h.sending, h.receivers, h.retired, h.sent⟩

private theorem Twins.setReceiver (h : Twins n id s t) (i : Nat) {r r' : Receiver T W}
    (hr : r.unpolled = r'.unpolled) : Twins n id (s.setReceiver i r) (t.setReceiver i r') := by
  refine ⟨h.inner, h.sender, h.sending, ?_, h.retired, h.sent⟩
  simp only [Sys.setReceiver, List.map_set, h.receivers, hr]

/-- Twins that both appended the message sent last under the same keys. -/
theorem Twins.handOut (h : Twins n id s t) (v : T) (keys : List Nat) :
    Twins n id (s.handOut v keys) (t.handOut v keys) := by
  refine ⟨h.inner, h.sender, h.sending, ?_, h.retired, h.sent⟩
  have hcomm : ∀ u : Sys T W, (u.handOut v keys).receivers.map Receiver.unpolled =
      (u.receivers.map Receiver.unpolled).map fun r =>
        { r with log := r.log.push (u.sent.length - 1) v (keys.count r.index) } := by
    intro u
    simp only [Sys.handOut, List.map_map]
    rfl
  rw [hcomm, hcomm, h.receivers, h.sent]

/-- What both twins do with the receiver at a place. -/
theorem Twins.withReceiver (h : Twins n id s t) (i : Nat) (borrowed : Bool)
    {use use' : Receiver T W → Except Fault (Out T × Sys T W)}
    (hu : ∀ r r' : Receiver T W, r.unpolled = r'.unpolled →
      Follows (Agree (Twins n id)) (use r) (use' r')) :
    Follows (Agree (Twins n id)) (s.withReceiver i borrowed use)
      (t.withReceiver i borrowed use') := by
  have hget : s.receivers[i]?.map Receiver.unpolled = t.receivers[i]?.map Receiver.unpolled := by
    rw [← List.getElem?_map, ← List.getElem?_map, h.receivers]
  unfold Sys.withReceiver
  generalize s.receivers[i]? = o at hget ⊢
  generalize t.receivers[i]? = o' at hget ⊢
  cases o with
  | none =>
    cases o' with
    | none => exact .ok ⟨rfl, h⟩
    | some r' => cases hget
  | some r =>
    cases o' with
    | none => cases hget
    | some r' =>
      have hr : r.unpolled = r'.unpolled := Option.some.inj hget
      obtain ⟨-, hf, -⟩ := unpolled_eq.mp hr
      simp only [hf]
      exact .ite Iff.rfl (fun _ => hu r r' hr) fun _ => .ok ⟨rfl, h⟩

private theorem Twins.later (h : Twins n id s t) {future : Option (Sending T)} {m : Nat}
    (hids : ∀ x, compared future id m x → compared s.sending id n x) :
    Option.Rel (Alike (compared future id m) id) s.inner t.inner := by
  have hi := h.inner
  generalize s.inner = o at hi ⊢
  generalize t.inner = o' at hi ⊢
  cases hi with
  | none => exact .none
  | some hbc => exact .some (hbc.mono hids)

private theorem Twins.endSend (h : Twins n id s t) : Twins n id s.endSend t.endSend := by
  refine ⟨h.later ?_, h.sender, rfl, h.receivers, h.retired, h.sent⟩
  intro x hx
  change upcoming id n x at hx
  cases s.sending with
  | none => exact hx
  | some future =>
    cases future with
    | unresumed v => exact upcoming_mono (Nat.le_succ n) hx
    | suspended v => exact Or.inr hx

private theorem Twins.weaken (h : Twins (n + 1) id s t) : Twins n id s t := by
  refine ⟨h.later ?_, h.sender, h.sending, h.receivers, h.retired, h.sent⟩
  intro x hx
  cases hs : s.sending with
  | none =>
    rw [hs] at hx
    exact upcoming_mono (Nat.le_succ n) hx
  | some future =>
    rw [hs] at hx
    cases future with
    | unresumed v => exact upcoming_mono (Nat.le_succ _) hx
    | suspended v => exact hx.imp_right (upcoming_mono (Nat.le_succ n))

private theorem Twins.subscribe [Target] [Layout T] (h : Twins n id s t) (k : Nat) :
    Follows (Agree (Twins n id)) (s.subscribe k) (t.subscribe k) := by
  refine h.access.bind fun b c hbc => ?_
  simp only [hbc.receivers.keys_eq]
  refine .ite Iff.rfl (fun _ => .ok ⟨rfl, h⟩) fun _ => ?_
  refine (hbc.subscribe k).bind fun b' c' hbc' => .ok ⟨rfl, .some hbc', h.sender, h.sending, ?_,
    h.retired, h.sent⟩
  simp only [List.map_append, h.receivers, h.sent]

private theorem Twins.trySend (h : Twins (n + 1) id s t) (hs : s.sending = none) (v : T) :
    Follows (Agree (Twins n (nextId id))) (s.trySend v) (t.trySend v) := by
  unfold Sys.trySend
  refine h.access.bind fun b c hbc => ?_
  rw [hs] at hbc
  have hsent := hbc.trySend v
  generalize Broadcast.trySend b v = p at hsent ⊢
  generalize Broadcast.trySend c v = p' at hsent ⊢
  obtain ⟨result, b', d⟩ := p
  obtain ⟨result', c', d'⟩ := p'
  obtain ⟨rfl, hbc', rfl⟩ := hsent
  have hids : ∀ x, compared s.sending (nextId id) n x → upcoming id (n + 1) x := by
    rw [hs]
    exact fun x hx => upcoming_next (Or.inr hx)
  have hput : Twins n (nextId id) ((s.begin b' v).put (some b') d.woken)
      ((t.begin c' v).put (some c') d.woken) :=
    ⟨.some (hbc'.mono hids), h.sender, h.sending, h.receivers, h.retired,
      congrArg (· ++ [v]) h.sent⟩
  exact .ok ⟨rfl, hput.handOut v d.pushed⟩

private theorem Twins.resume (h : Twins n id s t) {v : T} (hs : s.sending = some (.unresumed v)) :
    Follows (fun s t => Twins n (nextId id) s t ∧ s.sending = some (.suspended v))
      (s.resume v) (t.resume v) := by
  refine h.access.bind fun b c hbc => .ok ⟨⟨.some (hbc.bump.mono ?_), h.sender, rfl, h.receivers,
    h.retired, congrArg (· ++ [v]) h.sent⟩, rfl⟩
  rw [hs]
  exact fun x hx => upcoming_next hx

variable [Waker W]

private theorem Twins.pollSend (h : Twins n id s t) {v v' : T}
    (hs : s.sending = some (.suspended v'))
    (w : W) : Follows (Agree (Twins n id)) (s.pollSend v w) (t.pollSend v w) := by
  unfold Sys.pollSend
  refine h.access.bind fun b c hbc => ?_
  have hid : compared s.sending id n id := by
    rw [hs]
    exact Or.inl rfl
  have hpoll := hbc.sendPoll hid v w
  generalize Broadcast.sendPoll v b w = p at hpoll ⊢
  generalize Broadcast.sendPoll v c w = p' at hpoll ⊢
  obtain ⟨result, b', d⟩ := p
  obtain ⟨result', c', d'⟩ := p'
  obtain ⟨rfl, hbc', rfl⟩ := hpoll
  have hput : Twins n id (s.put (some b') d.woken) (t.put (some c') d.woken) :=
    h.put (.some hbc') d.woken d.woken
  have hhand := hput.handOut v d.pushed
  cases result with
  | pending =>
    exact .ok ⟨rfl, hhand.inner, hhand.sender, hhand.sending, hhand.receivers, hhand.retired,
      hhand.sent⟩
  | ready k => exact .ok ⟨rfl, hhand.endSend⟩

private theorem Twins.pollRecv (h : Twins n id s t) (i : Nat) (w : W) {r r' : Receiver T W}
    (hr : r.unpolled = r'.unpolled) :
    Follows (Agree (Twins n id)) (s.pollRecv i w r) (t.pollRecv i w r') := by
  obtain ⟨hindex, hreceiving, hlog⟩ := unpolled_eq.mp hr
  unfold Sys.pollRecv
  refine h.access.bind fun b c hbc => ?_
  have hpoll := hbc.recvPoll r'.index w
  rw [hindex, hlog]
  generalize Broadcast.recvPoll b r'.index w = p at hpoll ⊢
  generalize Broadcast.recvPoll c r'.index w = p' at hpoll ⊢
  obtain ⟨result, b', woken⟩ := p
  obtain ⟨result', c', woken'⟩ := p'
  obtain ⟨rfl, hbc'⟩ := hpoll
  have hput : Twins n id (s.put (some b') woken) (t.put (some c') woken') :=
    h.put (.some hbc') woken woken'
  cases result with
  | pending => exact .ok ⟨rfl, hput.setReceiver i (unpolled_eq.mpr ⟨rfl, hreceiving, rfl⟩)⟩
  | ready value =>
    cases value with
    | none => exact .ok ⟨rfl, hput.setReceiver i rfl⟩
    | some v => exact .ok ⟨rfl, hput.setReceiver i rfl⟩

omit [Waker W] in
private theorem Twins.dropReceiver [Target] (h : Twins n id s t) (i : Nat) {r r' : Receiver T W}
    (hr : r.unpolled = r'.unpolled) :
    Follows (Agree (Twins n id)) (s.dropReceiver i r) (t.dropReceiver i r') := by
  obtain ⟨hindex, -, hlog⟩ := unpolled_eq.mp hr
  unfold Sys.dropReceiver
  rw [hindex, hlog]
  refine h.access.bind fun b c hbc => (hbc.dropReceiver r'.index).bind fun p p' hrest => ?_
  refine .ok ⟨rfl, hrest, h.sender, h.sending, ?_, congrArg (· ++ [r'.log]) h.retired, h.sent⟩
  simp only [← List.eraseIdx_map, h.receivers]

/-- Each operation has the same result on both twins and leaves twins. -/
theorem Twins.step [Target] [Layout T] (op : Op T W) (h : Twins (n + op.calls) id s t) :
    Follows (Agree fun s t => ∃ id, Twins n id s t) (s.step op) (t.step op) := by
  have hnow : ∀ {id' : UInt64} {x y : Except Fault (Out T × Sys T W)},
      Follows (Agree (Twins n id')) x y → Follows (Agree fun s t => ∃ id, Twins n id s t) x y :=
    fun hxy => hxy.mono fun _ _ hab => ⟨hab.1, _, hab.2⟩
  have hfree : s.senderFree = t.senderFree := by
    simp only [Sys.senderFree, h.sender, h.sending]
  cases op with
  | subscribe k =>
    simp only [Sys.step, hfree]
    exact .ite Iff.rfl (fun _ => hnow (h.subscribe k)) fun _ => .ok ⟨rfl, id, h⟩
  | trySend v =>
    simp only [Sys.step, ← hfree]
    exact .ite Iff.rfl (fun hf => hnow (h.trySend (senderFree_iff.mp hf).2 v))
      fun _ => .ok ⟨rfl, id, h.weaken⟩
  | send v =>
    simp only [Sys.step, ← hfree]
    refine .ite Iff.rfl (fun hf => .ok ⟨rfl, id, h.later ?_, h.sender, rfl, h.receivers, h.retired,
      h.sent⟩) fun _ => .ok ⟨rfl, id, h.weaken⟩
    rw [(senderFree_iff.mp hf).2]
    exact fun x hx => hx
  | pollSend w =>
    simp only [Sys.step, ← h.sending]
    cases hs : s.sending with
    | none => exact .ok ⟨rfl, id, h⟩
    | some future =>
      cases future with
      | unresumed v =>
        exact (h.resume hs).bind fun s' t' hst => hnow (hst.1.pollSend hst.2 w)
      | suspended v => exact hnow (h.pollSend hs w)
  | cancelSend =>
    simp only [Sys.step, h.sending]
    exact .ite Iff.rfl (fun _ => .ok ⟨rfl, id, h.endSend⟩) fun _ => .ok ⟨rfl, id, h⟩
  | recv i =>
    refine hnow (h.withReceiver i false fun r r' hr => .ok ⟨rfl, h.setReceiver i ?_⟩)
    obtain ⟨hindex, -, hlog⟩ := unpolled_eq.mp hr
    exact unpolled_eq.mpr ⟨hindex, rfl, hlog⟩
  | pollRecv i w =>
    exact hnow (h.withReceiver i true fun r r' hr => h.pollRecv i w hr)
  | cancelRecv i =>
    refine hnow (h.withReceiver i true fun r r' hr => .ok ⟨rfl, h.setReceiver i ?_⟩)
    obtain ⟨hindex, -, hlog⟩ := unpolled_eq.mp hr
    exact unpolled_eq.mpr ⟨hindex, rfl, hlog⟩
  | dropSender =>
    simp only [Sys.step, hfree]
    refine .ite Iff.rfl (fun _ => @hnow id _ _ ?_) fun _ => .ok ⟨rfl, id, h⟩
    refine h.access.bind fun b c hbc => hbc.dropSender.bind fun p p' hrest => ?_
    exact .ok ⟨rfl, hrest, rfl, h.sending, h.receivers, h.retired, h.sent⟩
  | dropReceiver i =>
    exact hnow (h.withReceiver i false fun r r' hr => h.dropReceiver i hr)

/-- Runs of twins have the same results and end in twins. -/
theorem Twins.run [Target] [Layout T] (ops : List (Op T W)) (h : Twins (n + calls ops) id s t) :
    Follows (Agree fun s t => ∃ id, Twins n id s t) (run Sys.step s ops) (run Sys.step t ops) := by
  have hstep : ∀ (m : Nat) (s t : Sys T W) (op : Op T W), (∃ id, Twins (m + op.calls) id s t) →
      Follows (Agree fun s t => ∃ id, Twins m id s t) (s.step op) (t.step op) := by
    rintro m s t op ⟨id, hst⟩
    exact hst.step op
  exact run_follows (R := fun m s t => ∃ id, Twins m id s t) hstep ops ⟨id, h⟩

end Steps

end Broadcast
end Unsync
