import Unsync.Broadcast.Pass
import Mathlib.Logic.IsEmpty.Basic

/-!
# Bounded buffers of receivers

A receiver of a bounded channel looks at the capacity that its queue reports, which for a
type without size is not the one that was asked for. Where the two agree, every receiver
holds as many messages as the channel was made for, and is skipped exactly when it does.
-/

namespace Unsync
namespace Broadcast

open Runs

variable {T W : Type}

/-- The message of a `send`. -/
def Sending.value : Sending T → T
  | .unresumed value | .suspended value => value

/-- The id that the message of a `send` has when it is polled. -/
def Sending.id (future : Sending T) (inner : Shared T W) : UInt64 :=
  match future with
  | .unresumed _ => (bumpMessageId inner).id
  | .suspended _ => inner.id

/-- The buffer of a receiver under the given key after the message passed by. -/
def Passed (b b' : Inner T W) (key : Nat) (value : T) (skip : ReceiverState T W → Prop)
    [DecidablePred skip] : Prop :=
  ∀ st, b.value.receivers.get? key = some st → ∃ st', b'.value.receivers.get? key = some st' ∧
    st'.buf.items = if skip st then st.buf.items else st.buf.items ++ [value]

/-- The channel bounds the buffers by the given capacity: no buffer holds more messages,
`try_send` skips a receiver and fails exactly when its buffer holds that many, and a poll of
`send` waits exactly for the receivers without its message whose buffers hold that many. -/
structure BoundedBy [Target] [Layout T] [Waker W] (c : Nat) (s : Sys T W) : Prop where
  atMost : ∀ b, s.inner = some b → ∀ r ∈ s.receivers, ∀ st,
    b.value.receivers.get? r.index = some st → st.buf.len ≤ c
  trySend : s.senderFree = true → ∀ v, ∃ b b' result t, s.inner = some b ∧
    s.step (.trySend v) = .ok (.trySent result, t) ∧ t.inner = some b' ∧
    (∀ r ∈ s.receivers, Passed b b' r.index v fun st => st.buf.len = c) ∧
    ((∃ e, result = .error e) ↔ ∃ r ∈ s.receivers, ∃ st,
      b.value.receivers.get? r.index = some st ∧ st.buf.len = c)
  send : ∀ future, s.sending = some future → ∀ w, ∃ b b' out t, s.inner = some b ∧
    s.step (.pollSend w) = .ok (out, t) ∧ t.inner = some b' ∧
    (∀ r ∈ s.receivers, Passed b b' r.index future.value fun st =>
      st.id = future.id b.value ∨ st.buf.len = c) ∧
    (out = .pending ↔ ∃ r ∈ s.receivers, ∃ st, b.value.receivers.get? r.index = some st ∧
      st.id ≠ future.id b.value ∧ st.buf.len = c)

/-- The queue of a receiver was made for the given number of messages and holds no more. -/
structure ReceiverState.Capped (c : Nat) (st : ReceiverState T W) : Prop where
  fixed : st.unbounded = false ∧ st.buf.capacity = c
  atMost : st.buf.len ≤ c

/-- All receivers have such queues, and the next one gets one too. -/
structure Capped [Target] [Layout T] (c : Nat) (s : Sys T W) : Prop where
  made : ∀ b, s.inner = some b → ∃ n, b.value.capacity = some n ∧
    (VecDeque.withCapacity n.1 : VecDeque T).capacity = c
  seats : ∀ b, s.inner = some b → ∀ k st, b.value.receivers.get? k = some st → st.Capped c

namespace ReceiverState.Capped

variable {c : Nat} {st : ReceiverState T W}

private theorem atCapacity_iff (h : st.Capped c) : st.atCapacity = true ↔ st.buf.len = c := by
  rw [atCapacity, h.fixed.1, h.fixed.2, Bool.not_false, Bool.true_and, beq_iff_eq]
  exact eq_comm

private theorem room_iff (h : st.Capped c) : st.room = true ↔ st.buf.len ≠ c := by
  rw [Ne, ← h.atCapacity_iff, room, Bool.not_eq_true', Bool.not_eq_true]

private theorem pushBack (h : st.Capped c) (hroom : st.room = true) (v : T) (id : UInt64) :
    { st with buf := st.buf.pushBack v, id := id }.Capped c := by
  have hne := h.room_iff.mp hroom
  have hle := h.atMost
  have hlen : (st.buf.pushBack v).len = st.buf.len + 1 := by
    simp [VecDeque.len]
  refine ⟨⟨h.fixed.1, ?_⟩, ?_⟩
  · show max st.buf.capacity (st.buf.len + 1) = c
    have hcap := h.fixed.2
    omega
  · show (st.buf.pushBack v).len ≤ c
    omega

private theorem popFront (h : st.Capped c) {v : T} {buf : VecDeque T}
    (hv : st.buf.popFront = some (v, buf)) : { st with buf := buf }.Capped c := by
  obtain ⟨hitems, hcap⟩ := VecDeque.popFront_eq_some hv
  have hle := h.atMost
  rw [VecDeque.len, hitems, List.length_cons] at hle
  exact ⟨⟨h.fixed.1, hcap.trans h.fixed.2⟩, Nat.le_of_succ_le hle⟩

end ReceiverState.Capped

section Steps

variable [Target] [Layout T] {s t u : Sys T W} {c : Nat}

private theorem Capped.map (h : Capped c s) {b b' : Inner T W} (hb : s.inner = some b)
    (ht : t.inner = some b') (hc : b'.value.capacity = b.value.capacity)
    {g : Nat → ReceiverState T W → ReceiverState T W}
    (hr : b'.value.receivers = b.value.receivers.map g)
    (hg : ∀ k st, b.value.receivers.get? k = some st → st.Capped c → (g k st).Capped c) :
    Capped c t := by
  constructor
  · intro x hx
    cases ht.symm.trans hx
    rw [hc]
    exact h.made b hb
  · intro x hx k st hst
    cases ht.symm.trans hx
    rw [hr, Slab.get?_map, Option.map_eq_some_iff] at hst
    obtain ⟨old, hold, rfl⟩ := hst
    exact hg k old hold (h.seats b hb k old hold)

private theorem Capped.tryPass (h : Capped c s) {b : Inner T W} (hb : s.inner = some b) {v : T}
    (ht : t.inner = some { b with value := { (bumpMessageId b.value) with
      receivers := (tryPass { b with value := bumpMessageId b.value } v).2 } }) : Capped c t := by
  refine h.map hb ht rfl (tryPass_pass _ v).slab ?_
  intro k st _ hst
  show (if st.room then { st with buf := st.buf.pushBack v } else st).Capped c
  split
  · next hroom => exact hst.pushBack hroom v st.id
  · exact hst

private theorem Capped.sendPass (h : Capped c s) {b b' : Inner T W} (hb : s.inner = some b) {v : T}
    (ht : t.inner = some { b' with value := { b'.value with receivers := (sendPass b' v).2 } })
    (hr : b'.value.receivers = b.value.receivers) (hc : b'.value.capacity = b.value.capacity) :
    Capped c t := by
  refine h.map hb ht hc ((sendPass_pass b' v).slab.trans (by rw [hr])) ?_
  intro k st _ hst
  split
  · next hgets =>
    rw [ReceiverState.gets, Bool.and_eq_true] at hgets
    exact hst.pushBack hgets.2 v b'.value.id
  · exact hst

private theorem Capped.same (h : Capped c s) (ht : t.inner = s.inner) : Capped c t := by
  constructor
  · intro b hb
    exact h.made b (ht.symm.trans hb)
  · intro b hb
    exact h.seats b (ht.symm.trans hb)

private theorem Capped.resumed (h : Capped c s) {v : T} (hu : s.Resumed v u) : Capped c u := by
  rcases hu with ⟨-, rfl⟩ | ⟨-, b, hb, rfl⟩
  · exact h
  · constructor
    · rintro _ ⟨⟩
      exact h.made b hb
    · rintro _ ⟨⟩
      exact h.seats b hb

private theorem Capped.setReceiver (h : Capped c s) {b : Inner T W} (hb : s.inner = some b)
    {k : Nat} {st : ReceiverState T W} (ht : t.inner = some (setState b k st)) (hst : st.Capped c) :
    Capped c t := by
  refine h.map (g := fun j old => if j = k then st else old) hb ht rfl rfl ?_
  intro j old _ hold
  split
  · exact hst
  · exact hold

variable [Waker W]

/-- Every move keeps the bounds. -/
theorem Capped.move (h : Capped c s) {op : Op T W} {out : Out T} (m : Move s op out t) :
    Capped c t := by
  cases m with
  | ignored => exact h
  | send | cancelSend | recv | cancelRecv => exact h.same rfl
  | sentNone hu => exact (h.resumed hu).same rfl
  | @subscribe b key hb hs hk hm =>
    constructor
    · rintro _ ⟨⟩
      exact h.made b hb
    · rintro _ ⟨⟩ k st hst
      obtain ⟨n, hn, hcap⟩ := h.made b hb
      simp only [newReceiver, hn, Slab.get?_insert] at hst
      split at hst
      · cases hst
        exact ⟨⟨rfl, hcap⟩, Nat.zero_le _⟩
      · exact h.seats b hb k st hst
  | trySent hb hs hc hall | tryShort hb hs hc hall =>
    subst hc
    exact h.tryPass hb rfl
  | sent hu hb hc hall | sendPark hu hb hc hall =>
    subst hc
    exact (h.resumed hu).sendPass hb rfl rfl rfl
  | @received b i r st v buf w hb hr hf hst hv =>
    exact h.setReceiver hb rfl ((h.seats b hb _ st hst).popFront hv)
  | @recvEnd b i r st w hb hr hf hst hv hs | @recvPark b i r st w hb hr hf hst hv hs =>
    have hcap := h.seats b hb _ st hst
    exact h.setReceiver hb rfl ⟨hcap.fixed, hcap.atMost⟩
  | @dropSender b hb hs =>
    by_cases hr : s.receivers = []
    · constructor
      · intro x hx
        simp [Sys.put, hr] at hx
      · intro x hx
        simp [Sys.put, hr] at hx
    · refine h.map (g := fun _ st => { st with waker := none }) hb (if_neg hr) rfl rfl ?_
      intro k st _ hst
      exact ⟨hst.fixed, hst.atMost⟩
  | @dropReceiver b i r hb hr hf =>
    constructor
    · intro x hx
      simp only [Sys.put] at hx
      split at hx
      · cases hx
      · cases hx
        exact h.made b hb
    · intro x hx k st hst
      simp only [Sys.put] at hx
      split at hx
      · cases hx
      · cases hx
        rw [Slab.get?_remove] at hst
        split at hst
        · cases hst
        · exact h.seats b hb k st hst

omit [Target] [Layout T] [Waker W] in
private theorem passed_of_pass {b b' : Inner T W} {slab : Slab (ReceiverState T W)}
    {counts pushes : ReceiverState T W → Bool} {change : ReceiverState T W → ReceiverState T W}
    {pass : Delivery W × Slab (ReceiverState T W)} (loop : Pass slab counts pushes change pass)
    (hs : slab = b.value.receivers) (hr : b'.value.receivers = pass.2) {key : Nat} {v : T}
    {skip : ReceiverState T W → Prop} [DecidablePred skip]
    (hchange : ∀ st, b.value.receivers.get? key = some st →
      (change st).buf.items = if skip st then st.buf.items else st.buf.items ++ [v]) :
    Passed b b' key v skip := by
  intro st hst
  refine ⟨change st, ?_, hchange st hst⟩
  rw [hr, loop.get?, hs, hst, Option.map_some]

/-- The buffers are bounded in `try_send`. -/
theorem Capped.trySend (hi : Inv s) (h : Capped c s) (hs : s.senderFree = true) (v : T) :
    ∃ b b' result t, s.inner = some b ∧
      s.step (.trySend v) = .ok (.trySent result, t) ∧ t.inner = some b' ∧
      (∀ r ∈ s.receivers, Passed b b' r.index v fun st => st.buf.len = c) ∧
      ((∃ e, result = .error e) ↔ ∃ r ∈ s.receivers, ∃ st,
        b.value.receivers.get? r.index = some st ∧ st.buf.len = c) := by
  obtain ⟨b, hb, -⟩ := access_of_alive hi (Or.inl (senderFree_iff.mp hs).1)
  have loop := tryPass_pass { b with value := bumpMessageId b.value } v
  have hstep := hi.trySend_step hb rfl v
  refine ⟨b, _, _, _, hb, by rw [Sys.step, if_pos hs, hstep], rfl, ?_, ?_⟩
  · intro r hr
    apply passed_of_pass loop rfl rfl
    intro st hst
    by_cases hfull : st.buf.len = c
    · have hroom : ¬st.room = true := fun hn => (h.seats b hb _ st hst).room_iff.mp hn hfull
      rw [if_neg hroom, if_pos hfull]
    · rw [if_pos ((h.seats b hb _ st hst).room_iff.mpr hfull), if_neg hfull]
      rfl
  · have hshort := loop.short_iff hi hb rfl
    have hfull : ∀ k st, b.value.receivers.get? k = some st →
        (st.room = false ↔ st.buf.len = c) := by
      intro k st hst
      rw [← Bool.not_eq_true, (h.seats b hb k st hst).room_iff, Decidable.not_not]
    have herror : ∀ {P : Prop} [Decidable P] (n : Nat) (e : UnderCapacity),
        (∃ e', (if P then Except.ok n else .error e) = .error e') ↔ ¬P := by
      intro P _ n e
      by_cases hp : P
      · simp [hp]
      · simp [hp]
    rw [herror, ← Ne, hshort]
    constructor
    · rintro ⟨r, hr, st, hst, hroom⟩
      exact ⟨r, hr, st, hst, (hfull _ st hst).mp hroom⟩
    · rintro ⟨r, hr, st, hst, hlen⟩
      exact ⟨r, hr, st, hst, (hfull _ st hst).mpr hlen⟩

private theorem Inv.resume_step (hi : Inv s) {future : Sending T} (hf : s.sending = some future)
    (w : W) : ∃ b b' u, s.inner = some b ∧ u.inner = some b' ∧ s.Resumed future.value u ∧
      b'.value.id = future.id b.value ∧ b'.value.receivers = b.value.receivers ∧
      s.step (.pollSend w) = u.pollSend future.value w := by
  obtain ⟨b, hb, -⟩ := access_of_alive hi (Or.inl (hi.sendAlive (by rw [hf]; rfl)))
  cases future with
  | unresumed v =>
    have hu : s.Resumed v { s.begin { b with value := bumpMessageId b.value } v with
      sending := some (.suspended v) } := Or.inr ⟨hf, b, hb, rfl⟩
    exact ⟨b, { b with value := bumpMessageId b.value }, _, hb, rfl, hu, rfl, rfl, hu.step_eq w⟩
  | suspended v =>
    have hu : s.Resumed v s := Or.inl ⟨hf, rfl⟩
    exact ⟨b, b, s, hb, hb, hu, rfl, rfl, hu.step_eq w⟩

/-- The buffers are bounded in a poll of `send`. -/
theorem Capped.send (hi : Inv s) (h : Capped c s) {future : Sending T}
    (hf : s.sending = some future) (w : W) :
    ∃ b b' out t, s.inner = some b ∧ s.step (.pollSend w) = .ok (out, t) ∧ t.inner = some b' ∧
      (∀ r ∈ s.receivers, Passed b b' r.index future.value fun st =>
        st.id = future.id b.value ∨ st.buf.len = c) ∧
      (out = .pending ↔ ∃ r ∈ s.receivers, ∃ st, b.value.receivers.get? r.index = some st ∧
        st.id ≠ future.id b.value ∧ st.buf.len = c) := by
  obtain ⟨b, b', u, hb, hu, hres, hid, hreceivers, hstep⟩ := hi.resume_step hf w
  obtain ⟨hiu, -, hsame, -⟩ := hi.resumed hres
  obtain ⟨x, hx⟩ : ∃ x : Inner T W,
      x = { b' with value := { b'.value with sender := register b'.value.sender w } } := ⟨_, rfl⟩
  have hxid : x.value.id = future.id b.value := by rw [hx, ← hid]
  have hxr : x.value.receivers = b.value.receivers := by rw [hx, ← hreceivers]
  have loop := sendPass_pass x future.value
  have hpassed : ∀ (y : Inner T W), y.value.receivers = (Broadcast.sendPass x future.value).2 →
      ∀ r ∈ s.receivers, Passed b y r.index future.value fun st =>
        st.id = future.id b.value ∨ st.buf.len = c := by
    intro y hy r hr
    apply passed_of_pass loop hxr hy
    intro st hst
    have hroom := (h.seats b hb _ st hst).room_iff
    have hgets : st.gets x.value.id = true ↔ ¬(st.id = future.id b.value ∨ st.buf.len = c) := by
      rw [ReceiverState.gets, Bool.and_eq_true, hroom, bne_iff_ne, hxid, not_or]
    by_cases hskip : st.id = future.id b.value ∨ st.buf.len = c
    · rw [if_neg fun hn => hgets.mp hn hskip, if_pos hskip]
    · rw [if_pos (hgets.mpr hskip), if_neg hskip]
      rfl
  have hwaits : ∀ r ∈ s.receivers, ∀ st, b.value.receivers.get? r.index = some st →
      ((st.id == x.value.id || st.room) = false ↔
        st.id ≠ future.id b.value ∧ st.buf.len = c) := by
    intro r hr st hst
    rw [Bool.or_eq_false_iff, beq_eq_false_iff_ne, hxid, ← Bool.not_eq_true st.room,
      (h.seats b hb _ st hst).room_iff, Decidable.not_not]
  by_cases hnone : s.receivers = []
  · refine ⟨b, b', _, _, hb, hstep.trans (hiu.pollSend_nil hu (hsame.trans hnone) _ w), hu, ?_, ?_⟩
    · rw [hnone]
      intro r hr
      cases hr
    · simp [hnone]
  · have hpoll := hiu.pollSend_step hu hx (by rwa [hsame]) future.value
    have hshort := loop.short_iff hi hb hxr
    rw [hsame] at hpoll
    by_cases hall : (Broadcast.sendPass x future.value).1.delivered = s.receivers.length
    · rw [if_pos hall] at hpoll
      refine ⟨b, _, _, _, hb, hstep.trans hpoll, rfl, hpassed _ rfl, ?_⟩
      constructor
      · intro hn
        cases hn
      · rintro ⟨r, hr, st, hst, hwait⟩
        exact absurd hall (hshort.mpr ⟨r, hr, st, hst, (hwaits r hr st hst).mpr hwait⟩)
    · rw [if_neg hall] at hpoll
      refine ⟨b, _, _, _, hb, hstep.trans hpoll, rfl, hpassed _ rfl, ?_⟩
      obtain ⟨r, hr, st, hst, hwait⟩ := hshort.mp hall
      exact ⟨fun _ => ⟨r, hr, st, hst, (hwaits r hr st hst).mp hwait⟩, fun _ => rfl⟩

private theorem Capped.boundedBy (hi : Inv s) (h : Capped c s) : BoundedBy c s :=
  ⟨fun b hb r _ st hst => (h.seats b hb r.index st hst).atMost, h.trySend hi,
    fun _ hf => h.send hi hf⟩

omit [Waker W] in
/-- A new bounded channel. -/
theorem Capped.new {m : Nat} (h0 : 0 < c)
    (hm : (VecDeque.withCapacity c : VecDeque T).capacity = m) :
    Capped m (Sys.new (Setup.bounded c).create : Sys T W) := by
  have hcreate : ((Setup.bounded c).create : Option (Inner T W)) =
      some (.new ⟨0, none, .empty, some ⟨c, h0⟩⟩) := by
    rw [Setup.create, channel, dif_pos h0]
  constructor
  · intro b hb
    simp only [Sys.new, hcreate] at hb
    cases hb
    exact ⟨_, rfl, hm⟩
  · intro b hb k st hst
    simp only [Sys.new, hcreate] at hb
    cases hb
    cases hst

/-- The entry under a key holds so many messages, and the sender can be used. -/
structure Seated (c key n : Nat) (s : Sys T W) : Prop where
  inv : Inv s
  capped : Capped c s
  free : s.senderFree = true
  seat : ∃ b st, s.inner = some b ∧ b.value.receivers.get? key = some st ∧ st.buf.len = n

private theorem Seated.more {key n : Nat} (h : Seated c key n s) (hn : n < c) (v : T) :
    ∃ out t, s.step (.trySend v) = .ok (out, t) ∧ Seated c key (n + 1) t := by
  obtain ⟨b, st, hb, hst, hlen⟩ := h.seat
  have hfirst : s.step (.trySend v) = s.trySend v := if_pos h.free
  have hstep := hfirst.trans (h.inv.trySend_step hb rfl v)
  obtain ⟨out, t, ht, m, hi⟩ := h.inv.step (.trySend v)
  have hc := h.capped.move m
  cases hstep.symm.trans ht
  have hroom : st.room = true := by
    rw [(h.capped.seats b hb key st hst).room_iff]
    omega
  have hget := (tryPass_pass { b with value := bumpMessageId b.value } v).get? key
  have hsame : (bumpMessageId b.value).receivers.get? key = some st := hst
  rw [hsame, Option.map_some, if_pos hroom] at hget
  refine ⟨_, _, hstep, hi, hc, h.free, _, _, rfl, hget, ?_⟩
  simp [VecDeque.len, ← hlen]

private theorem Seated.fill {key n m : Nat} (h : Seated c key n s) (hn : n + m ≤ c) (v : T) :
    ∃ outs t, run Sys.step s (List.replicate m (.trySend v)) = .ok (outs, t) ∧
      Seated c key (n + m) t := by
  induction m generalizing n s with
  | zero => exact ⟨[], s, rfl, h⟩
  | succ m ih =>
    obtain ⟨out, t, hstep, ht⟩ := h.more (by omega) v
    obtain ⟨outs, u, hrun, hu⟩ := ih ht (by omega)
    refine ⟨out :: outs, u, run_cons hstep hrun, ?_⟩
    rwa [Nat.add_right_comm, Nat.add_assoc] at hu

private theorem Seated.subscribed {m : Nat} (h0 : 0 < c)
    (hm : (VecDeque.withCapacity c : VecDeque T).capacity = m) (hmax : 0 < usizeMax) :
    ∃ out t, (Sys.new (Setup.bounded c).create : Sys T W).step (.subscribe 0) = .ok (out, t) ∧
      Seated m 0 0 t := by
  have hcreate : ((Setup.bounded c).create : Option (Inner T W)) =
      some (.new ⟨0, none, .empty, some ⟨c, h0⟩⟩) := by
    rw [Setup.create, channel, dif_pos h0]
  have hi : Inv (Sys.new (Setup.bounded c).create : Sys T W) := .new _
  have hfree : (Sys.new (Setup.bounded c).create : Sys T W).senderFree = true := by
    rw [hcreate]
    rfl
  have hfirst : (Sys.new (Setup.bounded c).create : Sys T W).step (.subscribe 0) =
      (Sys.new (Setup.bounded c).create : Sys T W).subscribe 0 := if_pos hfree
  have hstep := hfirst.trans (hi.subscribe_step hcreate List.not_mem_nil hmax)
  obtain ⟨out, t, ht, m, hit⟩ := hi.step (.subscribe 0)
  have hc := (Capped.new h0 hm).move m
  cases hstep.symm.trans ht
  exact ⟨_, _, hstep, hit, hc, hfree, _, _, rfl, (Slab.get?_insert _ 0 0 _).trans (if_pos rfl), rfl⟩

/-- A bounded channel bounds the buffers of its receivers by its capacity, unless its messages
take no space and there is a count of them beyond the capacity. -/
theorem channel_boundedBy_iff (h0 : 0 < c) (hc : c ≤ usizeMax) :
    (∀ ops : List (Op T W), ∃ outs s,
      run Sys.step (Sys.new (Setup.bounded c).create) ops = .ok (outs, s) ∧ BoundedBy c s) ↔
      Layout.zeroSized T = false ∨ c = usizeMax ∨ IsEmpty T := by
  have hnew : Inv (Sys.new (Setup.bounded c).create : Sys T W) := .new _
  constructor
  · intro hall
    by_contra hno
    simp only [not_or, not_isEmpty_iff, Bool.not_eq_false] at hno
    obtain ⟨hz, hne, ⟨v⟩⟩ := hno
    -- the queue of a receiver takes one message more than the channel was made for
    obtain ⟨out, s, hstep, hs⟩ := Seated.subscribed (T := T) (W := W) h0
      (VecDeque.withCapacity_zeroSized hz) (by omega)
    obtain ⟨outs, t, hrun, hi, -, -, b, st, hb, hst, hlen⟩ := hs.fill (m := c + 1) (by omega) v
    obtain ⟨outs', t', hrun', hbound⟩ := hall (.subscribe 0 :: List.replicate (c + 1) (.trySend v))
    cases (run_cons hstep hrun).symm.trans hrun'
    have hkey : 0 ∈ t.receivers.map Receiver.index :=
      (hi.keys b hb).mem_iff.mpr (Slab.mem_keys.mpr ⟨st, hst⟩)
    obtain ⟨r, hr, hindex⟩ := List.mem_map.mp hkey
    have hle := hbound.atMost b hb r hr st (by rw [hindex, hst])
    omega
  · intro hcond ops
    by_cases hexact : Layout.zeroSized T = false ∨ c = usizeMax
    · have hstep : ∀ (s : Sys T W) op, (Inv s ∧ Capped c s) →
          ∃ out t, s.step op = .ok (out, t) ∧ Inv t ∧ Capped c t := by
        rintro s op ⟨hi, h⟩
        obtain ⟨out, t, ht, m, hit⟩ := hi.step op
        exact ⟨out, t, ht, hit, h.move m⟩
      obtain ⟨outs, s, hrun, hi, h⟩ := run_invariant (I := fun s => Inv s ∧ Capped c s) hstep
        ⟨hnew, .new h0 (VecDeque.withCapacity_capacity hexact)⟩ ops
      exact ⟨outs, s, hrun, h.boundedBy hi⟩
    · have hempty : IsEmpty T := by
        rw [not_or] at hexact
        rcases hcond with hz | he | hempty
        · exact absurd hz hexact.1
        · exact absurd he hexact.2
        · exact hempty
      have hstep : ∀ (s : Sys T W) op, Inv s → ∃ out t, s.step op = .ok (out, t) ∧ Inv t := by
        intro s op hi
        obtain ⟨out, t, ht, -, hit⟩ := hi.step op
        exact ⟨out, t, ht, hit⟩
      obtain ⟨outs, s, hrun, hi⟩ := run_invariant hstep hnew ops
      refine ⟨outs, s, hrun, ?_, ?_, ?_⟩
      · intro b hb r hr st hst
        rw [VecDeque.len, Subsingleton.elim st.buf.items []]
        exact Nat.zero_le c
      · intro hs v
        exact hempty.elim v
      · intro future hf w
        exact hempty.elim future.value

end Steps

end Broadcast
end Unsync
