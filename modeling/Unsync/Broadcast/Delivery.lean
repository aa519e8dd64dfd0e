import Unsync.Broadcast.Pass

/-!
# Ordered, complete delivery

Every receiver is given the messages sent after it subscribed at most once and in order, and
what it received followed by its buffer is what it was given. While a `send` is polled
again, the id stamped on a receiver tells whether it has the message.
-/

namespace Unsync
namespace Broadcast

open Runs

variable {T W : Type}

/-- The positions of the messages appended to the buffer. -/
def Log.positions (log : Log T) : List Nat := log.pushed.map Prod.fst

/-- The messages appended to the buffer. -/
def Log.messages (log : Log T) : List T := log.pushed.map Prod.snd

/-- The receiver was given messages sent after it subscribed, in order and each once. -/
structure Log.Sound (log : Log T) (sent : List T) : Prop where
  since : log.since ≤ sent.length
  increasing : log.positions.Pairwise (· < ·)
  genuine : ∀ p ∈ log.pushed, log.since ≤ p.1 ∧ sent[p.1]? = some p.2

namespace Log.Sound

variable {log : Log T} {sent : List T}

/-- What was given was sent. -/
theorem lt_length (h : log.Sound sent) {n : Nat} (hn : n ∈ log.positions) : n < sent.length := by
  obtain ⟨p, hp, rfl⟩ := List.mem_map.mp hn
  exact (List.getElem?_eq_some_iff.mp (h.genuine p hp).2).1

private theorem append (h : log.Sound sent) (v : T) : log.Sound (sent ++ [v]) := by
  refine ⟨?_, h.increasing, ?_⟩
  · rw [List.length_append]
    exact Nat.le_add_right_of_le h.since
  · intro p hp
    obtain ⟨hsince, hget⟩ := h.genuine p hp
    have hlt := (List.getElem?_eq_some_iff.mp hget).1
    exact ⟨hsince, by rw [List.getElem?_append_left hlt, hget]⟩

private theorem push (h : log.Sound sent) {v : T} (hlast : sent.getLast? = some v)
    (hsince : log.since < sent.length) (hnew : sent.length - 1 ∉ log.positions) :
    (log.push (sent.length - 1) v 1).Sound sent := by
  refine ⟨h.since, ?_, ?_⟩
  · simp only [positions, Log.push, List.map_append, List.replicate_one, List.map_singleton]
    refine List.pairwise_append.mpr ⟨h.increasing, List.pairwise_singleton _ _, ?_⟩
    intro n hn m hm
    rw [List.mem_singleton.mp hm]
    have hlt := h.lt_length hn
    have hne : n ≠ sent.length - 1 := fun he => hnew (he ▸ hn)
    omega
  · intro p hp
    rcases List.mem_append.mp hp with hp | hp
    · exact h.genuine p hp
    · rw [List.replicate_one, List.mem_singleton] at hp
      rw [hp]
      exact ⟨Nat.le_sub_one_of_lt hsince, by rw [← hlast, List.getLast?_eq_getElem?]⟩

private theorem count_eq_one (h : log.Sound sent) {n : Nat} (hn : n ∈ log.positions) :
    log.positions.count n = 1 :=
  List.count_eq_one_of_mem (h.increasing.imp Nat.ne_of_lt) hn

end Log.Sound

/-- Nothing was appended. -/
@[simp] theorem Log.push_zero (log : Log T) (n : Nat) (v : T) : log.push n v 0 = log := by
  simp [Log.push]

/-- A receiver and its entry: what was received and what is buffered is what was given. While
a message is under way, the stamped id tells whether the receiver has it. -/
structure Tracks (sent : List T) (underWay : Prop) (log : Log T) (st : ReceiverState T W) :
    Prop where
  sound : log.Sound sent
  order : log.received ++ st.buf.items = log.messages
  stamped : st.id.toNat ≤ sent.length
  subscribed : underWay → log.since < sent.length
  holds : underWay → (st.id.toNat = sent.length ↔ sent.length - 1 ∈ log.positions)

namespace Tracks

variable {sent : List T} {c c' : Prop} {log : Log T} {st st' : ReceiverState T W}

private theorem weaken (h : Tracks sent c log st) (hc : c' → c) : Tracks sent c' log st :=
  ⟨h.sound, h.order, h.stamped, fun h' => h.subscribed (hc h'), fun h' => h.holds (hc h')⟩

private theorem keep (h : Tracks sent c log st) (hi : st'.id = st.id) (hb : st'.buf = st.buf) :
    Tracks sent c log st' :=
  ⟨h.sound, by rw [hb]; exact h.order, by rw [hi]; exact h.stamped, h.subscribed,
    by rw [hi]; exact h.holds⟩

private theorem begin (h : Tracks sent c log st) (v : T) : Tracks (sent ++ [v]) True log st := by
  have hlen : (sent ++ [v]).length = sent.length + 1 := List.length_append
  have hst := h.stamped
  have hsince := h.sound.since
  refine ⟨h.sound.append v, h.order, by omega, fun _ => by omega, fun _ => ?_⟩
  constructor
  · intro hid
    omega
  · intro hin
    have hlt := h.sound.lt_length hin
    omega

private theorem push (h : Tracks sent True log st) {v : T} (hlast : sent.getLast? = some v)
    (hmiss : st.id.toNat ≠ sent.length) (hbuf : st'.buf = st.buf.pushBack v)
    (hid : st'.id = st.id ∧ ¬c ∨ st'.id.toNat = sent.length) :
    Tracks sent c (log.push (sent.length - 1) v 1) st' := by
  have hsince := h.subscribed trivial
  have hnew : sent.length - 1 ∉ log.positions := fun hin => hmiss ((h.holds trivial).mpr hin)
  have hin : sent.length - 1 ∈ (log.push (sent.length - 1) v 1).positions := by
    simp [Log.positions, Log.push]
  refine ⟨h.sound.push hlast hsince hnew, ?_, ?_, fun _ => hsince, ?_⟩
  · rw [hbuf, VecDeque.pushBack_items, ← List.append_assoc]
    show (log.received ++ st.buf.items) ++ [v] = _
    rw [h.order]
    simp [Log.messages, Log.push]
  · rcases hid with ⟨he, -⟩ | he
    · rw [he]
      exact h.stamped
    · exact Nat.le_of_eq he
  · intro hc
    rcases hid with ⟨-, hno⟩ | he
    · exact absurd hc hno
    · exact ⟨fun _ => hin, fun _ => he⟩

private theorem receive (h : Tracks sent c log st) {v : T} {buf : VecDeque T}
    (hv : st.buf.popFront = some (v, buf)) :
    Tracks sent c { log with received := log.received ++ [v] } { st with buf := buf } := by
  obtain ⟨hitems, -⟩ := VecDeque.popFront_eq_some hv
  refine ⟨⟨h.sound.since, h.sound.increasing, h.sound.genuine⟩, ?_, h.stamped, h.subscribed,
    h.holds⟩
  have ho := h.order
  rw [hitems, List.append_cons] at ho
  exact ho

end Tracks

/-- A future of `send` was polled and is not finished. -/
def Sys.Suspended (s : Sys T W) : Prop := ∃ v, s.sending = some (.suspended v)

/-- What happened to a receiver is in order: `recv` resolves to `None` only at the end. -/
structure Log.InOrder (log : Log T) (sent : List T) (sender : Bool) : Prop where
  sound : log.Sound sent
  delivered : log.received <+: log.messages
  ended : log.ended = true → sender = false ∧ log.received = log.messages

/-- The channel delivers in order. -/
structure Ordered (s : Sys T W) : Prop where
  ids : ∀ b, s.inner = some b → b.value.id.toNat = s.sent.length
  current : ∀ v, s.sending = some (.suspended v) → s.sent.getLast? = some v
  tracked : ∀ b, s.inner = some b → ∀ r ∈ s.receivers, ∀ st,
    b.value.receivers.get? r.index = some st → Tracks s.sent s.Suspended r.log st
  ended : ∀ r ∈ s.receivers, r.log.ended = true →
    s.sender = false ∧ r.log.received = r.log.messages
  retired : ∀ log ∈ s.retired, log.InOrder s.sent s.sender

/-- What an operation leaves alone that sends nothing and takes nothing out of a buffer: ids and
buffers, what happened to receivers, and the message under way. -/
structure Quiet (s t : Sys T W) : Prop where
  inner : ∀ d, t.inner = some d → ∃ b, s.inner = some b ∧ d.value.id = b.value.id ∧
    ∀ k st', d.value.receivers.get? k = some st' →
      ∃ st, b.value.receivers.get? k = some st ∧ st'.id = st.id ∧ st'.buf = st.buf
  receivers : ∀ x ∈ t.receivers, ∃ r ∈ s.receivers, r.index = x.index ∧ r.log = x.log
  sending : ∀ v, t.sending = some (.suspended v) → s.sending = some (.suspended v)
  sent : t.sent = s.sent
  sender : s.sender = false → t.sender = false

/-- The operations that send nothing and take nothing out of a buffer, other than `subscribe`. -/
def Op.quiet : Op T W → Bool
  | .send _ | .cancelSend | .recv _ | .cancelRecv _ | .dropSender | .dropReceiver _ => true
  | _ => false

section Steps

variable [Target] {s t u : Sys T W}

/-- What happened to a live receiver is in order. -/
theorem Ordered.inOrder (h : Ordered s) (hi : Inv s) {r : Receiver T W} (hr : r ∈ s.receivers) :
    r.log.InOrder s.sent s.sender := by
  obtain ⟨b, hb, -⟩ := access_of_alive hi (Or.inr (List.ne_nil_of_mem hr))
  obtain ⟨st, hst⟩ := hi.entry hb hr
  have ht := h.tracked b hb r hr st hst
  exact ⟨ht.sound, ⟨_, ht.order⟩, h.ended r hr⟩

omit [Target] in
/-- A change at one position leaves the other receivers. -/
theorem mem_setReceiver {l : List (Receiver T W)} {i : Nat} {r r' x : Receiver T W}
    (hr : l[i]? = some r) (hx : x ∈ l.set i r') : x = r' ∨ x ∈ l.eraseIdx i := by
  obtain ⟨hlt, -⟩ := List.getElem?_eq_some_iff.mp hr
  exact List.mem_cons.mp ((List.set_perm_cons_eraseIdx hlt r').subset hx)

omit [Target] in
/-- What does not touch the interior, and changes no more of a receiver than whether a future
borrows it. -/
private theorem Quiet.of_inner (hinner : t.inner = s.inner)
    (hreceivers : ∀ x ∈ t.receivers, ∃ r ∈ s.receivers, r.index = x.index ∧ r.log = x.log)
    (hsending : ∀ v, t.sending = some (.suspended v) → s.sending = some (.suspended v))
    (hsent : t.sent = s.sent) (hsender : t.sender = s.sender) : Quiet s t := by
  refine ⟨?_, hreceivers, hsending, hsent, fun hs => hsender.trans hs⟩
  intro d hd
  exact ⟨d, hinner ▸ hd, rfl, fun k st hst => ⟨st, hst, rfl, rfl⟩⟩

omit [Target] in
private theorem Quiet.endSend (s : Sys T W) : Quiet s s.endSend :=
  .of_inner rfl (fun x hx => ⟨x, hx, rfl, rfl⟩) (fun v hv => by cases hv) rfl rfl

/-- The moves of the quiet operations. -/
theorem Move.quiet [Layout T] [Waker W] {op : Op T W} {out : Out T} (m : Move s op out t)
    (h : op.quiet = true) : Quiet s t := by
  cases m with
  | ignored => exact .of_inner rfl (fun x hx => ⟨x, hx, rfl, rfl⟩) (fun v hv => hv) rfl rfl
  | send hs => exact .of_inner rfl (fun x hx => ⟨x, hx, rfl, rfl⟩) (fun v hv => by cases hv) rfl rfl
  | cancelSend hs => exact .endSend s
  | @recv i r hr hf | @cancelRecv i r hr hf =>
    refine .of_inner rfl ?_ (fun v hv => hv) rfl rfl
    intro x hx
    rcases mem_setReceiver hr hx with rfl | hx
    · exact ⟨r, List.mem_of_getElem? hr, rfl, rfl⟩
    · exact ⟨x, List.mem_of_mem_eraseIdx hx, rfl, rfl⟩
  | @dropSender b hb hs =>
    refine ⟨?_, fun x hx => ⟨x, hx, rfl, rfl⟩, fun v hv => hv, rfl, fun _ => rfl⟩
    intro d hd
    simp only [Sys.put] at hd
    split at hd
    · cases hd
    · rw [← Option.some.inj hd]
      refine ⟨b, hb, rfl, fun k st' hst' => ?_⟩
      rw [Slab.get?_map, Option.map_eq_some_iff] at hst'
      obtain ⟨st, hst, rfl⟩ := hst'
      exact ⟨st, hst, rfl, rfl⟩
  | @dropReceiver b i r hb hr hf =>
    refine ⟨?_, fun x hx => ⟨x, List.mem_of_mem_eraseIdx hx, rfl, rfl⟩, fun v hv => hv, rfl, id⟩
    intro d hd
    simp only [Sys.put] at hd
    split at hd
    · cases hd
    · rw [← Option.some.inj hd]
      refine ⟨b, hb, rfl, fun k st' hst' => ?_⟩
      rw [Slab.get?_remove] at hst'
      split at hst'
      · cases hst'
      · exact ⟨st', hst', rfl, rfl⟩
  | _ => cases h

omit [Target] in
/-- Quiet operations keep the channel delivering in order. -/
theorem Ordered.keep (h : Ordered s) (q : Quiet s t)
    (hretired : ∀ log ∈ t.retired, log.InOrder s.sent s.sender) : Ordered t := by
  refine ⟨?_, ?_, ?_, ?_, ?_⟩
  · intro d hd
    obtain ⟨b, hb, hid, -⟩ := q.inner d hd
    rw [hid, q.sent]
    exact h.ids b hb
  · intro v hv
    rw [q.sent]
    exact h.current v (q.sending v hv)
  · intro d hd x hx st' hst'
    obtain ⟨b, hb, -, hentry⟩ := q.inner d hd
    obtain ⟨r, hr, hindex, hlog⟩ := q.receivers x hx
    obtain ⟨st, hst, hid, hbuf⟩ := hentry _ st' hst'
    have htracks := h.tracked b hb r hr st (hindex ▸ hst)
    rw [hlog] at htracks
    rw [q.sent]
    refine (htracks.weaken ?_).keep hid hbuf
    rintro ⟨v, hv⟩
    exact ⟨v, q.sending v hv⟩
  · intro x hx he
    obtain ⟨r, hr, -, hlog⟩ := q.receivers x hx
    rw [← hlog] at he ⊢
    exact ⟨q.sender (h.ended r hr he).1, (h.ended r hr he).2⟩
  · intro log hlog
    have horder := hretired log hlog
    rw [q.sent]
    exact ⟨horder.sound, horder.delivered,
      fun he => ⟨q.sender (horder.ended he).1, (horder.ended he).2⟩⟩

/-- The other receivers have other entries. -/
theorem Inv.others (hi : Inv s) {b : Inner T W} (hb : s.inner = some b) {i : Nat}
    {r x : Receiver T W} (hr : s.receivers[i]? = some r) (hx : x ∈ s.receivers.eraseIdx i) :
    x ∈ s.receivers ∧ x.index ≠ r.index := by
  obtain ⟨hlt, he⟩ := List.getElem?_eq_some_iff.mp hr
  have hsplit := List.getElem_cons_eraseIdx_perm hlt
  rw [he] at hsplit
  have hd : ((r :: s.receivers.eraseIdx i).map Receiver.index).Nodup := by
    rw [(hsplit.map _).nodup_iff, (hi.keys b hb).nodup_iff]
    exact Slab.nodup_keys _
  rw [List.map_cons, List.nodup_cons] at hd
  refine ⟨hsplit.subset (List.mem_cons_of_mem _ hx), fun heq => hd.1 ?_⟩
  rw [← heq]
  exact List.mem_map_of_mem hx

/-- A receiver after a call of `subscribe` was there before, with its entry, or is the new one. -/
theorem Inv.subscribed (hi : Inv s) {b : Inner T W} (hb : s.inner = some b) {key : Nat}
    (hk : key ∉ b.value.receivers.keys) {r x : Receiver T W} (hr : r.index = key)
    {new st : ReceiverState T W} (hx : x ∈ s.receivers ++ [r])
    (hst : (b.value.receivers.insert key new).get? x.index = some st) :
    x ∈ s.receivers ∧ x.index ≠ key ∧ b.value.receivers.get? x.index = some st ∨
      x = r ∧ st = new := by
  rw [Slab.get?_insert] at hst
  rcases List.mem_append.mp hx with hx | hx
  · have hne : x.index ≠ key := by
      intro heq
      exact hk (heq ▸ Slab.mem_keys.mpr (hi.entry hb hx))
    rw [if_neg hne] at hst
    exact Or.inl ⟨hx, hne, hst⟩
  · rw [List.mem_singleton] at hx
    rw [hx, if_pos hr, Option.some.injEq] at hst
    exact Or.inr ⟨hx, hst.symm⟩

/-- A poll of `recv` changes one receiver and its entry. -/
theorem Ordered.setReceiver (h : Ordered s) (hi : Inv s) {b : Inner T W}
    (hb : s.inner = some b) {i : Nat} {r r' : Receiver T W} {st' : ReceiverState T W}
    (hr : s.receivers[i]? = some r) (hindex : r'.index = r.index)
    (ht : Tracks s.sent s.Suspended r'.log st')
    (hended : r'.log.ended = true → s.sender = false ∧ r'.log.received = r'.log.messages)
    (woken : List W) :
    Ordered ((s.put (some (setState b r.index st')) woken).setReceiver i r') := by
  refine ⟨?_, h.current, ?_, ?_, h.retired⟩
  · rintro _ ⟨⟩
    exact h.ids b hb
  · rintro _ ⟨⟩ x hx st hst
    have hget := Slab.get?_set b.value.receivers r.index x.index st'
    rcases mem_setReceiver hr hx with rfl | hx
    · rw [if_pos hindex] at hget
      obtain ⟨old, -, hst'⟩ := Option.map_eq_some_iff.mp (hget.symm.trans hst)
      rw [← hst']
      exact ht
    · obtain ⟨hmem, hne⟩ := hi.others hb hr hx
      rw [if_neg hne] at hget
      exact h.tracked b hb x hmem st (hget.symm.trans hst)
  · intro x hx he
    rcases mem_setReceiver hr hx with rfl | hx
    · exact hended he
    · exact h.ended x (hi.others hb hr hx).1 he

omit [Target] in
/-- Sending a message makes the ids of all receivers outdated. -/
theorem Ordered.begin (h : Ordered s) {b : Inner T W} (hb : s.inner = some b)
    (hs : s.sender = true) (hlt : s.sent.length + 1 < 2 ^ 64) (v : T) :
    Ordered { s.begin { b with value := bumpMessageId b.value } v with
      sending := some (.suspended v) } := by
  have hids := h.ids b hb
  have hbump : (bumpMessageId b.value).id.toNat = s.sent.length + 1 := by
    rw [bumpMessageId_toNat (by omega), hids]
  refine ⟨?_, ?_, ?_, ?_, ?_⟩
  · rintro _ ⟨⟩
    rw [hbump]
    simp [Sys.begin]
  · rintro _ ⟨⟩
    exact List.getLast?_concat
  · rintro _ ⟨⟩ r hr st hst
    exact ((h.tracked b hb r hr st hst).begin v).weaken fun _ => trivial
  · intro r hr he
    have hgone := (h.ended r hr he).1
    rw [hs] at hgone
    cases hgone
  · intro log hlog
    have horder := h.retired log hlog
    exact ⟨horder.sound.append v, horder.delivered, horder.ended⟩

/-! ### Delivering the message under way -/

/-- A loop over the receivers delivers the message under way: it appends it to buffers that
do not have it, and stamps the id where the `send` goes on. -/
structure Delivering (u : Sys T W) (v : T) (c : Inner T W) (sending : Option (Sending T))
    (counts pushes : ReceiverState T W → Bool) (change : ReceiverState T W → ReceiverState T W)
    (pass : Delivery W × Slab (ReceiverState T W)) : Prop where
  underWay : u.sending = some (.suspended v)
  sender : u.sender = true
  same : ∃ b, u.inner = some b ∧ c.value.id = b.value.id ∧
    c.value.receivers = b.value.receivers
  loop : Pass c.value.receivers counts pushes change pass
  missing : ∀ r ∈ u.receivers, ∀ st, c.value.receivers.get? r.index = some st →
    pushes st = true → st.id ≠ c.value.id
  pushed : ∀ st, pushes st = true → (change st).buf = st.buf.pushBack v ∧
    ((change st).id = st.id ∧ sending = none ∨ (change st).id = c.value.id)
  kept : ∀ st, pushes st = false → change st = st
  counted : ∀ st, counts st = true → pushes st = true ∨ st.id = c.value.id
  goesOn : sending = none ∨ sending = u.sending

namespace Delivering

variable {v : T} {c : Inner T W} {sending : Option (Sending T)}
  {counts pushes : ReceiverState T W → Bool} {change : ReceiverState T W → ReceiverState T W}
  {pass : Delivery W × Slab (ReceiverState T W)}

omit [Target] in
private theorem before (d : Delivering u v c sending counts pushes change pass) (h : Ordered u)
    {r : Receiver T W} (hr : r ∈ u.receivers) {st : ReceiverState T W}
    (hst : c.value.receivers.get? r.index = some st) :
    Tracks u.sent True r.log st ∧ c.value.id.toNat = u.sent.length := by
  obtain ⟨b, hb, hid, hreceivers⟩ := d.same
  rw [hreceivers] at hst
  refine ⟨(h.tracked b hb r hr st hst).weaken fun _ => ⟨v, d.underWay⟩, ?_⟩
  rw [hid]
  exact h.ids b hb

omit [Target] in
/-- Every receiver is in order after the loop. -/
theorem tracks (d : Delivering u v c sending counts pushes change pass) (h : Ordered u)
    {r : Receiver T W} (hr : r ∈ u.receivers) {st : ReceiverState T W}
    (hst : c.value.receivers.get? r.index = some st) :
    Tracks u.sent (∃ v', sending = some (.suspended v'))
      (r.log.push (u.sent.length - 1) v (pass.1.pushed.count r.index)) (change st) := by
  obtain ⟨ht, hid⟩ := d.before h hr hst
  rw [d.loop.count hst]
  cases hp : pushes st with
  | true =>
    obtain ⟨hbuf, hstamp⟩ := d.pushed st hp
    refine ht.push (h.current v d.underWay) ?_ hbuf ?_
    · intro heq
      exact d.missing r hr st hst hp (UInt64.toNat_inj.mp (heq.trans hid.symm))
    · rcases hstamp with ⟨he, hnone⟩ | he
      · refine Or.inl ⟨he, ?_⟩
        rintro ⟨v', hv'⟩
        rw [hnone] at hv'
        cases hv'
      · exact Or.inr (by rw [he, hid])
  | false =>
    rw [d.kept st hp, Bool.toNat_false, Log.push_zero]
    exact ht.weaken fun _ => trivial

omit [Target] in
/-- A receiver that the loop counted has the message. -/
theorem given (d : Delivering u v c sending counts pushes change pass) (h : Ordered u)
    {r : Receiver T W} (hr : r ∈ u.receivers) {st : ReceiverState T W}
    (hst : c.value.receivers.get? r.index = some st) (hc : counts st = true) :
    (r.log.push (u.sent.length - 1) v (pass.1.pushed.count r.index)).positions.count
      (u.sent.length - 1) = 1 := by
  refine (d.tracks h hr hst).sound.count_eq_one ?_
  obtain ⟨ht, hid⟩ := d.before h hr hst
  rw [d.loop.count hst]
  cases hp : pushes st with
  | true => simp [Log.positions, Log.push]
  | false =>
    rw [Bool.toNat_false, Log.push_zero]
    rcases d.counted st hc with hp' | heq
    · rw [hp] at hp'
      cases hp'
    · exact (ht.holds trivial).mp (by rw [heq, hid])

omit [Target] in
/-- The loop delivers in order. -/
theorem ordered (d : Delivering u v c sending counts pushes change pass) (h : Ordered u)
    (pending : Option (W × Nat)) :
    Ordered { u.deliver c v pass with sending := sending, sendPending := pending } := by
  refine ⟨?_, ?_, ?_, ?_, h.retired⟩
  · rintro _ ⟨⟩
    obtain ⟨b, hb, hid, -⟩ := d.same
    show c.value.id.toNat = u.sent.length
    rw [hid]
    exact h.ids b hb
  · intro v' hv'
    rcases d.goesOn with hnone | hsame
    · simp only [hnone] at hv'
      cases hv'
    · exact h.current v' (hsame ▸ hv')
  · rintro _ ⟨⟩ x hx st' hst'
    obtain ⟨r, hr, rfl⟩ := List.mem_map.mp hx
    rw [d.loop.get?, Option.map_eq_some_iff] at hst'
    obtain ⟨st, hst, rfl⟩ := hst'
    exact d.tracks h hr hst
  · intro x hx he
    obtain ⟨r, hr, rfl⟩ := List.mem_map.mp hx
    have hgone := (h.ended r hr he).1
    rw [d.sender] at hgone
    cases hgone

/-- A loop that counted all receivers gave the message to each of them once. -/
theorem given_all (d : Delivering u v c sending counts pushes change pass) (h : Ordered u)
    (hi : Inv u) (hall : pass.1.delivered = u.receivers.length) :
    ∀ x ∈ (u.deliver c v pass).receivers, x.log.positions.count (u.sent.length - 1) = 1 := by
  intro x hx
  obtain ⟨r, hr, rfl⟩ := List.mem_map.mp hx
  obtain ⟨b, hb, -, hreceivers⟩ := d.same
  obtain ⟨st, hst⟩ := hi.entry hb hr
  rw [← hi.len_eq hb, ← hreceivers] at hall
  rw [← hreceivers] at hst
  exact d.given h hr hst (d.loop.counts_all hall hst)

end Delivering

/-- The channel while `try_send` delivers its message. -/
def Sys.underWay (s : Sys T W) (c : Inner T W) (v : T) : Sys T W :=
  { s.begin c v with sending := some (.suspended v) }

omit [Target] in
private theorem Ordered.underWay (h : Ordered s) {b c : Inner T W} (hb : s.inner = some b)
    (hs : s.sender = true) (hc : c = { b with value := bumpMessageId b.value })
    (hlt : s.sent.length + 1 < 2 ^ 64) (v : T) : Ordered (s.underWay c v) := by
  rw [hc]
  exact h.begin hb hs hlt v

omit [Target] in
/-- `try_send` delivers a message that no receiver has. -/
theorem Ordered.tryDelivering (h : Ordered s) {b c : Inner T W}
    (hb : s.inner = some b) (hs : s.sender = true)
    (hc : c = { b with value := bumpMessageId b.value }) (hlt : s.sent.length + 1 < 2 ^ 64)
    (v : T) :
    Delivering (s.underWay c v) v c none ReceiverState.room ReceiverState.room
      (fun r => if r.room then { r with buf := r.buf.pushBack v } else r) (tryPass c v) := by
  refine ⟨rfl, hs, ⟨c, rfl, rfl, rfl⟩, tryPass_pass c v, ?_, ?_, ?_, ?_, Or.inl rfl⟩
  · intro r hr st hst _ heq
    have hids := h.ids b hb
    have hbump : (bumpMessageId b.value).id.toNat = b.value.id.toNat + 1 :=
      bumpMessageId_toNat (by omega)
    rw [hc] at hst heq
    have hle := (h.tracked b hb r hr st hst).stamped
    rw [heq] at hle
    simp only at hle
    omega
  · intro st hp
    simp [hp]
  · intro st hp
    simp [hp]
  · intro st hp
    exact Or.inl hp

omit [Target] in
/-- A poll of `Send` delivers the message under way. -/
theorem sendDelivering [Waker W] {v : T} (hu : u.sending = some (.suspended v))
    (hs : u.sender = true) {b c : Inner T W} {w : W} (hb : u.inner = some b)
    (hc : c = { b with value := { b.value with sender := register b.value.sender w } })
    {sending : Option (Sending T)} (hsend : sending = none ∨ sending = u.sending) :
    Delivering u v c sending (fun r => r.id == c.value.id || r.room)
      (ReceiverState.gets c.value.id)
      (fun r => if r.gets c.value.id then
        { r with buf := r.buf.pushBack v, id := c.value.id } else r) (sendPass c v) := by
  refine ⟨hu, hs, ⟨b, hb, by rw [hc], by rw [hc]⟩, sendPass_pass c v, ?_, ?_, ?_, ?_, hsend⟩
  · intro r hr st hst hp heq
    simp [ReceiverState.gets, heq] at hp
  · intro st hp
    simp [hp]
  · intro st hp
    simp [hp]
  · intro st hp
    by_cases heq : st.id = c.value.id
    · exact Or.inr heq
    · refine Or.inl ?_
      simpa [ReceiverState.gets, heq] using hp

variable [Layout T] [Waker W]

omit [Layout T] [Waker W] in
/-- The first poll of a `send` delivers in order so far. -/
theorem Ordered.resumed (h : Ordered s) (hi : Inv s) {v : T} (hu : s.Resumed v u)
    (hlt : s.started < messageIds) : Ordered u := by
  have hlen := hu.sent_length
  rcases hu with ⟨-, rfl⟩ | ⟨hs, b, hb, rfl⟩
  · exact h
  · simp only [Sys.begin, List.length_append, List.length_singleton] at hlen
    refine h.begin hb (hi.sendAlive (by rw [hs]; rfl)) ?_ v
    unfold messageIds at hlt
    omega

/-- Every move delivers in order. -/
theorem Ordered.move (h : Ordered s) (hi : Inv s) {op : Op T W} {out : Out T}
    (hlt : s.started + op.calls < messageIds) (m : Move s op out t) : Ordered t := by
  have hmove := m
  cases m with
  | ignored => exact h
  | @subscribe b key hb hs hk hm =>
    have hidle : ∀ v, s.sending ≠ some (.suspended v) := by
      intro v hv
      rw [(senderFree_iff.mp hs).2] at hv
      cases hv
    refine ⟨?_, h.current, ?_, ?_, h.retired⟩
    · rintro _ ⟨⟩
      exact h.ids b hb
    · rintro _ ⟨⟩ x hx st hst
      rcases hi.subscribed hb hk rfl hx hst with ⟨hx, -, hst⟩ | ⟨rfl, rfl⟩
      · exact h.tracked b hb x hx st hst
      · refine ⟨⟨Nat.le_refl _, List.Pairwise.nil, fun p hp => by cases hp⟩, rfl,
          Nat.le_of_eq (h.ids b hb), ?_, ?_⟩
        · rintro ⟨v, hv⟩
          exact absurd hv (hidle v)
        · rintro ⟨v, hv⟩
          exact absurd hv (hidle v)
    · intro x hx he
      rcases List.mem_append.mp hx with hx | hx
      · exact h.ended x hx he
      · rw [List.mem_singleton.mp hx] at he
        cases he
  | @trySent b c v hb hs hc hall | @tryShort b c v hb hs hc hsome =>
    obtain ⟨hsender, hnone⟩ := senderFree_iff.mp hs
    have hlt' := id_left hs hlt
    have hbegin := h.underWay hb hsender hc hlt' v
    have ht := (h.tryDelivering hb hsender hc hlt' v).ordered hbegin s.sendPending
    rw [← hnone] at ht
    exact ht
  | send | cancelSend | recv | cancelRecv | dropSender => exact h.keep (hmove.quiet rfl) h.retired
  | sentNone hu hr =>
    have hu' := h.resumed hi hu (Nat.lt_of_add_right_lt hlt)
    exact hu'.keep (.endSend _) hu'.retired
  | sent hu hb hc hall =>
    obtain ⟨-, hsender, -, hsend⟩ := hi.resumed hu
    exact (sendDelivering hsend hsender hb hc (Or.inl rfl)).ordered
      (h.resumed hi hu (Nat.lt_of_add_right_lt hlt)) _
  | sendPark hu hb hc hsome =>
    obtain ⟨-, hsender, -, hsend⟩ := hi.resumed hu
    exact (sendDelivering hsend hsender hb hc (Or.inr rfl)).ordered
      (h.resumed hi hu (Nat.lt_of_add_right_lt hlt)) _
  | @received b i r st v buf w hb hr hf hst hv =>
    have ht := h.tracked b hb r (List.mem_of_getElem? hr) st hst
    refine h.setReceiver hi hb hr ?_ ?_ ?_ _
    · rfl
    · exact ht.receive hv
    · intro he
      obtain ⟨-, hall⟩ := h.ended r (List.mem_of_getElem? hr) he
      have ho := ht.order
      rw [hall, (VecDeque.popFront_eq_some hv).1] at ho
      simp at ho
  | @recvEnd b i r st w hb hr hf hst hv hs =>
    have ht := h.tracked b hb r (List.mem_of_getElem? hr) st hst
    have ho := ht.order
    rw [hv, List.append_nil] at ho
    refine h.setReceiver hi hb hr ?_ ?_ ?_ _
    · rfl
    · exact ⟨⟨ht.sound.since, ht.sound.increasing, ht.sound.genuine⟩, ht.order, ht.stamped,
        ht.subscribed, ht.holds⟩
    · exact fun _ => ⟨hs, ho⟩
  | @recvPark b i r st w hb hr hf hst hv hs =>
    have ht := h.tracked b hb r (List.mem_of_getElem? hr) st hst
    refine h.setReceiver hi hb hr ?_ ?_ ?_ _
    · rfl
    · exact ht.keep rfl rfl
    · exact h.ended r (List.mem_of_getElem? hr)
  | @dropReceiver b i r hb hr hf =>
    apply h.keep (hmove.quiet rfl)
    intro log hlog
    rcases List.mem_append.mp hlog with hlog | hlog
    · exact h.retired log hlog
    · rw [List.mem_singleton.mp hlog]
      exact h.inOrder hi (List.mem_of_getElem? hr)

/-! ### What the results of operations promise -/

/-- Every live receiver was given the message, once. -/
def Sys.GivenAll (t : Sys T W) (v : T) : Prop :=
  t.sent.getLast? = some v ∧
    ∀ r ∈ t.receivers, r.log.positions.count (t.sent.length - 1) = 1

/-- The buffer of a live receiver has room. -/
def Sys.hasRoom (s : Sys T W) (r : Receiver T W) : Bool :=
  s.inner.any fun b => (b.value.receivers.get? r.index).any ReceiverState.room

/-- What the result of an operation says about the deliveries. -/
def Promised (s t : Sys T W) : Op T W → Out T → Prop
  | .pollSend _, .sent n => n = t.receivers.length ∧
      ∃ v, (s.sending = some (.unresumed v) ∨ s.sending = some (.suspended v)) ∧ t.GivenAll v
  | .trySend v, .trySent (.ok n) => n = t.receivers.length ∧ t.GivenAll v
  | .trySend v, .trySent (.error e) => e.delivered = s.receivers.countP s.hasRoom ∧
      e.delivered < s.receivers.length ∧
      t.receivers = s.receivers.map fun r =>
        { r with log := r.log.push s.sent.length v (s.hasRoom r).toNat }
  | .pollRecv i _, .received none => s.sender = false ∧
      ∃ r, s.receivers[i]? = some r ∧ r.log.received = r.log.messages
  | _, _ => True

/-- The result of every move is as promised. -/
theorem Ordered.promised (h : Ordered s) (hi : Inv s) {op : Op T W} {out : Out T}
    (hlt : s.started + op.calls < messageIds) (m : Move s op out t) : Promised s t op out := by
  have hroom : ∀ b, s.inner = some b → ∀ r, s.hasRoom r =
      (b.value.receivers.get? r.index).any ReceiverState.room := by
    intro b hb r
    rw [Sys.hasRoom, hb]
    rfl
  have hlength : ∀ (u : Sys T W) c v (pass : Delivery W × Slab (ReceiverState T W)),
      (u.deliver c v pass).receivers.length = u.receivers.length :=
    fun u c v pass => List.length_map _
  cases m with
  | @trySent b c v hb hs hc hall =>
    obtain ⟨hsender, -⟩ := senderFree_iff.mp hs
    have hlt' := id_left hs hlt
    have hbegin := h.underWay hb hsender hc hlt' v
    have hi' : Inv (s.underWay c v) := by
      rw [hc]
      exact hi.keep hb rfl rfl rfl rfl rfl rfl fun _ => hsender
    have hgiven := (h.tryDelivering hb hsender hc hlt' v).given_all hbegin hi' hall
    exact ⟨(hlength (s.begin c v) c v _).symm, List.getLast?_concat, hgiven⟩
  | @tryShort b c v hb hs hc hsome =>
    have hloop := tryPass_pass c v
    have hcount : (tryPass c v).1.delivered = s.receivers.countP s.hasRoom := by
      rw [hloop.delivered, hc]
      refine (hi.countP_entries hb _).trans (List.countP_congr fun r _ => ?_)
      rw [hroom b hb]
    refine ⟨hcount, ?_, ?_⟩
    · have hle := hcount ▸ List.countP_le_length (p := s.hasRoom) (l := s.receivers)
      exact Nat.lt_of_le_of_ne hle hsome
    · refine List.map_congr_left fun r hr => ?_
      obtain ⟨st, hst⟩ := hi.entry hb hr
      have hst' : c.value.receivers.get? r.index = some st := by rw [hc]; exact hst
      rw [hroom b hb, hst, hloop.count hst']
      simp [Sys.put, Sys.begin]
  | @sentNone u v w hu hr =>
    obtain ⟨-, -, hreceivers, hsend⟩ := hi.resumed hu
    have hu' := h.resumed hi hu (Nat.lt_of_add_right_lt hlt)
    refine ⟨?_, v, hu.sends, hu'.current v hsend, ?_⟩
    · show 0 = u.receivers.length
      rw [hreceivers, hr]
      rfl
    · intro r hmem
      have hmem' : r ∈ u.receivers := hmem
      rw [hreceivers, hr] at hmem'
      cases hmem'
  | @sent u b c v w hu hb hc hall =>
    obtain ⟨hi', hsender, hreceivers, hsend⟩ := hi.resumed hu
    have hu' := h.resumed hi hu (Nat.lt_of_add_right_lt hlt)
    have hd := sendDelivering hsend hsender hb hc (w := w) (Or.inl rfl)
    rw [← hreceivers] at hall ⊢
    exact ⟨(hlength u c v _).symm, v, hu.sends, hu'.current v hsend, hd.given_all hu' hi' hall⟩
  | @recvEnd b i r st w hb hr hf hst hv hs =>
    have ho := (h.tracked b hb r (List.mem_of_getElem? hr) st hst).order
    rw [hv, List.append_nil] at ho
    exact ⟨hs, r, hr, ho⟩
  | ignored =>
    cases op with
    | _ => trivial
  | _ => trivial

omit [Target] [Layout T] [Waker W] in
/-- Nothing was sent through a new channel. -/
theorem Ordered.new (setup : Setup) : Ordered (Sys.new (setup.create : Option (Inner T W))) := by
  refine ⟨?_, fun v hv => (by cases hv), fun b hb r hr => (by cases hr),
    fun r hr => (by cases hr), fun log hlog => (by cases hlog)⟩
  intro b hb
  rw [(Setup.create_eq hb).2.2.2]
  rfl

/-- In every run with fewer calls of `try_send` and `send` than there are message ids, after
every operation: what a receiver received followed by its buffer is what it was given; it
was given only messages sent after it subscribed, in the order in which they were sent and
each at most once; `recv` resolves to `None` only at the end; and the results of `send` and
`try_send` say which receivers were given the message. -/
theorem ordered_complete_delivery (setup : Setup) (ops : List (Op T W)) (op : Op T W)
    (hcalls : calls (ops ++ [op]) < 2 ^ 64 - 1) :
    ∃ outs s out t, run Sys.step (Sys.new setup.create : Sys T W) ops = .ok (outs, s) ∧
      s.step op = .ok (out, t) ∧
      (∀ r ∈ t.receivers, ∃ b st, t.inner = some b ∧
        b.value.receivers.get? r.index = some st ∧
        r.log.received ++ st.buf.items = r.log.messages) ∧
      (∀ r ∈ t.receivers, r.log.InOrder t.sent t.sender) ∧
      (∀ log ∈ t.retired, log.InOrder t.sent t.sender) ∧
      Promised s t op out := by
  have hsplit : calls (ops ++ [op]) = calls ops + op.calls := by
    simp [calls]
  have hstart : (Sys.new setup.create : Sys T W).started = 0 := rfl
  obtain ⟨outs, s, hr, ⟨hi, h⟩, hle⟩ := run_keeps (P := Ordered)
    (fun s op out t hi h hlt m => h.move hi hlt m) (Inv.new setup) (Ordered.new setup) ops
    (by rw [hstart]; unfold messageIds; omega)
  have hlt : s.started + op.calls < messageIds := by
    rw [hstart] at hle
    unfold messageIds
    omega
  obtain ⟨out, t, hs, m, hi'⟩ := hi.step op
  have ht := h.move hi hlt m
  refine ⟨outs, s, out, t, hr, hs, ?_, fun r hr => ht.inOrder hi' hr, ht.retired,
    h.promised hi hlt m⟩
  intro r hr
  obtain ⟨b, hb, -⟩ := access_of_alive hi' (Or.inr (List.ne_nil_of_mem hr))
  obtain ⟨st, hst⟩ := hi'.entry hb hr
  exact ⟨b, st, hb, hst, (ht.tracked b hb r hr st hst).order⟩

end Steps

/-- Wakers that are numbers, each for its own task. -/
abbrev numberedWaker : Waker Nat := ⟨Nat, id, fun a b => a == b, fun h => eq_of_beq h⟩

/-- The buffer of one of two receivers is full, so a `send` gets through to the other. -/
theorem ordered_complete_delivery_two_receivers :
    ∃ outs s out t,
      run (@Sys.step Nat Nat numberedWaker ⟨64, by decide⟩ ⟨false⟩)
        (Sys.new (Setup.bounded 1).create)
        [.subscribe 0, .trySend 7, .subscribe 1, .send 8, .pollSend 3, .recv 0, .pollRecv 0 4] =
          .ok (outs, s) ∧
      @Sys.step Nat Nat numberedWaker ⟨64, by decide⟩ ⟨false⟩ s (.pollSend 3) = .ok (out, t) ∧
      (∀ r ∈ t.receivers, ∃ b st, t.inner = some b ∧
        b.value.receivers.get? r.index = some st ∧
        r.log.received ++ st.buf.items = r.log.messages) ∧
      (∀ r ∈ t.receivers, r.log.InOrder t.sent t.sender) ∧
      (∀ log ∈ t.retired, log.InOrder t.sent t.sender) ∧
      Promised s t (.pollSend 3) out :=
  @ordered_complete_delivery Nat Nat ⟨64, by decide⟩ ⟨false⟩ numberedWaker (.bounded 1) _ _
    (by decide)

end Broadcast
end Unsync
