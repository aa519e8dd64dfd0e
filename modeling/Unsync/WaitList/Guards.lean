import Unsync.WaitList.Handover

/-!
# Clients that keep a guard

The API of `src/wait_list.rs` in the hands of a client that keeps the guard of `borrow` or
`try_borrow` for as long as it likes, or leaks it, and goes on to create, poll and drop
futures. While the list is borrowed a first poll of `wait` panics, and the panic drops the
future; a future that is on the list cannot be dropped then, neither by the client nor by a
panic, and the process is aborted instead.
-/

namespace Unsync
namespace WaitList

open DoublyLinked Runs

variable {I O W : Type}

/-- `WaitList::try_borrow`, `src/wait_list.rs:244–250`. The flag says whether there is a
guard. -/
def tryBorrow (l : WaitList I O W) : Bool × WaitList I O W :=
  (!l.borrowed, { l with borrowed := true })

/-- `Borrowed::head_input_mut` and a write through it, `src/wait_list.rs:357–361`. -/
def headInputMut (l : WaitList I O W) (change : I → I) :
    Except Fault (Option I × WaitList I O W) :=
  match l.head with
  | none => .ok (none, l)
  | some head => do
    let w ← l.deref head
    let i ← takeInput w.state
    .ok (some i, l.write head { w with state := .input (change i) })

/-- A list, the futures on it, and whether the client has a guard. -/
structure Client (I O W : Type) where
  sys : Sys I O W
  guard : Bool

/-- What a client does that may keep its guard. -/
inductive Client.Use (I O W : Type) where
  | wait (input : I)
  | poll (a : Addr) (cx : W)
  | drop (a : Addr)
  | tryBorrow
  | borrow
  /-- The guard is dropped. -/
  | release
  /-- The guard is leaked with `mem::forget`. -/
  | forget
  | isEmpty
  | headInput
  | headInputMut (change : I → I)
  | wakeOne (output : O)

/-- What such a client sees. -/
inductive Client.Seen (I O : Type) where
  | out (out : Out I O)
  | borrowed
  | notBorrowed
  | isEmpty (empty : Bool)
  | released
  | forgotten
  | panicked
  deriving DecidableEq, Repr

/-- The input of the head may be replaced. -/
theorem Rep.setInput {l : WaitList I O W} {q : WaitQueue Addr I O} (h : Rep l q) {a : Addr}
    {i : I} {rest : List (Addr × I)} {w : W} (hq : q.parked = (a, i) :: rest) (j : I) :
    Rep (l.write a ⟨l.nextOf a, l.prevOf a, .input j, some w⟩)
      { q with parked := (a, j) :: rest } := by
  have hkeys : ((a, j) :: rest).map Prod.fst = q.parked.map Prod.fst := by
    rw [hq]
    rfl
  have hd := h.nodup
  rw [hq, List.map_cons, List.cons_append, List.nodup_cons, List.mem_append, not_or] at hd
  obtain ⟨⟨hrest, hwoken⟩, -⟩ := hd
  refine ⟨h.borrowed, ?_, ?_, ?_, ?_, ?_⟩
  · rw [hkeys]
    exact h.linked.congr (fun b _ => nextOf_write_same l a b _ _ _)
      fun b _ => prevOf_write_same l a b _ _ _
  · rw [hkeys]
    exact h.nodup
  · intro b k hb
    rw [contents_write]
    rcases List.mem_cons.mp hb with he | hr
    · cases he
      exact ⟨w, if_pos rfl⟩
    · have hne : b ≠ a := by
        rintro rfl
        exact hrest (List.mem_map.mpr ⟨_, hr, rfl⟩)
      rw [if_neg hne]
      exact h.parked b k (hq ▸ List.mem_cons_of_mem _ hr)
  · intro b o hb
    have hne : b ≠ a := by
      rintro rfl
      exact hwoken (List.mem_map_of_mem hb)
    rw [contents_write, if_neg hne]
    exact h.woken b o hb
  · intro b hb
    rw [hkeys]
    rw [contents_write] at hb
    split at hb
    · next he =>
      subst he
      exact Or.inl (by rw [hq]; exact List.mem_cons_self)
    · exact h.owned b hb

private theorem headInputMut_nil {l : WaitList I O W} {q : WaitQueue Addr I O} (h : Rep l q)
    (hq : q.parked = []) (change : I → I) : l.headInputMut change = .ok (none, l) := by
  have hh : l.head = none := by
    rw [h.linked.head_none, hq]
    rfl
  simp only [headInputMut, hh]

private theorem headInputMut_cons {l : WaitList I O W} {q : WaitQueue Addr I O} (h : Rep l q)
    {a : Addr} {i : I} {rest : List (Addr × I)} (hq : q.parked = (a, i) :: rest) (change : I → I) :
    ∃ l', l.headInputMut change = .ok (some i, l') ∧
      Rep l' { q with parked := (a, change i) :: rest } := by
  have hh : l.head = some a := by
    rw [h.linked.head_eq, hq]
    rfl
  obtain ⟨w, hw⟩ := h.parked a i (by simp [hq])
  refine ⟨_, ?_, h.setInput hq (change i) (w := w)⟩
  simp only [headInputMut, hh, deref_ok hw, ok_bind, takeInput]

namespace Client

/-- A new list, no futures and no guard. -/
def new : Client I O W := ⟨.new, false⟩

/-- `try_borrow`, `src/wait_list.rs:244–250`. -/
def tryBorrow (c : Client I O W) : Seen I O × Client I O W :=
  let (free, l) := c.sys.list.tryBorrow
  if free then (.borrowed, ⟨{ c.sys with list := l }, true⟩)
  else (.notBorrowed, { c with sys := { c.sys with list := l } })

/-- `borrow`, which panics where `try_borrow` has no guard, `src/wait_list.rs:267–270`. -/
def borrow (c : Client I O W) : Seen I O × Client I O W :=
  match c.tryBorrow with
  | (.notBorrowed, c) => (.panicked, c)
  | r => r

/-- What is written through `head_input_mut` counts as the input from then on. -/
def rewrite (entered : List (Addr × I)) (head : Option Addr) (change : I → I) :
    List (Addr × I) :=
  entered.map fun p => if head = some p.1 then (p.1, change p.2) else p

/-- `head_input_mut` and a write through it, with the guard in hand. -/
def headInputMut (c : Client I O W) (change : I → I) :
    Except Fault (Seen I O × Client I O W) := do
  let (i?, l) ← c.sys.list.headInputMut change
  .ok (.out (.head i?), { c with sys := { c.sys with
    list := l
    log := { c.sys.log with entered := rewrite c.sys.log.entered c.sys.list.head change } } })

/-- `wake_one`, with the guard in hand. -/
def wakeOne (c : Client I O W) (output : O) : Except Fault (Seen I O × Client I O W) := do
  let (r, l) ← c.sys.list.wakeOne output
  match r with
  | .ok i =>
    .ok (.out (.woke i), { c with sys := { c.sys with
      list := l
      log := { c.sys.log with
        passed := c.sys.log.passed ++ [output]
        handed := c.sys.log.handed ++ c.sys.list.head.toList.map fun a => (a, i, output) } } })
  | .error o =>
    .ok (.out (.wakeOneError o), { c with sys := { c.sys with
      list := l
      log := { c.sys.log with
        passed := c.sys.log.passed ++ [output]
        refused := c.sys.log.refused ++ [o] } } })

/-- A call through the guard, which cannot be written without one. -/
def through (c : Client I O W) (r : Except Fault (Seen I O × Client I O W)) :
    Except Fault (Seen I O × Client I O W) :=
  if c.guard then r else .ok (.out .ignored, c)

variable [Waker W]

/-- The drop of a future. -/
def drop (c : Client I O W) (a : Addr) : Except Fault (Seen I O × Client I O W) := do
  let (out, s) ← c.sys.drop a
  .ok (.out out, { c with sys := s })

/-- A poll of a future. The panic of `borrow` unwinds the future, which drops what the drop
of a future drops. -/
def poll (c : Client I O W) (a : Addr) (cx : W) : Except Fault (Seen I O × Client I O W) :=
  match c.sys.poll a cx with
  | .ok (out, s) => .ok (.out out, { c with sys := s })
  | .error .alreadyBorrowed => do
    let (_, c) ← c.drop a
    .ok (.panicked, c)
  | .error e => .error e

/-- One call. -/
def step (c : Client I O W) : Use I O W → Except Fault (Seen I O × Client I O W)
  | .wait input => do
    let (out, s) ← c.sys.step (.wait input)
    .ok (.out out, { c with sys := s })
  | .poll a cx => c.poll a cx
  | .drop a => c.drop a
  | .tryBorrow => .ok c.tryBorrow
  | .borrow => .ok c.borrow
  | .release => c.through do
    let l ← c.sys.list.unborrow
    .ok (.released, ⟨{ c.sys with list := l }, false⟩)
  | .forget => c.through (.ok (.forgotten, { c with guard := false }))
  | .isEmpty => c.through (.ok (.isEmpty c.sys.list.isEmpty, c))
  | .headInput => c.through do
    let i? ← c.sys.list.headInput
    .ok (.out (.head i?), c)
  | .headInputMut change => c.through (c.headInputMut change)
  | .wakeOne output => c.through (c.wakeOne output)

/-! ### What such a client keeps -/

/-- The list as it were without the guard. -/
def shut (c : Client I O W) : Sys I O W :=
  { c.sys with list := { c.sys.list with borrowed := false } }

/-- Without the guard, the list is as any client may leave it. -/
structure Inv (c : Client I O W) (q : WaitQueue Addr I O) : Prop where
  shut : WaitList.Inv c.shut q
  guard : c.guard = true → c.sys.list.borrowed = true

/-- The call panics: the list is borrowed. -/
def Panics (c : Client I O W) : Use I O W → Prop
  | .poll a _ => c.sys.list.borrowed = true ∧ a ∈ c.sys.unresumed.map Prod.fst
  | .borrow => c.sys.list.borrowed = true
  | _ => False

/-- The call aborts the process: it drops a future whose waiter is in memory while the list
is borrowed. -/
def Aborts (c : Client I O W) : Use I O W → Prop
  | .poll a _ | .drop a => c.sys.list.borrowed = true ∧ (c.sys.list.memory a).isSome = true
  | _ => False

/-- The client is told of a panic or gets a guard. -/
def Seen.loud : Seen I O → Bool
  | .panicked | .borrowed => true
  | _ => false

/-- The call asks for a guard. -/
def Use.asks : Use I O W → Bool
  | .tryBorrow | .borrow => true
  | _ => false

/-- The call goes through the guard. -/
def Use.guarded : Use I O W → Bool
  | .release | .forget | .isEmpty | .headInput | .headInputMut _ | .wakeOne _ => true
  | _ => false

/-- What comes of a call. -/
structure Turns (c : Client I O W) (use : Use I O W) (seen : Seen I O) (t : Client I O W) :
    Prop where
  panics : seen = .panicked ↔ Panics c use
  guards : seen = .borrowed ↔ use.asks = true ∧ c.sys.list.borrowed = false
  exclusive : c.sys.list.borrowed = true → use.guarded = false ∨ c.guard = false →
    t.sys.list = c.sys.list ∧ t.guard = c.guard

variable {c : Client I O W} {q : WaitQueue Addr I O}

omit [Waker W] in
private theorem Inv.rep (h : Inv c q) :
    Rep c.sys.list { q with borrowed := c.sys.list.borrowed } :=
  h.shut.rep.withBorrowed c.sys.list.borrowed

omit [Waker W] in
private theorem shut_eq (hb : c.sys.list.borrowed = false) : c.shut = c.sys := by
  rw [shut, ← hb]

private theorem Inv.plain (h : Inv c q) (hb : c.sys.list.borrowed = false) (op : Op I O W) :
    ∃ out s q', c.sys.step op = .ok (out, s) ∧ Inv { c with sys := s } q' := by
  obtain ⟨out, s, q', hs, hi, -⟩ := h.shut.step op
  rw [shut_eq hb] at hs
  have hsb : s.list.borrowed = false := hi.rep.borrowed.trans hi.idle
  refine ⟨out, s, q', hs, ?_, ?_⟩
  · rw [shut_eq (c := { c with sys := s }) hsb]
    exact hi
  · intro hg
    exact absurd (h.guard hg) (by rw [hb]; exact Bool.false_ne_true)

omit [Waker W] in
/-- What is written through `head_input_mut` is in the place of the input. -/
theorem Inv.rewriteHead {s : Sys I O W} {l : WaitList I O W} (h : WaitList.Inv s q) {a : Addr}
    {i : I} {rest : List (Addr × I)} (hq : q.parked = (a, i) :: rest) (change : I → I)
    (hl : Rep l { q with parked := (a, change i) :: rest }) :
    WaitList.Inv { s with
        list := l
        log := { s.log with entered := rewrite s.log.entered (some a) change } }
      { q with parked := (a, change i) :: rest } := by
  have hkeys : (rewrite s.log.entered (some a) change).map Prod.fst =
      s.log.entered.map Prod.fst := by
    rw [rewrite, List.map_map]
    refine List.map_congr_left fun p _ => ?_
    simp only [Function.comp_apply]
    split <;> rfl
  have hstay : ∀ xs : List (Addr × I), a ∉ xs.map Prod.fst → rewrite xs (some a) change = xs := by
    intro xs ha
    refine (List.map_congr_left fun p hp => ?_).trans (List.map_id xs)
    have hne : some a ≠ some p.1 := by
      rintro ⟨⟩
      exact ha (List.mem_map_of_mem hp)
    rw [if_neg hne]
    rfl
  have hd := h.keys_nodup
  rw [hq, List.map_cons, List.append_assoc, List.append_assoc, List.cons_append] at hd
  obtain ⟨hout, -⟩ := List.nodup_cons.mp (List.perm_middle.nodup_iff.mp hd)
  simp only [List.mem_append, not_or] at hout
  obtain ⟨hunresumed, hrest, hreturned, hdropped⟩ := hout
  have hhead : rewrite ((a, i) :: rest) (some a) change = (a, change i) :: rest := by
    rw [rewrite, List.map_cons, if_pos rfl, ← rewrite, hstay rest hrest]
  have hinputs := h.inputs.map fun p => if some a = some p.1 then (p.1, change p.2) else p
  rw [hq, List.map_append, List.map_append, List.map_append] at hinputs
  refine ⟨hl, h.idle, ?_, h.outputs, h.passed, ?_, ?_, ?_, h.polled⟩
  · rw [← rewrite, ← rewrite, ← rewrite, ← rewrite, ← rewrite, hstay _ hunresumed, hhead,
      hstay _ hreturned, hstay _ hdropped] at hinputs
    exact hinputs
  · rw [hkeys]
    exact h.calls
  · rw [hkeys]
    exact h.bound
  · have horder := h.order
    rw [hq] at horder
    exact horder

private theorem Inv.dropUnresumed (h : Inv c q) {a : Addr} (ha : a ∈ c.sys.unresumed.map Prod.fst) :
    ∃ s, c.sys.drop a = .ok (.dropped, s) ∧ s.list = c.sys.list ∧
      Inv { c with sys := s } q := by
  cases hl : c.sys.unresumed.lookup a with
  | none => exact absurd ha (lookup_none.mp hl)
  | some i =>
    obtain ⟨s, hs, hi, -⟩ := WaitList.Inv.dropUnresumed h.shut hl
    simp only [Sys.drop, Client.shut, hl] at hs ⊢
    cases hs
    exact ⟨_, rfl, rfl, hi, h.guard⟩

omit [Waker W] in
private theorem Inv.no_memory (h : Inv c q) {a : Addr} (ha : a ∈ c.sys.unresumed.map Prod.fst) :
    (c.sys.list.memory a).isSome = false := by
  have hfresh := h.shut.unresumed_fresh ha
  simpa [contents, Client.shut] using hfresh

omit [Waker W] in
private theorem drop_aborts {a : Addr} (hb : c.sys.list.borrowed = true)
    (hu : c.sys.unresumed.lookup a = none) (hm : (c.sys.list.memory a).isSome = true) :
    c.sys.drop a = .error .abort := by
  simp only [Sys.drop, hu, hm, if_true, waitDrop, dropInner, hb, error_bind]

private theorem poll_panics {a : Addr} {cx : W} (hb : c.sys.list.borrowed = true)
    (hl : a ∈ c.sys.unresumed.map Prod.fst ∨ (c.sys.list.memory a).isSome = true) :
    c.sys.poll a cx = .error .alreadyBorrowed := by
  cases hu : c.sys.unresumed.lookup a with
  | none =>
    have hm := hl.resolve_left (lookup_none.mp hu)
    simp only [Sys.poll, hu, hm, if_true, waitAgain, pollInner, WaitList.borrow, hb, error_bind]
  | some i =>
    have hw : (c.sys.list.write a ⟨none, none, .input i, some cx⟩).borrowed = true := hb
    simp only [Sys.poll, hu, waitFirst, WaitList.borrow, hw, if_true, error_bind]

private theorem Inv.aborts (h : Inv c q) {use : Use I O W} (ha : Aborts c use) :
    c.step use = .error .abort := by
  cases use with
  | poll a cx =>
    obtain ⟨hb, hm⟩ := ha
    have hu : c.sys.unresumed.lookup a = none := by
      rw [lookup_none]
      intro hmem
      rw [h.no_memory hmem] at hm
      cases hm
    simp only [step, poll, poll_panics hb (Or.inr hm), drop, drop_aborts hb hu hm, error_bind]
  | drop a =>
    obtain ⟨hb, hm⟩ := ha
    have hu : c.sys.unresumed.lookup a = none := by
      rw [lookup_none]
      intro hmem
      rw [h.no_memory hmem] at hm
      cases hm
    simp only [step, drop, drop_aborts hb hu hm, error_bind]
  | _ => exact ha.elim

omit [Waker W] in
/-- With the guard in hand, `wake_one` does what it does in between a borrow and its end. -/
theorem wakeOne_kept {s : Sys I O W} {output : O} {out : Out I O}
    (hb : c.sys.list.borrowed = true) (hs : c.shut.wakeOne output = .ok (out, s)) :
    ∃ l, c.wakeOne output = .ok (.out out, ⟨{ s with list := l }, c.guard⟩) ∧
      s.list = { l with borrowed := false } ∧ l.borrowed = true := by
  have hborrow : c.shut.list.borrow = .ok c.sys.list := by simp [WaitList.borrow, shut, ← hb]
  rw [Sys.wakeOne, hborrow, ok_bind] at hs
  cases hw : c.sys.list.wakeOne output with
  | error e =>
    rw [hw] at hs
    cases hs
  | ok r =>
    obtain ⟨r, l⟩ := r
    rw [hw, ok_bind] at hs
    cases hl : l.borrowed with
    | false => simp [unborrow, hl] at hs
    | true =>
      simp only [unborrow, hl, if_true, ok_bind] at hs
      cases r with
      | error o =>
        cases hs
        exact ⟨l, by rw [wakeOne, hw]; rfl, rfl, hl⟩
      | ok i =>
        cases hs
        exact ⟨l, by rw [wakeOne, hw]; rfl, rfl, hl⟩

omit [Waker W] in
/-- With the guard in hand, the client may write through `head_input_mut`. -/
theorem Inv.headInputMut (h : Inv c q) (change : I → I) :
    ∃ i t q', c.headInputMut change = .ok (.out (.head i), t) ∧ Inv t q' := by
  cases hq : q.parked with
  | nil =>
    have hl := headInputMut_nil h.rep hq change
    have hh : c.sys.list.head = none := by
      rw [h.rep.linked.head_none]
      exact List.map_eq_nil_iff.mpr hq
    refine ⟨none, c, q, ?_, h⟩
    simp only [Client.headInputMut, hl, ok_bind, hh, rewrite]
    simp
  | cons p rest =>
    obtain ⟨a, i⟩ := p
    obtain ⟨l, hl, hrep⟩ := headInputMut_cons h.rep hq change
    have hh : c.sys.list.head = some a := by
      rw [h.rep.linked.head_eq]
      simp [hq]
    have hshut : Rep { l with borrowed := false } { q with parked := (a, change i) :: rest } := by
      rw [show ({ q with parked := (a, change i) :: rest } : WaitQueue Addr I O) =
        { q with borrowed := false, parked := (a, change i) :: rest } by rw [← h.shut.idle]]
      exact hrep.withBorrowed false
    refine ⟨some i, { c with sys := { c.sys with
      list := l
      log := { c.sys.log with entered := rewrite c.sys.log.entered (some a) change } } },
      { q with parked := (a, change i) :: rest }, ?_, ?_, ?_⟩
    · simp only [Client.headInputMut, hl, ok_bind, hh]
    · exact Inv.rewriteHead h.shut hq change hshut
    · intro hg
      exact hrep.borrowed.trans (h.guard hg)

omit [Waker W] in
private theorem Turns.quiet {use : Use I O W} {seen : Seen I O} {t : Client I O W}
    (hs : seen.loud = false) (hp : ¬ Panics c use)
    (hg : ¬ (use.asks = true ∧ c.sys.list.borrowed = false))
    (he : c.sys.list.borrowed = true → use.guarded = false ∨ c.guard = false →
      t.sys.list = c.sys.list ∧ t.guard = c.guard) : Turns c use seen t := by
  refine ⟨iff_of_false ?_ hp, iff_of_false ?_ hg, he⟩
  · rintro rfl
    cases hs
  · rintro rfl
    cases hs

omit [Waker W] in
/-- Nothing comes of a call through a guard that is not there. -/
theorem Inv.through (h : Inv c q) {use : Use I O W} (hu : use.guarded = true)
    {r : Except Fault (Seen I O × Client I O W)}
    (hr : c.guard = true → ∃ seen t q', r = .ok (seen, t) ∧ Inv t q' ∧ seen.loud = false) :
    ∃ seen t q', c.through r = .ok (seen, t) ∧ Inv t q' ∧ Turns c use seen t := by
  have hp : ¬ Panics c use := by
    cases use <;> first | exact id | cases hu
  have ha : ¬ (use.asks = true ∧ c.sys.list.borrowed = false) := by
    cases use <;> first | exact fun ha => Bool.false_ne_true ha.1 | cases hu
  cases hg : c.guard with
  | false =>
    refine ⟨.out .ignored, c, q, ?_, h, .quiet rfl hp ha fun _ _ => ⟨rfl, rfl⟩⟩
    rw [Client.through, hg]
    rfl
  | true =>
    obtain ⟨seen, t, q', rfl, hi, hs⟩ := hr hg
    refine ⟨seen, t, q', by rw [Client.through, hg]; rfl, hi, .quiet hs hp ha ?_⟩
    intro _ hor
    rw [hu, hg] at hor
    rcases hor with hor | hor
    · cases hor
    · cases hor

/-- The client has the guard. -/
def take (c : Client I O W) : Client I O W :=
  ⟨{ c.sys with list := { c.sys.list with borrowed := true } }, true⟩

omit [Waker W] in
private theorem tryBorrow_free (hb : c.sys.list.borrowed = false) :
    c.tryBorrow = (.borrowed, c.take) := by
  simp [Client.tryBorrow, WaitList.tryBorrow, hb, take]

omit [Waker W] in
private theorem tryBorrow_taken (hb : c.sys.list.borrowed = true) :
    c.tryBorrow = (.notBorrowed, c) := by
  have hl : ({ c.sys.list with borrowed := true } : WaitList I O W) = c.sys.list := by rw [← hb]
  simp only [Client.tryBorrow, WaitList.tryBorrow, hb, hl]
  rfl

omit [Waker W] in
private theorem Inv.take (h : Inv c q) : Inv c.take q := ⟨h.shut, fun _ => rfl⟩

omit [Waker W] in
private theorem Turns.taken {use : Use I O W} {t : Client I O W} (hb : c.sys.list.borrowed = false)
    (hp : ¬ Panics c use) (ha : use.asks = true) : Turns c use .borrowed t :=
  ⟨iff_of_false nofun hp, iff_of_true rfl ⟨ha, hb⟩,
    fun hb' => absurd (hb.symm.trans hb') Bool.false_ne_true⟩

/-- A poll that does not abort the process. -/
theorem Inv.step_poll (h : Inv c q) {a : Addr} {cx : W} (hn : ¬ Aborts c (.poll a cx)) :
    ∃ seen t q', c.poll a cx = .ok (seen, t) ∧ Inv t q' ∧ Turns c (.poll a cx) seen t := by
  have hasks : ¬ (Use.asks (.poll a cx : Use I O W) = true ∧ c.sys.list.borrowed = false) :=
    fun ha => Bool.false_ne_true ha.1
  cases hb : c.sys.list.borrowed with
  | false =>
    obtain ⟨out, s, q', hs, hi⟩ := h.plain hb (.poll a cx)
    refine ⟨.out out, _, q', ?_, hi, .quiet rfl ?_ hasks ?_⟩
    · rw [Client.poll, show c.sys.poll a cx = _ from hs]
    · exact fun hp => Bool.false_ne_true (hb.symm.trans hp.1)
    · exact fun hb' => absurd (hb.symm.trans hb') Bool.false_ne_true
  | true =>
    by_cases hu : a ∈ c.sys.unresumed.map Prod.fst
    · obtain ⟨s, hs, hl, hi⟩ := h.dropUnresumed hu
      refine ⟨.panicked, { c with sys := s }, q, ?_, hi, iff_of_true rfl ⟨hb, hu⟩,
        iff_of_false (fun he => (by cases he)) hasks, fun _ _ => ⟨hl, rfl⟩⟩
      rw [Client.poll, poll_panics hb (Or.inl hu)]
      simp only [Client.drop, hs, ok_bind]
    · have hm : ¬ (c.sys.list.memory a).isSome = true := fun hm => hn ⟨hb, hm⟩
      refine ⟨.out .ignored, c, q, ?_, h, .quiet rfl (fun hp => hu hp.2) hasks
        fun _ _ => ⟨rfl, rfl⟩⟩
      simp only [Client.poll, Sys.poll, lookup_none.mpr hu, if_neg hm]

private theorem Inv.step_drop (h : Inv c q) {a : Addr} (hn : ¬ Aborts c (.drop a)) :
    ∃ seen t q', c.drop a = .ok (seen, t) ∧ Inv t q' ∧ Turns c (.drop a) seen t := by
  have hasks : ¬ (Use.asks (.drop a : Use I O W) = true ∧ c.sys.list.borrowed = false) :=
    fun ha => Bool.false_ne_true ha.1
  cases hb : c.sys.list.borrowed with
  | false =>
    obtain ⟨out, s, q', hs, hi⟩ := h.plain hb (.drop a)
    refine ⟨.out out, { c with sys := s }, q', ?_, hi, .quiet rfl id hasks ?_⟩
    · rw [Client.drop, show c.sys.drop a = _ from hs]
      rfl
    · exact fun hb' => absurd (hb.symm.trans hb') Bool.false_ne_true
  | true =>
    by_cases hu : a ∈ c.sys.unresumed.map Prod.fst
    · obtain ⟨s, hs, hl, hi⟩ := h.dropUnresumed hu
      refine ⟨.out .dropped, { c with sys := s }, q, ?_, hi,
        .quiet rfl id hasks fun _ _ => ⟨hl, rfl⟩⟩
      simp only [Client.drop, hs, ok_bind]
    · have hm : ¬ (c.sys.list.memory a).isSome = true := fun hm => hn ⟨hb, hm⟩
      refine ⟨.out .ignored, c, q, ?_, h, .quiet rfl id hasks fun _ _ => ⟨rfl, rfl⟩⟩
      simp only [Client.drop, Sys.drop, lookup_none.mpr hu, if_neg hm, ok_bind]

omit [Waker W] in
private theorem Inv.step_tryBorrow (h : Inv c q) :
    ∃ q', Inv c.tryBorrow.2 q' ∧ Turns c .tryBorrow c.tryBorrow.1 c.tryBorrow.2 := by
  cases hb : c.sys.list.borrowed with
  | false =>
    rw [tryBorrow_free hb]
    exact ⟨q, h.take, .taken hb id rfl⟩
  | true =>
    rw [tryBorrow_taken hb]
    exact ⟨q, h, .quiet rfl id (fun ha => Bool.false_ne_true (ha.2.symm.trans hb))
      fun _ _ => ⟨rfl, rfl⟩⟩

omit [Waker W] in
private theorem Inv.step_borrow (h : Inv c q) :
    ∃ q', Inv c.borrow.2 q' ∧ Turns c .borrow c.borrow.1 c.borrow.2 := by
  cases hb : c.sys.list.borrowed with
  | false =>
    have hp : ¬ Panics c .borrow := fun hp => Bool.false_ne_true (hb.symm.trans hp)
    rw [Client.borrow, tryBorrow_free hb]
    exact ⟨q, h.take, .taken hb hp rfl⟩
  | true =>
    have hg : ¬ (Use.asks (.borrow : Use I O W) = true ∧ c.sys.list.borrowed = false) :=
      fun ha => Bool.false_ne_true (ha.2.symm.trans hb)
    rw [Client.borrow, tryBorrow_taken hb]
    exact ⟨q, h, iff_of_true rfl hb, iff_of_false (fun he => (by cases he)) hg,
      fun _ _ => ⟨rfl, rfl⟩⟩

/-- A call that does not abort the process. -/
theorem Inv.step (h : Inv c q) {use : Use I O W} (hn : ¬ Aborts c use) :
    ∃ seen t q', c.step use = .ok (seen, t) ∧ Inv t q' ∧ Turns c use seen t := by
  cases use with
  | wait input =>
    exact ⟨_, _, q, rfl, ⟨h.shut.wait input, h.guard⟩,
      .quiet rfl id (fun ha => Bool.false_ne_true ha.1) fun _ _ => ⟨rfl, rfl⟩⟩
  | poll a cx => exact h.step_poll hn
  | drop a => exact h.step_drop hn
  | tryBorrow =>
    obtain ⟨q', hi, ht⟩ := h.step_tryBorrow
    exact ⟨_, _, q', rfl, hi, ht⟩
  | borrow =>
    obtain ⟨q', hi, ht⟩ := h.step_borrow
    exact ⟨_, _, q', rfl, hi, ht⟩
  | release =>
    refine h.through rfl fun hg => ?_
    have hl : c.sys.list.unborrow = .ok c.shut.list := by
      simp only [unborrow, h.guard hg, if_true, Client.shut]
    refine ⟨.released, ⟨c.shut, false⟩, q, ?_, ⟨h.shut, fun hf => absurd hf Bool.false_ne_true⟩,
      rfl⟩
    rw [hl]
    rfl
  | forget =>
    exact h.through rfl fun _ => ⟨.forgotten, { c with guard := false }, q, rfl,
      ⟨h.shut, fun hf => absurd hf Bool.false_ne_true⟩, rfl⟩
  | isEmpty => exact h.through rfl fun _ => ⟨_, c, q, rfl, h, rfl⟩
  | headInput =>
    refine h.through rfl fun _ => ⟨.out (.head q.headInput), c, q, ?_, h, rfl⟩
    rw [headInput_refines h.rep]
    rfl
  | headInputMut change =>
    refine h.through rfl fun _ => ?_
    obtain ⟨i, t, q', ht, hi⟩ := h.headInputMut change
    exact ⟨_, t, q', ht, hi, rfl⟩
  | wakeOne output =>
    refine h.through rfl fun hg => ?_
    obtain ⟨out, s, q', hs, hi, -⟩ := h.shut.step (.wakeOne output)
    obtain ⟨l, hw, hl, hb⟩ := wakeOne_kept (h.guard hg) hs
    refine ⟨_, _, q', hw, ⟨?_, fun _ => hb⟩, rfl⟩
    have hshut : Client.shut ⟨{ s with list := l }, c.guard⟩ = s := by
      rw [Client.shut]
      simp only [← hl]
    rw [hshut]
    exact hi

omit [Waker W] in
/-- A new list is not borrowed. -/
theorem Inv.new : Inv (Client.new : Client I O W) WaitQueue.empty := ⟨WaitList.Inv.new, nofun⟩

/-- A list whose guard was leaked stays as it is. -/
theorem Inv.frozen (h : Inv c q) (hg : c.guard = false) (hb : c.sys.list.borrowed = true)
    {uses : List (Use I O W)} {seen : List (Seen I O)} {t : Client I O W}
    (hr : run Client.step c uses = .ok (seen, t)) : t.sys.list = c.sys.list ∧ t.guard = false := by
  induction uses generalizing c q seen with
  | nil =>
    cases hr
    exact ⟨rfl, hg⟩
  | cons use uses ih =>
    by_cases ha : Aborts c use
    · rw [run, h.aborts ha] at hr
      cases hr
    · obtain ⟨out, d, q', hs, hi, ht⟩ := h.step ha
      obtain ⟨hl, hguard⟩ := ht.exclusive hb (Or.inr hg)
      rw [run, hs] at hr
      cases hrest : run Client.step d uses with
      | error e => simp [hrest] at hr
      | ok r =>
        simp only [hrest, Except.ok.injEq, Prod.mk.injEq] at hr
        obtain ⟨hl', hg'⟩ := ih hi (hguard.trans hg) (by rw [hl]; exact hb)
          (by rw [hrest, ← hr.2])
        exact ⟨hl'.trans hl, hg'⟩

/-- In the hands of a client that keeps or leaks guards the list stays what it is: its
pointers represent the waiters that were enqueued and neither woken nor dropped, and every
input and output is in one place. While there is a guard no other one is given out, and only
calls through it change the list; the list of a leaked guard never changes again. A `borrow`
or a first poll of a borrowed list panics. No other call panics, and the process is aborted
exactly where a polled future is polled or dropped while the list is borrowed. -/
theorem guards_are_exclusive (uses : List (Use I O W)) :
    (∃ seen c, run step (new : Client I O W) uses = .ok (seen, c) ∧
      Along step (fun c use => ¬ Aborts c use) (new : Client I O W) uses ∧
      Represents c.sys.list c.sys.log.waiting ∧
      c.sys.log.entered.Perm (c.sys.unresumed ++ c.sys.list.heldInputs c.sys.next ++
        c.sys.log.returned ++ c.sys.log.droppedInputs) ∧
      c.sys.log.stored.Perm (c.sys.list.heldOutputs c.sys.next ++ c.sys.log.resolved ++
        c.sys.log.droppedOutputs) ∧
      (c.guard = true → c.sys.list.borrowed = true) ∧
      (∀ use, Aborts c use → c.step use = .error .abort) ∧
      (∀ use, ¬ Aborts c use → ∃ out t, c.step use = .ok (out, t) ∧ Turns c use out t) ∧
      (c.guard = false → c.sys.list.borrowed = true → ∀ more later t,
        run step c more = .ok (later, t) → t.sys.list = c.sys.list ∧ t.guard = false)) ∨
    (run step (new : Client I O W) uses = .error .abort ∧
      ¬ Along step (fun c use => ¬ Aborts c use) (new : Client I O W) uses) := by
  have hstep : ∀ (c : Client I O W) (use : Use I O W), (∃ q, Inv c q) → ¬ Aborts c use →
      ∃ out t, c.step use = .ok (out, t) ∧ ∃ q, Inv t q := by
    rintro c use ⟨q, h⟩ hn
    obtain ⟨out, t, q', hs, hi, -⟩ := h.step hn
    exact ⟨out, t, hs, q', hi⟩
  have hfault : ∀ (c : Client I O W) (use : Use I O W), (∃ q, Inv c q) → ¬ ¬ Aborts c use →
      c.step use = .error .abort := by
    rintro c use ⟨q, h⟩ ha
    exact h.aborts (Classical.not_not.mp ha)
  refine (run_or_fault hstep hfault ⟨WaitQueue.empty, Inv.new⟩ uses).imp_left ?_
  rintro ⟨seen, c, hr, ⟨q, h⟩, halong⟩
  obtain ⟨hin, hout⟩ := h.shut.held
  refine ⟨seen, c, hr, halong, ?_, ?_, ?_, h.guard, fun use ha => h.aborts ha, ?_, ?_⟩
  · have horder : q.parked.map Prod.fst = c.sys.log.waiting := h.shut.order
    rw [← horder]
    exact h.rep.represents
  · exact h.shut.inputs.trans (((hin.symm.append_left _).append_right _).append_right _)
  · exact h.shut.outputs.trans ((hout.symm.append_right _).append_right _)
  · intro use hn
    obtain ⟨out, t, -, hs, -, ht⟩ := h.step hn
    exact ⟨out, t, hs, ht⟩
  · intro hg hb more later t hrun
    exact h.frozen hg hb hrun

end Client

end WaitList
end Unsync
