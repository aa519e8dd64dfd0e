import Mathlib.Data.Set.Insert
import Unsync.Lib.Simulation
import Unsync.OnceCell.Polls

/-!
# Cells are registers

The methods of `src/once_cell.rs` that own the cell, and what a cell is for: a register that
is empty, claimed by the caller that is to fill it, or full. Cells are made, cloned, compared,
emptied, written through their owner and consumed in any order, and in between they are shared
by any number of callers; whatever is done, every step of the cells is one of registers.
-/

namespace Unsync
namespace OnceCell

open Runs

variable {V E : Type}

/-- `OnceCell::get_mut`, `src/once_cell.rs:91–96`, and a write through the reference. The
old value is what the reference showed first. -/
def getMut (c : OnceCell V) (change : V → V) : Option V × OnceCell V :=
  match c.state with
  | .initialized value => (some value, { c with state := .initialized (change value) })
  | _ => (none, c)

/-- `OnceCell::into_inner`, `src/once_cell.rs:337–342`. -/
def intoInner (c : OnceCell V) : Option V :=
  match c.state with
  | .uninit | .initializing => none
  | .initialized value => some value

/-- `OnceCell::take`, `src/once_cell.rs:323–325`. What `mem::take` leaves is the default,
`src/once_cell.rs:357–359`. -/
def take (c : OnceCell V) : Option V × OnceCell V := (c.intoInner, .new)

/-- `OnceCell::from`, `src/once_cell.rs:363–368`. -/
def fromValue (value : V) : OnceCell V := ⟨.initialized value, .empty⟩

/-- `OnceCell::eq`, `src/once_cell.rs:372–374`, for the values' own comparison. -/
def eq [BEq V] (c d : OnceCell V) : Bool := c.get == d.get

/-- `OnceCell::clone`, `src/once_cell.rs:379–381`, for the values' own copy. -/
def clone (copy : V → V) (c : OnceCell V) : OnceCell V :=
  match c.get.map copy with
  | none => .new
  | some value => .fromValue value

/-- `SetResult::ok`, `src/once_cell.rs:401–406`. -/
def SetResult.toResult : SetResult V → Except V V
  | .ok value => .ok value
  | .initializing value | .initialized _ value => .error value

/-- `SetResult::value`, `src/once_cell.rs:409–414`. -/
def SetResult.value : SetResult V → Option V
  | .ok value | .initialized value _ => some value
  | .initializing _ => none

/-- `SetResult::unwrap`, `src/once_cell.rs:418–424`, with the messages of its panics. -/
def SetResult.unwrap : SetResult V → Except String V
  | .ok value => .ok value
  | .initializing _ => .error "`OnceCell` was being initialized"
  | .initialized _ _ => .error "`OnceCell` was already initialized"

/-! ### Registers -/

/-- The method that an operation calls, and the value it offers. -/
def Op.opens : Op V E → Option (Kind × Option V)
  | .getOrTryInit => some (.getOrTryInit, none)
  | .getOrInit => some (.getOrInit, none)
  | .insert value => some (.insert, some value)
  | _ => none

/-- The calls that wait behind the one that claimed the cell. -/
def Content.line : Content V → List Call
  | .claimed _ line => line
  | _ => []

/-- A write to the value, if there is one. -/
def Content.change (f : V → V) : Content V → Content V
  | .full value => .full (f value)
  | content => content

/-- What a register holds, the values that its callers offered to insert, and the callers that
did not get an answer. -/
@[ext] structure Register (V : Type) where
  content : Content V
  offers : Call → Option V
  callers : Set Call

namespace Register

/-- A register that nobody calls. -/
def holding (value : Option V) : Register V := ⟨value.elim .empty .full, fun _ => none, ∅⟩

/-- A caller got its answer, or lost interest. If it had claimed the register, the first in
line claims it. -/
def leave (r : Register V) (call : Call) : Register V :=
  { r with content := r.content.without call, callers := r.callers \ {call} }

/-- A caller gives the register its value. -/
def fill (r : Register V) (call : Call) (value : V) : Register V :=
  { r with content := .full value, callers := r.callers \ {call} }

/-- A call comes, with the value it offers. -/
def come (r : Register V) (call : Call) (offer : Option V) : Register V :=
  { r with
    offers := Function.update r.offers call offer
    callers := insert call r.callers }

/-- Whoever is ahead of others did not get an answer, and nobody is in line twice. -/
def Orderly (r : Register V) : Prop :=
  ∀ owner line, r.content = .claimed owner line →
    (owner :: line).Nodup ∧ ∀ c ∈ owner :: line, c ∈ r.callers

/-- A caller asks, and its initializer has an outcome if it is asked in turn. The caller waits
in line while another one has claimed the register. Where nobody else has, an initializer that is
not done has the caller claim the register, one that failed or panicked is the answer, and a
value fills the register; that of an insert is done at once. A full register answers at once. -/
inductive Asked (r : Register V) (call : Call) :
    Outcome V E → Out V E → Register V → Prop where
  | waits (outcome : Outcome V E) {owner : Call} {line : List Call}
    (hc : r.content = .claimed owner line) (hne : owner ≠ call) :
    Asked r call outcome .pending { r with content := r.content.join call }
  | runs (hf : r.content.Free call) (hk : call.kind ≠ .insert) :
    Asked r call .pending .pending { r with content := .claimed call r.content.line }
  | fails (error : E) (hf : r.content.Free call) (hk : call.kind = .getOrTryInit) :
    Asked r call (.err error) (.ready (.err error)) (r.leave call)
  | panics (hf : r.content.Free call) (hk : call.kind ≠ .insert) :
    Asked r call .panic .panicked (r.leave call)
  | fills (value : V) (hf : r.content.Free call) (hk : call.kind ≠ .insert) :
    Asked r call (.ok value) (.ready (.ok value)) (r.fill call value)
  | inserts (outcome : Outcome V E) (value : V) (hf : r.content.Free call)
    (hk : call.kind = .insert) (ho : r.offers call = some value) :
    Asked r call outcome (.ready (.ok value)) (r.fill call value)
  | finds (outcome : Outcome V E) (value : V) (hc : r.content = .full value)
    (hk : call.kind ≠ .insert) : Asked r call outcome (.ready (.ok value)) (r.leave call)
  | rejects (outcome : Outcome V E) (value own : V) (hc : r.content = .full value)
    (hk : call.kind = .insert) (ho : r.offers call = some own) :
    Asked r call outcome (.ready (.rejected value own)) (r.leave call)

/-- What a caller is told and what the register holds then leave no choice. -/
theorem Asked.unique {r r₁ r₂ : Register V} {call : Call} {outcome : Outcome V E}
    {out₁ out₂ : Out V E} (h₁ : r.Asked call outcome out₁ r₁) (h₂ : r.Asked call outcome out₂ r₂) :
    out₁ = out₂ ∧ r₁ = r₂ := by
  cases hc : r.content with
  | empty => cases h₁ <;> cases h₂ <;> grind
  | claimed owner line =>
    by_cases ho : owner = call
    · cases h₁ <;> cases h₂ <;> grind
    · have hf : ¬ r.content.Free call := by
        rw [hc]
        exact ho
      cases h₁ <;> cases h₂ <;> grind
  | full value =>
    have hf : ¬ r.content.Free call := by
      rw [hc]
      exact id
    cases h₁ <;> cases h₂ <;> grind

/-- What those who share a register can do to it. -/
inductive Does (r : Register V) : Op V E → Out V E → Register V → Prop where
  | comes {op : Op V E} {kind : Kind} {offer : Option V} (ho : op.opens = some (kind, offer))
    (serial : Nat) (hn : ⟨serial, kind⟩ ∉ r.callers) :
    Does r op (.created ⟨serial, kind⟩) (r.come ⟨serial, kind⟩ offer)
  | poll (call : Call) (outcome : Outcome V E) {out : Out V E} {r' : Register V}
    (hc : call ∈ r.callers) (ha : Sys.admits call outcome = true)
    (h : Asked r call outcome out r') : Does r (.poll call outcome) out r'
  | refused (call : Call) (outcome : Outcome V E)
    (hc : call ∉ r.callers ∨ Sys.admits call outcome = false) :
    Does r (.poll call outcome) .ignored r
  | cancel (call : Call) (hc : call ∈ r.callers) : Does r (.cancel call) .dropped (r.leave call)
  | unknown (call : Call) (hc : call ∉ r.callers) : Does r (.cancel call) .ignored r
  | stored (value : V) (hc : r.content = .empty) :
    Does r (.set value) (.set (.ok value)) { r with content := .full value }
  | busy (value : V) {owner : Call} {line : List Call} (hc : r.content = .claimed owner line) :
    Does r (.set value) (.set (.initializing value)) r
  | full (value reference : V) (hc : r.content = .full reference) :
    Does r (.set value) (.set (.initialized reference value)) r
  | get : Does r .get (.got r.content.value) r

/-- The answer of `set` shows what the register holds afterwards. Whether the value was
stored is what `ok` and `unwrap` say, and `ok` hands it back if it was not. -/
theorem Does.set_result {r r' : Register V} {value : V} {result : SetResult V}
    (h : r.Does (.set value : Op V E) (.set result) r') :
    result.value = r'.content.value ∧
      ((r.content = .empty ∧ r'.content = .full value ∧
          result.toResult = .ok value ∧ result.unwrap = .ok value) ∨
        (r' = r ∧ result.toResult = .error value ∧ ∃ message, result.unwrap = .error message)) := by
  cases h with
  | stored _ hc => exact ⟨rfl, Or.inl ⟨hc, rfl, rfl, rfl⟩⟩
  | busy _ hc => exact ⟨by rw [hc]; rfl, Or.inr ⟨rfl, rfl, _, rfl⟩⟩
  | full _ reference hc => exact ⟨by rw [hc]; rfl, Or.inr ⟨rfl, rfl, _, rfl⟩⟩

end Register

/-- What the state of a cell is to those who use it. -/
def Sys.register (s : Sys V E) : Register V := ⟨s.content, s.given, {c | c ∈ s.alive}⟩

section Shared

variable {s t : Sys V E}

private theorem Inv.get_eq (h : Inv s) : s.cell.get = s.produced.head?.map Prod.snd := by
  have hs := h.ledger.stored
  cases hc : s.cell.state with
  | initialized v =>
    rw [Stored, hc] at hs
    obtain ⟨source, hp⟩ := hs
    rw [OnceCell.get, hc, hp]
    rfl
  | _ =>
    rw [Stored, hc] at hs
    rw [OnceCell.get, hc, hs]
    rfl

private theorem get_eq_some {c : OnceCell V} {value : V} :
    c.get = some value ↔ c.state = .initialized value := by
  cases hc : c.state with
  | initialized v => simp only [OnceCell.get, hc, Option.some.injEq, State.initialized.injEq]
  | _ => simp only [OnceCell.get, hc, reduceCtorEq]

private theorem content_eq_full {value : V} :
    s.content = .full value ↔ s.cell.state = .initialized value := by
  cases hc : s.cell.state with
  | uninit => simp [Sys.content, hc]
  | initialized v => simp [Sys.content, hc]
  | initializing =>
    cases hl : s.running ++ s.cell.waiters.woken.map Prod.fst with
    | nil => simp [Sys.content, hc, hl]
    | cons owner rest => simp [Sys.content, hc, hl]

private theorem content_value (s : Sys V E) : s.content.value = s.cell.get := by
  cases hv : s.cell.get with
  | some v =>
    rw [content_eq_full.mpr (get_eq_some.mp hv)]
    rfl
  | none =>
    cases hc : s.content with
    | full v =>
      rw [get_eq_some.mpr (content_eq_full.mp hc)] at hv
      cases hv
    | _ => rfl

private theorem Inv.claimed (h : Inv s) {owner : Call} {line : List Call}
    (hc : s.content = .claimed owner line) :
    Owner s owner ∧ line = s.cell.waiters.parked.map Prod.fst := by
  cases hs : s.cell.state with
  | initializing =>
    obtain ⟨owner', ho⟩ := h.has_owner hs
    cases hc.symm.trans (h.content_owner ho)
    exact ⟨ho, rfl⟩
  | _ =>
    simp only [Sys.content, hs] at hc
    cases hc

private theorem Inv.line_eq (h : Inv s) : s.content.line = s.cell.waiters.parked.map Prod.fst := by
  have hj := h.job
  cases hs : s.cell.state with
  | initializing =>
    obtain ⟨owner, ho⟩ := h.has_owner hs
    rw [h.content_owner ho]
    rfl
  | _ =>
    rw [Job, hs] at hj
    simp only [Sys.content, hs, hj.1]
    rfl

private theorem Inv.without_free (h : Inv s) {call : Call} (hf : s.content.Free call) :
    s.content.without call = .next (s.cell.waiters.parked.map Prod.fst) := by
  have hline := h.line_eq
  cases hc : s.content with
  | empty =>
    rw [hc] at hline
    rw [← hline]
    rfl
  | claimed owner line =>
    rw [hc] at hline hf
    rw [← hline]
    exact if_pos hf
  | full v =>
    rw [hc] at hf
    cases hf

private theorem Inv.without_other (h : Inv s) {call : Call} (ho : ¬ Owner s call)
    (hq : ¬ Queued s call) :
    s.content.without call = s.content := by
  cases hc : s.content with
  | claimed owner line =>
    obtain ⟨howner, rfl⟩ := h.claimed hc
    have hne : owner ≠ call := fun he => ho (he ▸ howner)
    rw [Content.without, if_neg hne, List.erase_of_not_mem hq]
  | _ => rfl

/-- Whoever is ahead of others is alive. -/
theorem Inv.orderly (h : Inv s) : s.register.Orderly := by
  intro owner line hc
  obtain ⟨ho, rfl⟩ := h.claimed hc
  have hn := (List.nodup_append.mp (List.nodup_append.mp (List.nodup_append.mp
    h.alive_nodup).1).1).2.1
  refine ⟨List.nodup_cons.mpr ⟨(h.owner_place ho).2.1, hn⟩, fun c hm => ?_⟩
  rcases List.mem_cons.mp hm with rfl | hm
  · exact ho.alive
  · show c ∈ s.alive
    simp only [Sys.alive, Sys.pending, List.mem_append]
    tauto

private theorem Passed.content {parked : List (Call × Unit)} (h : Passed parked t) :
    t.content = .next (parked.map Prod.fst) := by
  cases parked with
  | nil => simp only [Sys.content, show t.cell.state = .uninit from h, List.map_nil, Content.next]
  | cons p rest =>
    obtain ⟨hs, hr, hw, hp⟩ := h
    simp only [Sys.content, hs, hr, hw, hp, List.map_cons, List.map_nil, List.nil_append,
      Content.next]

private theorem register_eq {r : Register V} (hv : s.content = r.content) (hg : s.given = r.offers)
    (hc : ∀ c, c ∈ s.alive ↔ c ∈ r.callers) : s.register = r :=
  Register.ext hv hg (Set.ext hc)

/-- A call that comes is alive, and it was not before. -/
theorem Inv.comes (h : Inv s) {op : Op V E} {kind : Kind} {offer : Option V}
    (ho : op.opens = some (kind, offer)) :
    s.register.Does op (s.create kind offer).1 (s.create kind offer).2.register := by
  have hn : (⟨s.calls, kind⟩ : Call) ∉ s.alive := by
    intro hm
    have hstarted : (⟨s.calls, kind⟩ : Call) ∈ s.pending ++ s.invoked :=
      List.mem_append.mpr ((List.mem_append.mp hm).imp_right fun hr => (h.begun _ hr).1)
    exact Nat.lt_irrefl _ (h.ledger.numbered _ (List.mem_append_left _ hstarted))
  have hr : (s.create kind offer).2.register = s.register.come ⟨s.calls, kind⟩ offer := by
    apply register_eq
    · rfl
    · rfl
    · intro c
      simp only [Sys.alive, Sys.pending, Sys.create, Sys.register, Register.come,
        Set.mem_insert_iff, Set.mem_ofPred_eq, List.mem_append, List.mem_singleton]
      tauto
  rw [hr]
  exact .comes ho s.calls hn

private theorem Inv.mem_left (h : Inv s) {call : Call} {others : List Call}
    (hp : s.alive.Perm (call :: others)) (c : Call) :
    c ∈ others ↔ c ∈ (s.register.leave call).callers := by
  have hn := List.nodup_cons.mp (hp.nodup_iff.mp h.alive_nodup)
  simp only [Register.leave, Sys.register, Set.mem_sdiff, Set.mem_ofPred_eq, Set.mem_singleton_iff,
    hp.mem_iff, List.mem_cons]
  constructor
  · intro hc
    refine ⟨Or.inr hc, ?_⟩
    rintro rfl
    exact hn.1 hc
  · exact fun ⟨hc, hne⟩ => hc.resolve_left hne

private theorem Inv.leaves (h : Inv s) {call : Call} {others : List Call}
    (hp : s.alive.Perm (call :: others)) (ht : t.alive.Perm others) (hg : t.given = s.given)
    (hc : t.content = s.content.without call) : t.register = s.register.leave call :=
  register_eq hc hg fun c => ht.mem_iff.trans (h.mem_left hp c)

/-- The calls that are left when one has left its place. -/
private theorem perm_left {call : Call}
    (h : ∀ c, s.alive.count c = t.alive.count c + [call].count c) :
    s.alive.Perm (call :: t.alive) := by
  rw [List.perm_iff_count]
  intro c
  show _ = ([call] ++ t.alive).count c
  rw [List.count_append, h c, Nat.add_comm]

/-- A cancelled call leaves, and if it had claimed the cell, the first in line claims it. -/
private abbrev Cancels (s : Sys V E) (call : Call) (t : Sys V E) : Prop :=
  t.given = s.given ∧ t.content = s.content.without call ∧ s.alive.Perm (call :: t.alive)

private theorem Inv.cancels_owner (h : Inv s) {call : Call} (ho : Owner s call)
    (hp : Passed s.cell.waiters.parked t) : t.content = s.content.without call := by
  have hfree : s.content.Free call := by
    rw [h.content_owner ho]
    rfl
  rw [h.without_free hfree]
  exact hp.content

private theorem Inv.cancels_fresh (h : Inv s) {call : Call} (hf : call ∈ s.fresh) :
    Cancels s call { s with fresh := s.fresh.erase call } := by
  have hno : ¬ Owner s call := fun ho => (h.owner_place ho).1 hf
  refine ⟨rfl, (h.without_other hno (h.fresh_not_queued hf)).symm, perm_left fun c => ?_⟩
  have hc := count_of_mem hf c
  rw [alive_count, alive_count]
  dsimp only
  omega

private theorem Inv.cancels_parked (h : Inv s) {call : Call} {u : Unit}
    (hp : s.cell.waiters.parked.lookup call = some u) :
    Cancels s call { s with cell := { s.cell with waiters := { s.cell.waiters with
      parked := eraseKey call s.cell.waiters.parked } } } := by
  have hq : Queued s call := List.mem_map.mpr ⟨_, mem_of_lookup hp, rfl⟩
  refine ⟨rfl, ?_, perm_left fun c => ?_⟩
  · obtain ⟨owner, ho, hne⟩ := h.behind (h.queued_state hq) (Or.inr hq)
    have hn := (List.nodup_cons.mp (h.orderly owner _ (h.content_owner ho)).1).2
    rw [h.content_owner ho, (h.cancel_parked hp).content_owner ho, Content.without, if_neg hne,
      map_eraseKey hn hp, List.Nodup.erase_eq_filter hn]
    congr 2
    funext c
    rw [Bool.eq_iff_iff]
    simp
  · have hc := count_eraseKey hp c
    rw [alive_count, alive_count]
    dsimp only
    omega

private theorem Inv.cancels_woken (h : Inv s) {call : Call} {b : Baton}
    (hw : s.cell.waiters.woken.lookup call = some b) :
    Cancels s call { s with cell := (s.cell.collect call).passOn } := by
  have hwoken : call ∈ s.cell.waiters.woken.map Prod.fst :=
    List.mem_map.mpr ⟨_, mem_of_lookup hw, rfl⟩
  refine ⟨rfl, ?_, perm_left fun c => ?_⟩
  · cases hstate : s.cell.state with
    | uninit =>
      have hj := h.job
      rw [Job, hstate] at hj
      rw [hj.2.1] at hwoken
      cases hwoken
    | initializing =>
      exact h.cancels_owner ⟨hstate, Or.inr hwoken⟩ ((h.cancel_woken hw).2 hstate)
    | initialized v =>
      rw [content_eq_full.mpr hstate]
      refine content_eq_full.mpr ?_
      simp [OnceCell.passOn, collect, hstate]
  · have hc := count_eraseKey hw c
    have hplaces := (passOn_places (s.cell.collect call)).1 c
    rw [alive_count, alive_count]
    simp only [collect] at hplaces ⊢
    omega

private theorem Inv.cancels_running (h : Inv s) {call : Call} (hr : call ∈ s.running)
    (hp : Owner s call → Passed s.cell.waiters.parked
      { s with cell := s.cell.passOn, running := s.running.erase call }) :
    Cancels s call { s with cell := s.cell.passOn, running := s.running.erase call } := by
  have ho : Owner s call := ⟨(h.sole_running hr).1, Or.inl hr⟩
  refine ⟨rfl, h.cancels_owner ho (hp ho), perm_left fun c => ?_⟩
  have hc := count_of_mem hr c
  have hplaces := (passOn_places s.cell).1 c
  rw [alive_count, alive_count]
  dsimp only
  omega

/-- A caller that is cancelled leaves the register, from whichever place. -/
theorem Inv.cancels (h : Inv s) {call : Call} (hm : call ∈ s.alive) :
    ∃ t, s.cancel call = .ok (.dropped, t) ∧ Inv t ∧ t.register = s.register.leave call := by
  have hi := h.ledger.idle
  obtain ⟨out, t, hs, ht, -, hpass⟩ := h.cancel call
  have hleaves {u : Sys V E} (hu : s.cancel call = .ok (.dropped, u))
      (hc : t = u → Cancels s call u) :
      ∃ t, s.cancel call = .ok (.dropped, t) ∧ Inv t ∧ t.register = s.register.leave call := by
    cases Except.ok.inj (hs.symm.trans hu)
    obtain ⟨hg, hcontent, hp⟩ := hc rfl
    exact ⟨_, hu, ht, h.leaves hp (List.Perm.refl _) hg hcontent⟩
  by_cases hf : call ∈ s.fresh
  · exact hleaves (by simp only [Sys.cancel, hf, if_true]) fun _ => h.cancels_fresh hf
  · by_cases hwait : s.waiting call
    · cases hp : s.cell.waiters.parked.lookup call with
      | some u =>
        refine hleaves ?_ fun _ => h.cancels_parked hp
        simp only [Sys.cancel, hf, hwait, if_true, if_false, dropWaiting_parked hi hp, ok_bind]
      | none =>
        cases hw : s.cell.waiters.woken.lookup call with
        | none => exact absurd hwait (by simp [Sys.waiting, lookup_none.mp hp, lookup_none.mp hw])
        | some b =>
          refine hleaves ?_ fun _ => h.cancels_woken hw
          simp only [Sys.cancel, hf, hwait, if_true, if_false, dropWaiting_woken hi hp hw, ok_bind]
    · have hr : call ∈ s.running := by
        simp only [Sys.alive, Sys.pending, List.mem_append] at hm
        simp only [Sys.waiting, not_or] at hwait
        tauto
      refine hleaves ?_ fun ht => h.cancels_running hr (ht ▸ hpass)
      simp only [Sys.cancel, hf, hwait, hr, if_true, if_false, dropRunning, dropBaton_eq hi,
        ok_bind]

private theorem refused {call : Call} (hm : call ∉ s.alive) (outcome : Outcome V E) :
    s.poll call outcome = .ok (.ignored, s) ∧ s.cancel call = .ok (.ignored, s) := by
  simp only [Sys.alive, Sys.pending, List.mem_append, not_or] at hm
  have hwait : ¬ s.waiting call := not_or.mpr ⟨hm.1.1.2, hm.1.2⟩
  simp only [Sys.poll, Sys.cancel, hm.1.1.1, hwait, hm.2, if_false, ite_self, and_self]

private theorem Effect.yielded {call : Call} {outcome : Outcome V E} (he : Effect s call outcome t)
    (h : Inv s) (ht : Inv t) (hn : s.cell.get = none) {value : V} (hv : t.cell.get = some value) :
    (Source.call call, value) ∈ t.produced ∧ Yields s call outcome value := by
  rw [h.get_eq, Option.map_eq_none_iff, List.head?_eq_none_iff] at hn
  rw [ht.get_eq, Option.map_eq_some_iff] at hv
  obtain ⟨⟨source, v⟩, hm, rfl⟩ := hv
  have hmem := List.mem_of_mem_head? hm
  rcases he.produced _ hmem with hold | ⟨v', hp, hy⟩
  · rw [hn] at hold
    cases hold
  · cases hp
    exact ⟨hmem, hy⟩

/-- Full cells stay as they are. -/
theorem Inv.stays (h : Inv s) {op : Op V E} {out : Out V E} (hs : s.step op = .ok (out, t))
    {value : V} (hv : s.cell.get = some value) :
    t.cell.get = some value ∧ t.invoked = s.invoked := by
  obtain ⟨out', t', hs', hk⟩ := h.step_kept (get_eq_some.mp hv) op
  cases (Except.ok.inj (hs.symm.trans hs'))
  exact ⟨get_eq_some.mpr hk.state, hk.invoked⟩

private theorem Inv.full_not_invoked (h : Inv s) {call : Call} (hm : call ∈ s.alive) {value : V}
    (hv : s.cell.get = some value) : call ∉ s.invoked := by
  have hj := h.job
  rw [Job, get_eq_some.mp hv] at hj
  rw [Sys.alive, hj.2, List.append_nil] at hm
  exact h.ledger.not_invoked hm

/-- A poll of a call that nobody is ahead of. -/
theorem Inv.asks_free (h : Inv s) (ht : Inv t) {call : Call} {outcome : Outcome V E}
    {out : Out V E} {others : List Call} (ha : Sys.admits call outcome = true)
    (hf : s.content.Free call) (he : Effect s call outcome t)
    (hp : s.alive.Perm (call :: others))
    (hc : Comes call outcome others (s.cell.waiters.parked.map Prod.fst) t out)
    (hpass : out.failed = true → Passed s.cell.waiters.parked t) :
    s.register.Asked call outcome out t.register := by
  have hempty : s.cell.get = none := by
    rw [← content_value]
    cases hcontent : s.content with
    | full v =>
      rw [hcontent] at hf
      cases hf
    | _ => rfl
  have hleave (hperm : t.alive.Perm others) (hfail : out.failed = true) :
      t.register = s.register.leave call :=
    h.leaves hp hperm he.given ((hpass hfail).content.trans (h.without_free hf).symm)
  cases hc with
  | runs ho hr hcontent hperm =>
    have hclaim : t.register =
        { s.register with content := .claimed call s.register.content.line } := by
      refine register_eq ?_ he.given fun c => hperm.mem_iff.trans hp.mem_iff.symm
      rw [hcontent, ← h.line_eq]
      rfl
    rw [hclaim, ho]
    exact .runs hf (ht.begun call hr).2
  | panicked ho hk hperm =>
    rw [hleave hperm rfl, ho]
    exact .panics hf hk
  | ready result hres herr hperm =>
    have hfit := ht.ledger.results _ hres
    cases result with
    | err error =>
      have ho := herr error rfl
      rw [hleave hperm rfl, ho]
      rw [ho] at ha
      exact .fails error hf (by simpa [Sys.admits] using ha)
    | ok value =>
      have hv : t.cell.get = some value := get_eq_some.mpr hfit.1
      have hfill : t.register = s.register.fill call value :=
        register_eq (content_eq_full.mpr hfit.1) he.given fun c =>
          hperm.mem_iff.trans (h.mem_left hp c)
      obtain ⟨-, hy⟩ := he.yielded h ht hempty hv
      rw [hfill]
      unfold Yields at hy
      by_cases hk : call.kind = .insert
      · rw [if_pos hk] at hy
        exact .inserts outcome value hf hk hy
      · rw [if_neg hk] at hy
        rw [hy]
        exact .fills value hf hk
    | rejected value own =>
      obtain ⟨hstate, -, -, hnot⟩ := hfit
      exact absurd (he.yielded h ht hempty (get_eq_some.mpr hstate)).1 (hnot value)

/-- A poll of a call while the cell is full. -/
theorem Inv.asks_full (h : Inv s) (ht : Inv t) {call : Call} {outcome : Outcome V E}
    {out : Out V E} {others : List Call} {value : V}
    (hs : s.step (.poll call outcome) = .ok (out, t)) (hm : call ∈ s.alive)
    (hv : s.content = .full value) (he : Effect s call outcome t)
    (hp : s.alive.Perm (call :: others))
    (hc : Comes call outcome others (s.cell.waiters.parked.map Prod.fst) t out)
    (hpass : out.failed = true → Passed s.cell.waiters.parked t) :
    s.register.Asked call outcome out t.register := by
  have hget : s.cell.get = some value := get_eq_some.mpr (content_eq_full.mp hv)
  obtain ⟨hget', hinv⟩ := h.stays hs hget
  have hv' : t.content = .full value := content_eq_full.mpr (get_eq_some.mp hget')
  have hno (hfail : out.failed = true) : False := by
    have hnext := (hpass hfail).content
    rw [hv'] at hnext
    cases hparked : s.cell.waiters.parked.map Prod.fst with
    | nil =>
      rw [hparked] at hnext
      cases hnext
    | cons heir rest =>
      rw [hparked] at hnext
      cases hnext
  have hleave (hperm : t.alive.Perm others) : t.register = s.register.leave call := by
    refine h.leaves hp hperm he.given ?_
    rw [hv', hv]
    rfl
  cases hc with
  | runs ho hr hcontent hperm => cases hv'.symm.trans hcontent
  | panicked ho hk hperm => exact (hno rfl).elim
  | ready result hres herr hperm =>
    have hfit := ht.ledger.results _ hres
    rw [hleave hperm]
    cases result with
    | err error => exact (hno rfl).elim
    | ok reference =>
      cases hget'.symm.trans (get_eq_some.mpr hfit.1)
      refine .finds outcome value hv fun hk => h.full_not_invoked hm hget ?_
      rw [← hinv]
      exact ht.ledger.sources (.call call, value) ((hfit.2 hk).2 ▸ List.mem_singleton_self _)
    | rejected reference own =>
      obtain ⟨hstate, hk, hg, -⟩ := hfit
      cases hget'.symm.trans (get_eq_some.mpr hstate)
      rw [he.given] at hg
      exact .rejects outcome value own hv hk hg

/-- A poll of a call is a question to the register. -/
theorem Inv.asks (h : Inv s) {call : Call} {outcome : Outcome V E}
    (ha : Sys.admits call outcome = true) (hm : call ∈ s.alive) :
    ∃ out t, s.step (.poll call outcome) = .ok (out, t) ∧ Inv t ∧
      s.register.Asked call outcome out t.register := by
  obtain ⟨out, t, hs, ht, he, hcomes⟩ := h.polls ha hm
  obtain ⟨out', t', hs', -, hpass⟩ := h.step (.poll call outcome)
  cases (Except.ok.inj (hs.symm.trans hs'))
  refine ⟨out, t, hs, ht, ?_⟩
  rcases hcomes with ⟨rfl, hl⟩ | ⟨-, hf | ⟨v, hv⟩, others, hp, hc⟩
  · obtain ⟨owner, line, hcontent, hne⟩ := hl.behind
    have hjoin : t.register = { s.register with content := s.register.content.join call } :=
      register_eq hl.content he.given fun c => hl.alive.mem_iff
    rw [hjoin]
    exact .waits outcome hcontent hne
  · exact h.asks_free ht ha hf he hp hc fun hfail => hpass (Or.inl hfail)
  · exact h.asks_full ht hs hm hv he hp hc fun hfail => hpass (Or.inl hfail)

/-- A `set` is one of the register. -/
theorem Inv.sets (h : Inv s) (value : V) : ∃ result t, s.set value = .ok (.set result, t) ∧
    Inv t ∧ (s.register : Register V).Does (E := E) (.set value) (.set result) t.register := by
  obtain ⟨result, t, hs, ht⟩ := h.set value
  refine ⟨result, t, hs, ht, ?_⟩
  cases hstate : s.cell.state with
  | uninit =>
    simp only [Sys.set, OnceCell.set, OnceCell.get, hstate, ok_bind] at hs
    cases hs
    have hempty : s.register.content = .empty := by simp only [Sys.register, Sys.content, hstate]
    exact .stored value hempty
  | initializing =>
    simp only [Sys.set, OnceCell.set, hstate, ok_bind] at hs
    cases hs
    obtain ⟨owner, ho⟩ := h.has_owner hstate
    exact .busy value (h.content_owner ho)
  | initialized v =>
    simp only [Sys.set, OnceCell.set, hstate, ok_bind] at hs
    cases hs
    exact .full value v (content_eq_full.mpr hstate)

/-- A step of a cell that is shared is one of a register. -/
theorem Inv.does (h : Inv s) (op : Op V E) :
    ∃ out t, s.step op = .ok (out, t) ∧ Inv t ∧ s.register.Does op out t.register := by
  cases op with
  | getOrTryInit =>
    exact ⟨_, _, rfl, h.create .getOrTryInit none (fun hk => (by cases hk)), h.comes rfl⟩
  | getOrInit =>
    exact ⟨_, _, rfl, h.create .getOrInit none (fun hk => (by cases hk)), h.comes rfl⟩
  | insert value =>
    exact ⟨_, _, rfl, h.create .insert (some value) (fun _ => ⟨value, rfl⟩), h.comes rfl⟩
  | poll call outcome =>
    by_cases hm : call ∈ s.alive
    · cases ha : Sys.admits call outcome with
      | true =>
        obtain ⟨out, t, hs, ht, hasked⟩ := h.asks ha hm
        exact ⟨out, t, hs, ht, .poll call outcome hm ha hasked⟩
      | false =>
        refine ⟨.ignored, s, ?_, h, .refused call outcome (Or.inr ha)⟩
        simp only [Sys.step, Sys.poll, ha, if_true]
    · exact ⟨.ignored, s, (refused hm outcome).1, h, .refused call outcome (Or.inl hm)⟩
  | cancel call =>
    by_cases hm : call ∈ s.alive
    · obtain ⟨t, hs, ht, hr⟩ := h.cancels hm
      refine ⟨.dropped, t, hs, ht, ?_⟩
      rw [hr]
      exact .cancel call hm
    · exact ⟨.ignored, s, (refused hm .pending).2, h, .unknown call hm⟩
  | set value =>
    obtain ⟨result, t, hs, ht, hd⟩ := h.sets value
    exact ⟨.set result, t, hs, ht, hd⟩
  | get =>
    refine ⟨_, s, rfl, h, ?_⟩
    rw [← content_value]
    exact .get

end Shared

/-! ### Cells and their owners -/

/-- A cell whose owner had it alone. No reference to the old value is left, what the cell
holds counts as set by the owner, and whoever waits in it was leaked. -/
def Sys.own (s : Sys V E) (cell : OnceCell V) : Sys V E :=
  match cell.get with
  | none => { s with cell := cell }
  | some value => { s with
      cell := cell
      produced := [(.set 0, value)]
      resolved := []
      sets := [(value, .ok value)] }

/-- Cells in the order in which they were made. One that was consumed leaves a gap. -/
abbrev Cells (V E : Type) := List (Option (Sys V E))

/-- What can be done with cells. -/
inductive Use (V E : Type) where
  | make
  | makeFrom (value : V)
  /-- A method that shares the cell. -/
  | share (n : Nat) (op : Op V E)
  | getMut (n : Nat) (change : V → V)
  | take (n : Nat)
  | intoInner (n : Nat)
  | clone (n : Nat) (copy : V → V)
  | equal (n m : Nat)

/-- The cells that a use is about. -/
def Use.names : Use V E → List Nat
  | .make | .makeFrom _ => []
  | .share n _ | .getMut n _ | .take n | .intoInner n | .clone n _ => [n]
  | .equal n m => [n, m]

/-- What a use returns. -/
inductive Seen (V E : Type) where
  /-- A cell is not there. -/
  | gone
  | made (n : Nat)
  | shared (out : Out V E)
  | value (value : Option V)
  | same (answer : Bool)

namespace Cells

/-- Use a cell that is there. -/
def withCell (cells : Cells V E) (n : Nat)
    (f : Sys V E → Except Fault (Seen V E × Cells V E)) :
    Except Fault (Seen V E × Cells V E) :=
  match cells[n]? with
  | some (some s) => f s
  | _ => .ok (.gone, cells)

/-- One use. -/
def step [BEq V] (cells : Cells V E) : Use V E → Except Fault (Seen V E × Cells V E)
  | .make => .ok (.made cells.length, cells ++ [some .new])
  | .makeFrom value =>
    .ok (.made cells.length, cells ++ [some (Sys.new.own (.fromValue value))])
  | .share n op => cells.withCell n fun s => do
    let (out, s) ← s.step op
    .ok (.shared out, cells.set n (some s))
  | .getMut n change => cells.withCell n fun s =>
    let (value, cell) := s.cell.getMut change
    .ok (.value value, cells.set n (some (s.own cell)))
  | .take n => cells.withCell n fun s =>
    let (value, cell) := s.cell.take
    .ok (.value value, cells.set n (some (Sys.new.own cell)))
  | .intoInner n => cells.withCell n fun s =>
    .ok (.value s.cell.intoInner, cells.set n none)
  | .clone n copy => cells.withCell n fun s =>
    .ok (.made cells.length, cells ++ [some (Sys.new.own (s.cell.clone copy))])
  | .equal n m => cells.withCell n fun s => cells.withCell m fun t =>
    .ok (.same (s.cell.eq t.cell), cells)

/-- What the cells are to those who use them. -/
def registers (cells : Cells V E) : List (Option (Register V)) :=
  cells.map (Option.map Sys.register)

/-- Every cell meets its invariant. -/
def Sound (cells : Cells V E) : Prop := ∀ s, some s ∈ cells → Inv s

end Cells

/-- One use of registers. -/
inductive Registers.Step [BEq V] (rs : List (Option (Register V))) :
    Use V E → Seen V E → List (Option (Register V)) → Prop where
  | gone {use : Use V E} {n : Nat} (hn : n ∈ use.names) (hg : rs[n]?.join = none) :
    Step rs use .gone rs
  | make : Step rs .make (.made rs.length) (rs ++ [some (.holding none)])
  | makeFrom (value : V) :
    Step rs (.makeFrom value) (.made rs.length) (rs ++ [some (.holding (some value))])
  | share {n : Nat} {r r' : Register V} {op : Op V E} {out : Out V E}
    (hn : rs[n]? = some (some r)) (h : r.Does op out r') :
    Step rs (.share n op) (.shared out) (rs.set n (some r'))
  | getMut {n : Nat} {r : Register V} (hn : rs[n]? = some (some r)) (change : V → V) :
    Step rs (.getMut n change) (.value r.content.value)
      (rs.set n (some { r with content := r.content.change change }))
  | take {n : Nat} {r : Register V} (hn : rs[n]? = some (some r)) :
    Step rs (.take n) (.value r.content.value) (rs.set n (some (.holding none)))
  | intoInner {n : Nat} {r : Register V} (hn : rs[n]? = some (some r)) :
    Step rs (.intoInner n) (.value r.content.value) (rs.set n none)
  | clone {n : Nat} {r : Register V} (hn : rs[n]? = some (some r)) (copy : V → V) :
    Step rs (.clone n copy) (.made rs.length) (rs ++ [some (.holding (r.content.value.map copy))])
  | equal {n m : Nat} {r q : Register V} (hn : rs[n]? = some (some r))
    (hm : rs[m]? = some (some q)) :
    Step rs (.equal n m) (.same (r.content.value == q.content.value)) rs

section Owned

variable {s : Sys V E} {cells : Cells V E} {n : Nat}

/-- The owner may put a value into a cell where nobody is parked or runs. -/
theorem Inv.own (h : Inv s) (hp : s.cell.waiters.parked = []) (hr : s.running = [])
    (value : V) : Inv (s.own { s.cell with state := .initialized value }) where
  ledger := {
    idle := h.ledger.idle
    distinct := h.ledger.distinct
    numbered := by
      intro c hc
      refine h.ledger.numbered c (List.mem_append_left _ ?_)
      simpa [Sys.own, OnceCell.get, Sys.pending] using hc
    captured := h.ledger.captured
    alone := h.ledger.alone
    stored := ⟨.set 0, rfl⟩
    sources := by
      intro p hm
      cases List.mem_singleton.mp hm
      exact Nat.one_pos
    results := fun _ hm => (List.not_mem_nil hm).elim
    setResults := by
      intro index v result hm
      cases index with
      | zero =>
        cases hm
        exact ⟨rfl, rfl, rfl⟩
      | succ index => cases hm }
  job := ⟨hp, hr⟩
  begun := h.begun

private theorem Inv.holding (value : Option V) :
    Inv ((Sys.new : Sys V E).own (value.elim .new .fromValue)) := by
  cases value with
  | none => exact Inv.new
  | some v => exact Inv.new.own rfl rfl v

private theorem register_holding (value : Option V) :
    ((Sys.new : Sys V E).own (value.elim .new .fromValue)).register = .holding value := by
  have hnone (c : Call) : c ∈ ([] : List Call) ↔ c ∈ (∅ : Set Call) := by simp
  cases value with
  | none => exact register_eq rfl rfl hnone
  | some v => exact register_eq rfl rfl hnone

/-- A write through `get_mut` changes the value, if there is one. -/
theorem Inv.getMut (h : Inv s) (change : V → V) :
    (s.cell.getMut change).1 = s.register.content.value ∧
      Inv (s.own (s.cell.getMut change).2) ∧
      (s.own (s.cell.getMut change).2).register =
        { s.register with content := s.register.content.change change } := by
  have hvalue : s.register.content.value = s.cell.get := content_value s
  rw [hvalue]
  cases hv : s.cell.get with
  | none =>
    have hsame : s.cell.getMut change = (none, s.cell) := by
      cases hc : s.cell.state with
      | initialized v =>
        rw [get_eq_some.mpr hc] at hv
        cases hv
      | _ => simp only [OnceCell.getMut, hc]
    have hown : s.own s.cell = s := by
      unfold Sys.own
      rw [hv]
    rw [hsame, hown]
    refine ⟨rfl, h, register_eq ?_ rfl fun c => Iff.rfl⟩
    show s.content = s.content.change change
    cases hc : s.content with
    | full v =>
      rw [get_eq_some.mpr (content_eq_full.mp hc)] at hv
      cases hv
    | _ => rfl
  | some v =>
    have hs := get_eq_some.mp hv
    have hj := h.job
    rw [Job, hs] at hj
    have hnew : s.cell.getMut change =
        (some v, { s.cell with state := .initialized (change v) }) := by
      simp only [OnceCell.getMut, hs]
    rw [hnew]
    refine ⟨rfl, h.own hj.1 hj.2 (change v), register_eq ?_ rfl fun c => Iff.rfl⟩
    show Content.full (change v) = s.content.change change
    rw [content_eq_full.mpr hs]
    rfl

private theorem intoInner_eq (c : OnceCell V) : c.intoInner = c.get := by
  unfold OnceCell.intoInner OnceCell.get
  cases c.state <;> rfl

private theorem clone_eq (copy : V → V) (c : OnceCell V) :
    c.clone copy = (c.get.map copy).elim .new .fromValue := by
  unfold OnceCell.clone
  cases c.get.map copy <;> rfl

namespace Cells

@[simp] theorem registers_length (cells : Cells V E) :
    cells.registers.length = cells.length := List.length_map _

@[simp] theorem registers_append (cells : Cells V E) (s : Sys V E) :
    registers (cells ++ [some s]) = cells.registers ++ [some s.register] := List.map_append

@[simp] theorem registers_set (cells : Cells V E) (n : Nat) (s : Option (Sys V E)) :
    registers (cells.set n s) = cells.registers.set n (s.map Sys.register) := List.map_set

private theorem withCell_cases (cells : Cells V E) (n : Nat)
    (f : Sys V E → Except Fault (Seen V E × Cells V E)) :
    (cells.registers[n]?.join = none ∧ cells.withCell n f = .ok (.gone, cells)) ∨
      ∃ s, some s ∈ cells ∧ cells.registers[n]? = some (some s.register) ∧
        cells.withCell n f = f s := by
  unfold withCell
  rw [registers, List.getElem?_map]
  split
  · next s hs => exact Or.inr ⟨s, List.mem_of_getElem? hs, by rw [hs]; rfl, rfl⟩
  · next hn =>
    refine Or.inl ⟨?_, rfl⟩
    rcases hs : cells[n]? with _ | _ | s
    · rfl
    · rfl
    · exact absurd hs (hn s)

private theorem Sound.append (h : cells.Sound) (hs : Inv s) : Sound (cells ++ [some s]) := by
  intro t ht
  rcases List.mem_append.mp ht with ht | ht
  · exact h t ht
  · cases List.mem_singleton.mp ht
    exact hs

private theorem Sound.set (h : cells.Sound) (hs : Inv s) : Sound (cells.set n (some s)) := by
  intro t ht
  rcases List.mem_or_eq_of_mem_set ht with ht | ht
  · exact h t ht
  · cases ht
    exact hs

private theorem Sound.remove (h : cells.Sound) : Sound (cells.set n none) := by
  intro t ht
  rcases List.mem_or_eq_of_mem_set ht with ht | ht
  · exact h t ht
  · cases ht

private theorem Sound.one [BEq V] (h : cells.Sound) {use : Use V E} (hn : n ∈ use.names)
    {f : Sys V E → Except Fault (Seen V E × Cells V E)}
    (hstep : cells.step use = cells.withCell n f)
    (hf : ∀ s, Inv s → cells.registers[n]? = some (some s.register) →
      ∃ seen cells', f s = .ok (seen, cells') ∧ Sound cells' ∧
        Registers.Step cells.registers use seen cells'.registers) :
    ∃ seen cells', cells.step use = .ok (seen, cells') ∧ Sound cells' ∧
      Registers.Step cells.registers use seen cells'.registers := by
  rw [hstep]
  rcases cells.withCell_cases n f with ⟨hgone, he⟩ | ⟨s, hm, hs, he⟩
  · exact ⟨.gone, cells, he, h, .gone hn hgone⟩
  · rw [he]
    exact hf s (h s hm) hs

/-- A use of cells is one of registers. -/
theorem Sound.step [BEq V] (h : cells.Sound) (use : Use V E) :
    ∃ seen cells', cells.step use = .ok (seen, cells') ∧ Sound cells' ∧
      Registers.Step cells.registers use seen cells'.registers := by
  cases use with
  | make =>
    refine ⟨_, _, rfl, h.append Inv.new, ?_⟩
    have hr : (Sys.new : Sys V E).register = .holding none := register_holding none
    rw [registers_append, hr, ← cells.registers_length]
    exact .make
  | makeFrom value =>
    refine ⟨_, _, rfl, h.append (Inv.holding (some value)), ?_⟩
    have hr : (Sys.new.own (.fromValue value) : Sys V E).register = .holding (some value) :=
      register_holding (some value)
    rw [registers_append, hr, ← cells.registers_length]
    exact .makeFrom value
  | share n op =>
    refine h.one (List.mem_singleton_self n) rfl fun s hs hn => ?_
    obtain ⟨out, t, hstep, ht, hd⟩ := hs.does op
    refine ⟨.shared out, cells.set n (some t), by simp only [hstep, ok_bind], h.set ht, ?_⟩
    rw [registers_set]
    exact .share hn hd
  | getMut n change =>
    refine h.one (List.mem_singleton_self n) rfl fun s hs hn => ?_
    obtain ⟨hv, hinv, hr⟩ := hs.getMut change
    refine ⟨.value (s.cell.getMut change).1,
      cells.set n (some (s.own (s.cell.getMut change).2)), rfl, h.set hinv, ?_⟩
    rw [registers_set, Option.map_some, hr, hv]
    exact .getMut hn change
  | take n =>
    refine h.one (List.mem_singleton_self n) rfl fun s _ hn => ?_
    refine ⟨.value s.cell.intoInner, _, rfl, h.set (Inv.holding none), ?_⟩
    have hr : (Sys.new.own .new : Sys V E).register = .holding none := register_holding none
    rw [registers_set, Option.map_some, hr, intoInner_eq, ← content_value]
    exact .take hn
  | intoInner n =>
    refine h.one (List.mem_singleton_self n) rfl fun s _ hn => ?_
    refine ⟨.value s.cell.intoInner, _, rfl, h.remove, ?_⟩
    rw [registers_set, intoInner_eq, ← content_value]
    exact .intoInner hn
  | clone n copy =>
    refine h.one (List.mem_singleton_self n) rfl fun s _ hn => ?_
    refine ⟨.made cells.length, _, rfl, ?_, ?_⟩
    · rw [clone_eq]
      exact h.append (Inv.holding _)
    · rw [registers_append, clone_eq, register_holding, ← cells.registers_length, ← content_value]
      exact .clone hn copy
  | equal n m =>
    refine h.one List.mem_cons_self rfl fun s _ hn => ?_
    rcases cells.withCell_cases m fun t => .ok (.same (s.cell.eq t.cell), cells) with
      ⟨hgone, he⟩ | ⟨t, -, hm, he⟩
    · exact ⟨.gone, cells, he, h, .gone (List.mem_cons_of_mem _ (List.mem_singleton_self m)) hgone⟩
    · refine ⟨_, cells, he, h, ?_⟩
      rw [OnceCell.eq, ← content_value, ← content_value]
      exact .equal hn hm

end Cells

/-- Whatever is done with any number of cells, shared and owned in any order, nothing faults,
everybody sees what registers would have shown, and whoever is ahead of others at a register is
one of its callers. -/
theorem cells_are_registers [BEq V] (uses : List (Use V E)) :
    ∃ seen cells, run Cells.step [] uses = .ok (seen, cells) ∧
      (∀ r, some r ∈ cells.registers → r.Orderly) ∧
      Traced Registers.Step [] uses seen cells.registers := by
  obtain ⟨seen, cells, hrun, hsound, htraced⟩ := run_traced (f := Cells.registers)
    (I := Cells.Sound) (fun _ use h => h.step use) (fun _ hs => (List.not_mem_nil hs).elim) uses
  refine ⟨seen, cells, hrun, fun r hr => ?_, htraced⟩
  obtain ⟨s, hs, hsr⟩ := List.mem_map.mp hr
  obtain ⟨t, rfl, rfl⟩ := Option.map_eq_some_iff.mp hsr
  exact (hsound t hs).orderly

end Owned

end OnceCell
end Unsync
