import Unsync.Base

/-!
# The container with one strong and many weak handles

Model of `src/broad_rc.rs`: a value that lives as long as any handle, and that tells
whether handles of the other kind are still there.
-/

namespace Unsync

/-- The allocation behind the handles, `src/broad_rc.rs:21–28`. -/
structure BroadRc (α : Type) where
  value : α
  strong : Nat
  weak : Nat
  deriving DecidableEq, Repr

namespace BroadRc

open Runs

variable {α : Type}

/-- `BroadRc::new`, `src/broad_rc.rs:53–61`. -/
def new (value : α) : BroadRc α := ⟨value, 1, 0⟩

/-- `BroadRc::weak`, `src/broad_rc.rs:64–70`. -/
def addWeak [Target] (b : BroadRc α) : Except Fault (BroadRc α) := do
  let weak ← checkedIncrement b.weak
  .ok { b with weak := weak }

/-- The flag that `BroadRc::get_mut_unchecked` returns with the value,
`src/broad_rc.rs:79–82`. -/
def anyWeak (b : BroadRc α) : Bool := b.weak != 0

/-- The flag that `BroadWeak::get_mut_unchecked` returns with the value,
`src/broad_rc.rs:97–100`. -/
def anyStrong (b : BroadRc α) : Bool := b.strong != 0

/-- `Inner::try_dealloc`, `src/broad_rc.rs:32–38`. -/
def tryDealloc [Target] (b : BroadRc α) : Except Fault (Option (BroadRc α)) := do
  let handles ← addUsize b.weak b.strong
  .ok (if handles = 0 then none else some b)

/-- Drop of a `BroadRc`, `src/broad_rc.rs:103–111`. -/
def dropStrong [Target] (b : BroadRc α) : Except Fault (Option (BroadRc α)) :=
  { b with strong := wrappingDec b.strong }.tryDealloc

/-- Drop of a `BroadWeak`, `src/broad_rc.rs:113–121`. -/
def dropWeak [Target] (b : BroadRc α) : Except Fault (Option (BroadRc α)) :=
  { b with weak := wrappingDec b.weak }.tryDealloc

/-- A counter below the maximum has room for one more weak handle. -/
theorem addWeak_eq [Target] {b : BroadRc α} (h : b.weak < usizeMax) :
    b.addWeak = .ok { b with weak := b.weak + 1 } := by
  simp [addWeak, checkedIncrement, Nat.ne_of_lt h]

/-- Dropping the strong handle releases the value unless weak ones are there. -/
theorem dropStrong_eq [Target] {b : BroadRc α} (hs : b.strong = 1) (hw : b.weak ≤ usizeMax) :
    b.dropStrong = .ok (if b.weak = 0 then none else some { b with strong := 0 }) := by
  simp [dropStrong, wrappingDec, tryDealloc, addUsize, hs, hw]

/-- Dropping a weak handle releases the value unless other handles are there. -/
theorem dropWeak_eq [Target] {b : BroadRc α} {n : Nat} (hn : b.weak = n + 1)
    (hb : n + b.strong ≤ usizeMax) :
    b.dropWeak = .ok (if n + b.strong = 0 then none else some { b with weak := n }) := by
  simp [dropWeak, wrappingDec, tryDealloc, addUsize, hn, hb]

end BroadRc

end Unsync
