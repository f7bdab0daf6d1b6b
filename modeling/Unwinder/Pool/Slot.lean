import Unwinder.Error

/-!
# `Unwinder.Pool.Slot` — one place for a loaded module

A slot is unused, holds a module that is in use, or keeps one warm that nobody uses at the moment. Its
generation goes up whenever its contents are dropped.

Counts, generations and times have no upper bound here. Where they are kept in words, of 32 bits for a count and of 64 for
the others, nothing differs until one of them would overflow, which takes as many calls as the word has values
(`Pool.counted_run`).
-/

namespace Unwinder

/-- What a slot holds. -/
inductive Holding (α : Type) where
  | unused
  /-- A module in use, with the number of times it has been taken and not given back. It agrees with a count of 32 bits as
      long as the module is not taken 2 ^ 32 times at once. -/
  | active (path : Path) (module : α) (count : Nat)
  /-- A module nobody uses, with the time since when, which is a reading of the clock of its pool. -/
  | warm (path : Path) (module : α) (since : Nat)

/-- A place for a module. The generation agrees with one of 64 bits as long as the contents are dropped fewer than 2 ^ 64
    times. -/
structure Slot (α : Type) where
  holding : Holding α
  generation : Nat

namespace Holding

variable {α : Type}

/-- The path of the module held. -/
def path? : Holding α → Option Path
  | .unused => none
  | .active path _ _ => some path
  | .warm path _ _ => some path

/-- The module held. -/
def module? : Holding α → Option α
  | .unused => none
  | .active _ module _ => some module
  | .warm _ module _ => some module

/-- How often the module has been taken and not given back. -/
def count : Holding α → Nat
  | .active _ _ count => count
  | _ => 0

/-- Since when the module is warm. -/
def since? : Holding α → Option Nat
  | .warm _ _ since => some since
  | _ => none

/-- Whether nothing is held. -/
def isUnused : Holding α → Bool
  | .unused => true
  | _ => false

/-- The name of the state. -/
def stateName : Holding α → String
  | .unused => "Unused"
  | .active _ _ _ => "Active"
  | .warm _ _ _ => "Warm"

end Holding

namespace Slot

variable {α : Type}

/-- A slot that has never held anything. -/
def fresh : Slot α := ⟨.unused, 0⟩

/-- Whether a module is held that was loaded under the same path. -/
def holds (path : Path) (s : Slot α) : Bool :=
  match s.holding.path? with
  | some held => decide (held.Same path)
  | none => false

/-- Drops the contents. -/
def clear (s : Slot α) : Slot α := ⟨.unused, s.generation + 1⟩

/-- Puts a module into the slot, taken once. -/
def fill (path : Path) (module : α) (s : Slot α) : Slot α := { s with holding := .active path module 1 }

/-- Takes the module held once more. -/
def retain (s : Slot α) : Slot α :=
  match s.holding with
  | .unused => s
  | .active path module count => { s with holding := .active path module (count + 1) }
  | .warm path module _ => { s with holding := .active path module 1 }

/-- Gives the module held back once; the last time makes it warm from `time` on. -/
def letGo (time : Nat) (s : Slot α) : Slot α :=
  match s.holding with
  | .active path module count =>
      if count ≤ 1 then { s with holding := .warm path module time }
      else { s with holding := .active path module (count - 1) }
  | _ => s

end Slot

end Unwinder
