import Unwinder.Pool.Slot

/-!
# `Unwinder.Pool` — a bounded store of loaded modules

Loading a module is expensive, so that modules stay in a pool after use. A module in use is never dropped; of
the others the one that has been out of use for the longest makes room when there is none.

## Contents
- **Choosing a slot.** `slotOf?` finds a module by path, `roomFor?` a slot for a new one.
- **Use.** `acquire`, `release`, and `flush`, which drops everything.
- **Looking.** `occupied`, `get` and `pathOf` answer for handles whose contents are still there.

Operations give their result and the pool after them: a failing one may have changed the pool.
-/

namespace Unwinder

/-- A pool of modules of type `α`. The clock counts how often a module has become warm since everything was last dropped.
    It agrees with a clock of 64 bits as long as that is fewer than 2 ^ 64 times. -/
structure Pool (α : Type) where
  slots : List (Slot α)
  clock : Nat

namespace Pool

variable {α : Type}

/-- A pool without modules. -/
def ofCapacity (n : Nat) : Pool α := ⟨List.replicate n .fresh, 0⟩

/-- Number of slots. -/
def capacity (pool : Pool α) : Nat := pool.slots.length

/-- Number of modules held. -/
def loaded (pool : Pool α) : Nat := pool.slots.countP (!·.holding.isUnused)

/-! ## Choosing a slot -/

/-- The slot that holds the module loaded under a path. -/
def slotOf? (pool : Pool α) (path : Path) : Option Nat := pool.slots.findIdx? (·.holds path)

/-- The time and the place of the module that has been warm for the longest. -/
def oldest? : List (Slot α) → Option (Nat × Nat)
  | [] => none
  | s :: ss =>
      let later := (oldest? ss).map fun p => (p.1, p.2 + 1)
      match s.holding.since?, later with
      | none, later => later
      | some since, none => some (since, 0)
      | some since, some p => if since ≤ p.1 then some (since, 0) else some p

/-- The slot for a new module: the first unused one, else the one whose module has been warm for the
    longest. -/
def roomFor? (pool : Pool α) : Option Nat :=
  match pool.slots.findIdx? (·.holding.isUnused) with
  | some i => some i
  | none => (oldest? pool.slots).map (·.2)

/-- The pool with one slot changed. -/
def modify (pool : Pool α) (i : Nat) (f : Slot α → Slot α) : Pool α :=
  { pool with slots := pool.slots.modify i f }

/-- The handle to the present contents of a slot. -/
def handleAt (pool : Pool α) (i : Nat) : Handle := ⟨i, (pool.slots[i]?.map (·.generation)).getD 0⟩

/-! ## Use -/

/-- Takes the module of a path, loading it when the pool does not hold it. The slot for a module to load is
    cleared before the module is loaded, so that a failing load leaves it unused. -/
def acquire (pool : Pool α) (load : Path → Except Error α) (path : Path) : Except Error Handle × Pool α :=
  match pool.slotOf? path with
  | some i => (.ok (pool.handleAt i), pool.modify i .retain)
  | none =>
      match pool.roomFor? with
      | none => (.error (.poolFull pool.capacity), pool)
      | some i =>
          let cleared := pool.modify i .clear
          match load path with
          | .error e => (.error e, cleared)
          | .ok module => (.ok (cleared.handleAt i), cleared.modify i (.fill path module))

/-- The contents a handle names, when they are still there. -/
def occupied (pool : Pool α) (handle : Handle) : Except Error (Holding α) :=
  match pool.slots[handle.slot]? with
  | some s =>
      if s.generation = handle.generation ∧ !s.holding.isUnused then .ok s.holding
      else .error (.misuse (.staleHandle handle))
  | none => .error (.misuse (.staleHandle handle))

/-- Gives a module back. -/
def release (pool : Pool α) (handle : Handle) : Except Error Unit × Pool α :=
  match pool.occupied handle with
  | .error e => (.error e, pool)
  | .ok holding =>
      match holding.count with
      | 0 => (.error (.misuse (.unheldHandle handle)), pool)
      | 1 => (.ok (), { pool.modify handle.slot (.letGo (pool.clock + 1)) with clock := pool.clock + 1 })
      | _ => (.ok (), pool.modify handle.slot (.letGo (pool.clock + 1)))

/-- Drops every module. -/
def flush (pool : Pool α) : Pool α := ⟨pool.slots.map .clear, 0⟩

/-! ## Looking -/

/-- The module a handle names. -/
def get (pool : Pool α) (handle : Handle) : Except Error α := do
  match (← pool.occupied handle).module? with
  | some module => return module
  | none => throw (.misuse (.staleHandle handle))

/-- The path of the module a handle names, as it was written when the module was loaded. -/
def pathOf (pool : Pool α) (handle : Handle) : Except Error Path := do
  match (← pool.occupied handle).path? with
  | some path => return path
  | none => throw (.misuse (.staleHandle handle))

end Pool

end Unwinder
