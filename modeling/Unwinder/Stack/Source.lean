import Unwinder.Error

/-!
# `Unwinder.Stack.Source` — memories that saved registers are read from

Unwinding reads words of the target's stack. Where they come from is a parameter: a memory may answer a word
or fail, and may change its state either way.
-/

namespace Unwinder

/-- A memory with states in `σ`: what it answers at an address, and its state after the answer. -/
structure WordSource (σ : Type) where
  read : UInt64 → σ → Except Error UInt64 × σ

/-- The same memory, keeping a list of the addresses tried. -/
def WordSource.logged {σ : Type} (source : WordSource σ) : WordSource (σ × List UInt64) where
  read address state :=
    let (answer, after) := source.read address state.1
    (answer, after, state.2 ++ [address])

end Unwinder
