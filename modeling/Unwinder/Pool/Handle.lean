/-!
# `Unwinder.Pool.Handle` — the name of one loading of a module

A handle names a slot of the module pool and the generation of the slot's contents, so that a handle to
contents that have been replaced can be told from one to the contents that are there now.
-/

namespace Unwinder

/-- A slot and the generation of its contents. -/
structure Handle where
  slot : Nat
  generation : Nat
  deriving DecidableEq

/-- A handle as diagnostics show it. -/
def Handle.text (h : Handle) : String :=
  "ModuleHandle \x7b index: " ++ toString h.slot ++ ", generation: " ++ toString h.generation ++ " \x7d"

end Unwinder
