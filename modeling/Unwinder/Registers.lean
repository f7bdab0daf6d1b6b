import Unwinder.Error

/-!
# `Unwinder.Registers` — register snapshots

A register set is what a probe sampled: the stack pointer, the program counter, and one slot for each of the
first 32 registers in the numbering of the architecture's debug information.
-/

namespace Unwinder

/-- Number of register slots of a snapshot. -/
abbrev slotCount : Nat := 32

/-- The format of register sets that is understood. -/
def registerFormat : UInt16 := 1

/-- A register snapshot. Slot `n` holds debug register `n`. -/
structure RegisterSet where
  /-- Tag of the architecture the registers belong to. -/
  tag : UInt16
  /-- Format of the snapshot; zero stands for the current one. -/
  version : UInt16
  flags : UInt32
  sp : UInt64
  pc : UInt64
  slots : Vector UInt64 slotCount
  deriving DecidableEq

namespace RegisterSet

/-- Value of a register, zero for a register that has no slot. -/
def column (regs : RegisterSet) (n : Nat) : UInt64 := regs.slots[n]?.getD 0

/-- A register set as diagnostics show it. -/
def text (regs : RegisterSet) : String :=
  let slots := String.intercalate ", " (regs.slots.toList.map toString)
  "RegisterSet \x7b arch: " ++ toString regs.tag ++ ", version: " ++ toString regs.version
    ++ ", flags: " ++ toString regs.flags ++ ", sp: " ++ toString regs.sp ++ ", pc: " ++ toString regs.pc
    ++ ", regs: [" ++ slots ++ "] \x7d"

end RegisterSet

end Unwinder
