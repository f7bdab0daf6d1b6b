import Unwinder.Registers

/-!
# `Unwinder.Architecture` — what each architecture says about a sampled frame

The frame a register set was sampled in is described without debug information: the architecture says where
the canonical frame address and the return address come from.

## Contents
- **The table.** `Architecture` and its three records, found by tag with `Architecture.ofTag`.
- **Normal form.** `normalize` stamps a register set with the current format.
- **The sampled frame.** `frameAddress`, `returnAddress`, and `window`, which joins them.
-/

namespace Unwinder

/-! ## The table -/

/-- Where the canonical frame address of a sampled frame comes from. -/
inductive FrameSource where
  | stackPointer
  /-- The saved frame pointer and return address lie at the frame pointer, and the frame address above them.
      A frame pointer of zero leaves the stack pointer. -/
  | frameRecord (slot : Nat) (size : UInt64)
  deriving DecidableEq

/-- Where the return address of a sampled frame comes from. -/
inductive ReturnSource where
  /-- The probe sits on the return path. -/
  | programCounter
  /-- A link register of zero leaves the program counter. -/
  | linkRegister (slot : Nat)
  deriving DecidableEq

/-- One record of the architecture table. A missing source means that the architecture does not say. -/
structure Architecture where
  tag : UInt16
  name : String
  /-- Debug register of the stack pointer. -/
  stackColumn : Fin slotCount
  frame : Option FrameSource
  link : Option ReturnSource
  deriving DecidableEq

namespace Architecture

def x86_64 : Architecture := ⟨1, "x86_64", 7, some .stackPointer, some .programCounter⟩

/-- The frame pointer is x29 and the link register x30. -/
def arm64 : Architecture := ⟨2, "arm64", 31, some (.frameRecord 29 16), some (.linkRegister 30)⟩

/-- The frame pointer is register 30 and the link register 31; words have four bytes. -/
def mips32 : Architecture := ⟨3, "mips32", 29, some (.frameRecord 30 8), some (.linkRegister 31)⟩

/-- The record with a tag. -/
def ofTag (tag : UInt16) : Except Error Architecture :=
  match tag with
  | 1 => .ok x86_64
  | 2 => .ok arm64
  | 3 => .ok mips32
  | _ => .error (.unsupportedArchitecture tag)

/-! ## Normal form -/

/-- A register set in the current format and with the tag of this architecture. A version that is neither
    zero nor the current one is refused. -/
def normalize (a : Architecture) (regs : RegisterSet) : Except Error RegisterSet :=
  if regs.version = 0 ∨ regs.version = registerFormat then
    .ok { regs with tag := a.tag, version := registerFormat }
  else .error (.misuse (.registerVersion regs.version))

/-- The register set of all zeros. -/
def blank (a : Architecture) : RegisterSet := ⟨a.tag, registerFormat, 0, 0, 0, Vector.replicate slotCount 0⟩

/-! ## The sampled frame -/

/-- The canonical frame address of the sampled frame. -/
def frameAddress (a : Architecture) (regs : RegisterSet) : Except Error UInt64 :=
  match a.frame with
  | some .stackPointer => .ok regs.sp
  | some (.frameRecord slot size) =>
      .ok (if regs.column slot = 0 then regs.sp else regs.column slot + size)
  | none => .error (.unsupported (.frameAddressOf a.name))

/-- The return address of the sampled frame. -/
def returnAddress (a : Architecture) (regs : RegisterSet) : Except Error UInt64 :=
  match a.link with
  | some .programCounter => .ok regs.pc
  | some (.linkRegister slot) => .ok (if regs.column slot = 0 then regs.pc else regs.column slot)
  | none => .error (.unsupported (.returnAddressOf a.name))

/-- The frame address and the return address of a frame. -/
structure Window where
  cfa : UInt64
  ra : UInt64
  deriving DecidableEq

/-- The window of the sampled frame, when the architecture gives both of its sides. -/
def window (a : Architecture) (regs : RegisterSet) : Except Error Window := do
  let cfa ← a.frameAddress regs
  let ra ← a.returnAddress regs
  return ⟨cfa, ra⟩

end Architecture

/-- The architecture a register set names. -/
def RegisterSet.architecture (regs : RegisterSet) : Except Error Architecture := Architecture.ofTag regs.tag

end Unwinder
