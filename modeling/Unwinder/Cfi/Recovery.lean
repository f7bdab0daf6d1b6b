import Unwinder.Cfi.Row
import Unwinder.Frame
import Unwinder.Stack.Source

/-!
# `Unwinder.Cfi.Recovery` — from a frame to its caller

A row says where the caller's registers are. First it is worked out, from the row and the callee's registers
alone, which values are known and which have to be read; only then the memory is read, the return address
first and the slots in order after it.

## Contents
- **Plans.** `Origin`, `Recovery` and `Recovery.plan`, which reads no memory.
- **Reads.** `Origin.fetch` and `fetchAll`, which stop at the first read that fails.
- **The step.** `unwind`; the registers change only when every read has succeeded.
-/

namespace Unwinder.Cfi

/-! ## Plans -/

/-- Where a value comes from. -/
inductive Origin where
  | known (value : UInt64)
  | stored (address : UInt64)
  deriving DecidableEq

/-- What has to be done to recover the caller's registers. -/
structure Recovery where
  cfa : UInt64
  returnAddress : Origin
  slots : Vector Origin slotCount
  deriving DecidableEq

namespace Recovery

/-- The origin of a slot by its rule: a lost register reads as zero. -/
def origin (cfa value : UInt64) : RegisterRule → Origin
  | .kept => .known value
  | .lost => .known 0
  | .saved offset => .stored (cfa + offset.toUInt64)

/-- The frame address of a row. -/
def frameAddress (row : Row) (regs : RegisterSet) : Except Error UInt64 :=
  match row.frameRegister with
  | none => .error (.unsupported .noFrameRule)
  | some register =>
      match regs.slots[register.toNat]? with
      | some base => .ok (base + row.frameOffset.toUInt64)
      | none => .error (.unsupported (.frameRegister register))

/-- The origin of the return address, which cannot be lost. -/
def returnOrigin (row : Row) (column cfa : UInt64) (regs : RegisterSet) : Except Error Origin :=
  match row.rules[column.toNat]?, regs.slots[column.toNat]? with
  | some .lost, some _ => .error (.unsupported .returnLost)
  | some rule, some value => .ok (origin cfa value rule)
  | _, _ => .error (.unsupported (.returnColumn column))

/-- What has to be done to unwind a frame that stands at `target` in the code of a function. -/
def plan (image : Bytes) (cie : Cie) (fde : Fde) (target : UInt64) (regs : RegisterSet) :
    Except Error Recovery := do
  if fde.covers target then
    let row ← rulesAt image cie fde target
    let cfa ← frameAddress row regs
    let returnAddress ← returnOrigin row cie.returnColumn cfa regs
    return ⟨cfa, returnAddress, Vector.zipWith (origin cfa) regs.slots row.rules⟩
  else throw (.misuse (.outsideRange target fde.first fde.last))

end Recovery

/-! ## Reads -/

variable {σ : Type}

/-- The value of an origin. -/
def Origin.fetch (source : WordSource σ) (memory : σ) : Origin → Except Error UInt64 × σ
  | .known value => (.ok value, memory)
  | .stored address => source.read address memory

/-- The values of a list of origins, in order, up to the first that cannot be read. -/
def fetchAll (source : WordSource σ) : List Origin → σ → Except Error (List UInt64) × σ
  | [], memory => (.ok [], memory)
  | o :: os, memory =>
      match o.fetch source memory with
      | (.error e, memory) => (.error e, memory)
      | (.ok value, memory) =>
          match fetchAll source os memory with
          | (.error e, memory) => (.error e, memory)
          | (.ok values, memory) => (.ok (value :: values), memory)

/-! ## The step -/

/-- The result of an unwinding step: the caller's frame or why there is none, with the registers and the memory
    after the step. -/
structure Unwound (σ : Type) where
  frame : Except Error Frame
  registers : RegisterSet
  memory : σ

/-- Register slots from a list of values. -/
def slotsOf (values : List UInt64) : Vector UInt64 slotCount := Vector.ofFn fun i => values[i.val]?.getD 0

/-- The caller's registers: its code address is the return address, and its stack pointer the frame address. -/
def Recovery.registers (r : Recovery) (regs : RegisterSet) (ra : UInt64) (values : List UInt64) : RegisterSet :=
  { regs with pc := ra, sp := r.cfa, slots := slotsOf values }

/-- The caller's frame. -/
def Recovery.frame (r : Recovery) (ra : UInt64) : Frame :=
  { pc := ra, sp := r.cfa, cfa := r.cfa, ra, isPartial := false, module := none }

/-- Unwinds a frame that stands at `target` in the code of a function. -/
def unwind (source : WordSource σ) (image : Bytes) (cie : Cie) (fde : Fde) (target : UInt64)
    (regs : RegisterSet) (memory : σ) : Unwound σ :=
  match Recovery.plan image cie fde target regs with
  | .error e => ⟨.error e, regs, memory⟩
  | .ok r =>
      match r.returnAddress.fetch source memory with
      | (.error e, memory) => ⟨.error e, regs, memory⟩
      | (.ok ra, memory) =>
          match fetchAll source r.slots.toList memory with
          | (.error e, memory) => ⟨.error e, regs, memory⟩
          | (.ok values, memory) => ⟨.ok (r.frame ra), r.registers regs ra values, memory⟩

end Unwinder.Cfi
