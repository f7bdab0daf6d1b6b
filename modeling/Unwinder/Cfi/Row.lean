import Unwinder.Cfi.Program
import Unwinder.Cfi.Records
import Unwinder.Registers

/-!
# `Unwinder.Cfi.Row` — the row of the unwind table in effect at an address

The table of a function has a row per stretch of code. It is never stored: the initial instructions of the
common record make the first row, and the function's own instructions change it as the location moves on. To
know the row at an address, the instructions are carried out until the location passes the address.

## Contents
- **Rows.** `RegisterRule` and `Row`.
- **One instruction.** `Row.apply` says what it does to the row, `Instruction.locate` what it does to the
  location.
- **A program.** `Row.run` carries out instructions up to an address.
- **The row at an address.** `rulesAt`.
-/

namespace Unwinder.Cfi

/-! ## Rows -/

/-- Where the caller's value of a register is. -/
inductive RegisterRule where
  /-- Nowhere. -/
  | lost
  /-- Still in the register. -/
  | kept
  /-- In memory, at an offset from the frame address. -/
  | saved (offset : Int64)
  deriving DecidableEq

/-- A row: how the frame address is found, and a rule for each register slot. -/
structure Row where
  /-- The register the frame address is counted from, once a program has named one. -/
  frameRegister : Option UInt64
  frameOffset : Int64
  rules : Vector RegisterRule slotCount
  deriving DecidableEq

namespace Row

/-- The row before any instruction: no frame address, and every register kept. -/
def blank : Row := ⟨none, 0, Vector.replicate slotCount .kept⟩

/-- The row with another rule for a register. A register without a slot has no rule. -/
def setRule (row : Row) (register : UInt64) (rule : RegisterRule) : Row :=
  { row with rules := row.rules.setIfInBounds register.toNat rule }

/-- The row with the rule that another row has for a register. -/
def restoreRule (row initial : Row) (register : UInt64) : Row :=
  match initial.rules[register.toNat]? with
  | some rule => row.setRule register rule
  | none => row

/-! ## One instruction -/

/-- What an instruction does to the row. Scaled operands are multiplied by the record's data alignment, and
    `restore` goes back to the `initial` row. -/
def apply (row : Row) (dataAlign : Int64) (initial : Row) : Instruction → Row
  | .frame register offset => { row with frameRegister := some register, frameOffset := offset.toInt64 }
  | .frameScaled register units => { row with frameRegister := some register, frameOffset := units * dataAlign }
  | .frameRegister register => { row with frameRegister := some register }
  | .frameOffset offset => { row with frameOffset := offset.toInt64 }
  | .frameOffsetScaled units => { row with frameOffset := units * dataAlign }
  | .lost register => row.setRule register .lost
  | .kept register => row.setRule register .kept
  | .saved register units => row.setRule register.toUInt64 (.saved (units.toInt64 * dataAlign))
  | .savedExtended register units => row.setRule register (.saved (units.toInt64 * dataAlign))
  | .savedScaled register units => row.setRule register (.saved (units * dataAlign))
  | .restore register => row.restoreRule initial register.toUInt64
  | .restoreExtended register => row.restoreRule initial register
  | .setLocation _ | .advance _ | .advance1 _ | .advance2 _ | .advance4 _ | .nop => row

end Row

/-- The location after an instruction. Advances are multiplied by the record's code alignment. -/
def Instruction.locate (codeAlign location : UInt64) : Instruction → UInt64
  | .setLocation address => address
  | .advance delta => location + delta.toUInt64 * codeAlign
  | .advance1 delta => location + delta.toUInt64 * codeAlign
  | .advance2 delta => location + delta.toUInt64 * codeAlign
  | .advance4 delta => location + delta.toUInt64 * codeAlign
  | _ => location

namespace Row

/-! ## A program -/

/-- The row after the instructions of a program up to the first that moves the location past `target`. The
    program's fault counts only when its end is reached. -/
def run (cie : Cie) (initial : Row) (target : UInt64) (fault : Option Error) :
    List Instruction → UInt64 → Row → Except Error Row
  | [], _, row =>
      match fault with
      | none => .ok row
      | some e => .error e
  | i :: is, location, row =>
      let next := i.locate cie.codeAlign location
      let row' := row.apply cie.dataAlign initial i
      if target < next then .ok row' else run cie initial target fault is next row'

/-- The row after the program at a stretch of an image, begun at a location. -/
def runAt (image : Bytes) (cie : Cie) (stretch : Extent) (initial : Row) (location target : UInt64) (row : Row) :
    Except Error Row :=
  match stretch.slice? image with
  | none => .error (.malformed .programOutside)
  | some bs =>
      let program := Program.decode cie.addressSize bs
      run cie initial target program.fault program.instructions location row

end Row

/-! ## The row at an address -/

/-- The largest address, which no location passes. -/
def lastAddress : UInt64 := 0xffffffffffffffff

/-- The row in effect at an address: the whole program of the common record gives the first row, and the
    program of the function carries on from there. -/
def rulesAt (image : Bytes) (cie : Cie) (fde : Fde) (target : UInt64) : Except Error Row := do
  let initial ← Row.runAt image cie cie.instructions .blank fde.first lastAddress .blank
  Row.runAt image cie fde.instructions initial fde.first target initial

end Unwinder.Cfi
