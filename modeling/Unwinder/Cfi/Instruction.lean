import Unwinder.Bytes.Leb128

/-!
# `Unwinder.Cfi.Instruction` — call frame instructions and their byte form

A call frame program builds a table: rows begin at code addresses, and each says where the frame address and
every register of the caller are found.

## Contents
- **Instructions.** `Instruction`, with operands as they are stored: scaling by the alignment factors happens
  when an instruction is carried out.
- **Reading.** `Instruction.read` reads an opcode and its operands.
-/

namespace Unwinder.Cfi

/-! ## Instructions -/

/-- One call frame instruction. -/
inductive Instruction where
  /-- A row begins at this address. -/
  | setLocation (address : UInt64)
  /-- A row begins this many units of code further on. The count is packed into the opcode. -/
  | advance (delta : UInt8)
  | advance1 (delta : UInt8)
  | advance2 (delta : UInt16)
  | advance4 (delta : UInt32)
  /-- The frame address is a register plus an offset. -/
  | frame (register offset : UInt64)
  | frameScaled (register : UInt64) (units : Int64)
  /-- The frame address is counted from another register. -/
  | frameRegister (register : UInt64)
  /-- The frame address is at another offset. -/
  | frameOffset (offset : UInt64)
  | frameOffsetScaled (units : Int64)
  /-- The register's value is lost. -/
  | lost (register : UInt64)
  /-- The register still holds the caller's value. -/
  | kept (register : UInt64)
  /-- The caller's value is stored at an offset from the frame address. The register is packed into the
      opcode. -/
  | saved (register : UInt8) (units : UInt64)
  | savedExtended (register units : UInt64)
  | savedScaled (register : UInt64) (units : Int64)
  /-- Back to what the initial instructions say of the register, which is packed into the opcode. -/
  | restore (register : UInt8)
  | restoreExtended (register : UInt64)
  | nop
  deriving DecidableEq

namespace Instruction

/-! ## Reading -/

/-- The operands of the opcodes whose top two bits are clear. -/
def operands (addressSize opcode : UInt8) : Field Instruction :=
  match opcode with
  | 0x00 => return nop
  | 0x01 => do return setLocation (← Field.address addressSize)
  | 0x02 => do return advance1 (← Field.u8)
  | 0x03 => do return advance2 (← Field.u16)
  | 0x04 => do return advance4 (← Field.u32)
  | 0x05 => do return savedExtended (← Leb128.unsigned) (← Leb128.unsigned)
  | 0x06 => do return restoreExtended (← Leb128.unsigned)
  | 0x07 => do return lost (← Leb128.unsigned)
  | 0x08 => do return kept (← Leb128.unsigned)
  | 0x0c => do return frame (← Leb128.unsigned) (← Leb128.unsigned)
  | 0x0d => do return frameRegister (← Leb128.unsigned)
  | 0x0e => do return frameOffset (← Leb128.unsigned)
  | 0x0f => Field.refuse (.unsupported (.expression opcode))
  | 0x10 => Field.refuse (.unsupported (.expression opcode))
  | 0x11 => do return savedScaled (← Leb128.unsigned) (← Leb128.signed)
  | 0x12 => do return frameScaled (← Leb128.unsigned) (← Leb128.signed)
  | 0x13 => do return frameOffsetScaled (← Leb128.signed)
  | _ => Field.refuse (.unsupported (.instruction opcode))

/-- The rest of the instruction that begins with `opcode`. The top two bits of an opcode tell the three
    packed forms from all others. -/
def afterOpcode (addressSize opcode : UInt8) : Field Instruction :=
  let packed := opcode &&& 0x3f
  match opcode >>> 6 with
  | 1 => return advance packed
  | 2 => do return saved packed (← Leb128.unsigned)
  | 3 => return restore packed
  | _ => operands addressSize opcode

/-- The instruction at the front of a byte string. -/
def read (addressSize : UInt8) : Field Instruction := do afterOpcode addressSize (← Field.u8)

/-- One operand, made into an instruction. -/
theorem consumes_one {α : Type} {operand : Field α} (h : Field.Consumes operand) (make : α → Instruction) :
    Field.Consumes (operand >>= fun a => pure (make a)) :=
  h.bind fun a => Field.pure_consumes (make a)

/-- Two operands, made into an instruction. -/
theorem consumes_two {α β : Type} {first : Field α} {second : Field β} (hfirst : Field.Consumes first)
    (hsecond : Field.Consumes second) (make : α → β → Instruction) :
    Field.Consumes (first >>= fun a => second >>= fun b => pure (make a b)) :=
  hfirst.bind fun a => consumes_one hsecond (make a)

theorem operands_consumes (addressSize opcode : UInt8) : Field.Consumes (operands addressSize opcode) := by
  unfold operands
  split
  · exact Field.pure_consumes nop
  · exact consumes_one (Field.address_consumes addressSize) setLocation
  · exact consumes_one Field.u8_consumes advance1
  · exact consumes_one Field.u16_consumes advance2
  · exact consumes_one Field.u32_consumes advance4
  · exact consumes_two Leb128.unsigned_consumes Leb128.unsigned_consumes savedExtended
  · exact consumes_one Leb128.unsigned_consumes restoreExtended
  · exact consumes_one Leb128.unsigned_consumes lost
  · exact consumes_one Leb128.unsigned_consumes kept
  · exact consumes_two Leb128.unsigned_consumes Leb128.unsigned_consumes frame
  · exact consumes_one Leb128.unsigned_consumes frameRegister
  · exact consumes_one Leb128.unsigned_consumes frameOffset
  · exact Field.refuse_consumes _
  · exact Field.refuse_consumes _
  · exact consumes_two Leb128.unsigned_consumes Leb128.signed_consumes savedScaled
  · exact consumes_two Leb128.unsigned_consumes Leb128.signed_consumes frameScaled
  · exact consumes_one Leb128.signed_consumes frameOffsetScaled
  · exact Field.refuse_consumes _

theorem afterOpcode_consumes (addressSize opcode : UInt8) :
    Field.Consumes (afterOpcode addressSize opcode) := by
  unfold afterOpcode
  split
  · exact Field.pure_consumes _
  · exact Leb128.unsigned_consumes.bind fun _ => Field.pure_consumes _
  · exact Field.pure_consumes _
  · exact operands_consumes addressSize opcode

end Instruction

end Unwinder.Cfi
