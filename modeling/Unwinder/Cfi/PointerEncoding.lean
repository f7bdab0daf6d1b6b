import Unwinder.Bytes.Leb128
import Unwinder.Text.Hex

/-!
# `Unwinder.Cfi.PointerEncoding` — pointers stored under an encoding byte

The encoding byte of a common record says how its function records store addresses.

## Contents
- **The two halves.** `form?` and `base?` take an encoding byte apart, each refusing what it does not know.
- **Reading.** `read` reads a pointer; the value is taken off the bytes before its base is looked at.
-/

namespace Unwinder.Cfi

/-- A pointer encoding byte. -/
structure PointerEncoding where
  byte : UInt8
  deriving DecidableEq

namespace PointerEncoding

/-! ## The two halves -/

/-- Addresses stored as they are. -/
def absolute : PointerEncoding := ⟨0⟩

/-- The same form, counted from zero. -/
def formOnly (encoding : PointerEncoding) : PointerEncoding := ⟨encoding.byte &&& 0x0f⟩

/-- How values are stored: the low four bits. -/
def form? (encoding : PointerEncoding) : Except Error PointerForm :=
  match encoding.byte &&& 0x0f with
  | 0x00 => .ok .absolute
  | 0x01 => .ok .unsignedLeb
  | 0x02 => .ok .unsigned2
  | 0x03 => .ok .unsigned4
  | 0x04 => .ok .unsigned8
  | 0x09 => .ok .signedLeb
  | 0x0a => .ok .signed2
  | 0x0b => .ok .signed4
  | 0x0c => .ok .signed8
  | form => .error (.unsupported (.pointerForm form encoding.byte))

/-- What values are counted from: the three bits above the form. The top bit asks for an indirection, which
    is not followed. -/
def base? (encoding : PointerEncoding) : Except Error PointerBase :=
  if encoding.byte &&& 0x80 ≠ 0 then .error (.unsupported (.pointerEncoding encoding.byte))
  else match encoding.byte &&& 0x70 with
    | 0x00 => .ok .absolute
    | 0x10 => .ok .field
    | 0x20 => .ok .text
    | 0x30 => .ok .data
    | 0x40 => .ok .function
    | _ => .ok .aligned

/-- An encoding as diagnostics show it: by the names of its halves, or by its number when one is unknown. -/
def text (encoding : PointerEncoding) : String :=
  match encoding.base?, encoding.form? with
  | .ok base, .ok form => base.name ++ " | " ++ form.name
  | _, _ => "Encoding(" ++ Hex.byteNumeral encoding.byte ++ ")"

/-! ## Reading -/

/-- A value stored in `width` bytes whose top bit is its sign. -/
def signExtend (width n : Nat) : UInt64 :=
  UInt64.ofInt (Int.bmod n (LittleEndian.limit width))

/-- A value of the given form. -/
def value (addressSize : UInt8) : PointerForm → Field UInt64
  | .absolute => Field.address addressSize
  | .unsignedLeb => Leb128.unsigned
  | .unsigned2 => do return UInt64.ofNat (← Field.number 2)
  | .unsigned4 => do return UInt64.ofNat (← Field.number 4)
  | .unsigned8 => Field.u64
  | .signedLeb => do return (← Leb128.signed).toUInt64
  | .signed2 => do return signExtend 2 (← Field.number 2)
  | .signed4 => do return signExtend 4 (← Field.number 4)
  | .signed8 => Field.u64

/-- A value counted from a base, by the address `place` of its field. -/
def resolve (place value : UInt64) : PointerBase → Except Error UInt64
  | .absolute => .ok value
  | .field => .ok (place + value)
  | base => .error (.unsupported (.pointerBase base))

/-- The pointer at the front of a byte string that stands at address `place`. -/
def read (encoding : PointerEncoding) (addressSize : UInt8) (place : UInt64) : Field UInt64 := do
  let form ← Field.check encoding.form?
  let value ← value addressSize form
  let base ← Field.check encoding.base?
  Field.check (resolve place value base)

theorem value_consumes (addressSize : UInt8) (form : PointerForm) : Field.Consumes (value addressSize form) := by
  cases form with
  | absolute => exact Field.address_consumes addressSize
  | unsignedLeb => exact Leb128.unsigned_consumes
  | unsigned2 => exact (Field.number_consumes 2).bind fun _ => Field.pure_consumes _
  | unsigned4 => exact (Field.number_consumes 4).bind fun _ => Field.pure_consumes _
  | unsigned8 => exact Field.u64_consumes
  | signedLeb => exact Leb128.signed_consumes.bind fun _ => Field.pure_consumes _
  | signed2 => exact (Field.number_consumes 2).bind fun _ => Field.pure_consumes _
  | signed4 => exact (Field.number_consumes 4).bind fun _ => Field.pure_consumes _
  | signed8 => exact Field.u64_consumes

theorem read_consumes (encoding : PointerEncoding) (addressSize : UInt8) (place : UInt64) :
    Field.Consumes (encoding.read addressSize place) :=
  (Field.check_consumes _).bind fun form => (value_consumes addressSize form).bind fun _ =>
    (Field.check_consumes _).bind fun _ => Field.check_consumes _

end PointerEncoding

end Unwinder.Cfi
