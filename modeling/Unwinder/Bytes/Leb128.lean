import Unwinder.Bytes.Field

/-!
# `Unwinder.Bytes.Leb128` — numbers in groups of seven bits

A LEB128 numeral is a run of bytes, lowest group first; every byte but the last has its top bit set. A numeral
may be padded, and has at most ten bytes, the fewest that hold every 64-bit number.

## Contents
- **Groups.** `groups` splits a numeral off a byte string, `groupValue` is the number its groups add up to.
- **Readers.** `unsigned` and `signed` keep the low 64 bits of that number; a signed numeral counts the top bit
  of its last group as negative.
- **Writers.** `spell` writes a number in a given count of groups.
-/

namespace Unwinder.Leb128

/-! ## Groups -/

/-- The most bytes a numeral has. -/
def maxGroups : Nat := 10

/-- The groups of the numeral at the front of a byte string, at most `count` of them. A numeral that goes on
    after that many is refused with `defect` at the byte that shows it. -/
def groups (defect : Defect) : Nat → Field (List Nat)
  | 0 => do
      let _ ← Field.u8
      Field.refuse (.malformed defect)
  | count + 1 => do
      let b ← Field.u8
      if b < 0x80 then return [b.toNat]
      else return (b.toNat - 0x80) :: (← groups defect count)

/-- The number that groups of seven bits add up to, lowest group first. -/
def groupValue : List Nat → Nat
  | [] => 0
  | g :: gs => g + 128 * groupValue gs

/-- The first number that a count of groups does not hold. -/
def groupLimit : Nat → Nat
  | 0 => 1
  | count + 1 => 128 * groupLimit count

/-- The number that groups denote as a signed numeral: the top bit of the last group stands for a negative
    amount. -/
def signedGroupValue (gs : List Nat) : Int :=
  if 64 ≤ gs.getLastD 0 then (groupValue gs : Int) - groupLimit gs.length else groupValue gs

/-! ## Readers -/

/-- An unsigned number, as its low 64 bits. -/
def unsigned : Field UInt64 := do
  return UInt64.ofNat (groupValue (← groups .unsignedOverflow maxGroups))

/-- A signed number, as its low 64 bits. -/
def signed : Field Int64 := do
  return Int64.ofInt (signedGroupValue (← groups .signedOverflow maxGroups))

theorem groups_consumes (defect : Defect) (count : Nat) : Field.Consumes (groups defect count) := by
  induction count with
  | zero => exact Field.u8_consumes.bind fun _ => Field.refuse_consumes _
  | succ count ih =>
    refine Field.u8_consumes.bind fun b => ?_
    split
    · exact Field.pure_consumes _
    · exact ih.bind fun _ => Field.pure_consumes _

theorem unsigned_consumes : Field.Consumes unsigned := (groups_consumes _ _).bind fun _ => Field.pure_consumes _

theorem signed_consumes : Field.Consumes signed := (groups_consumes _ _).bind fun _ => Field.pure_consumes _

/-! ## Writers -/

/-- The numeral of `n` in `count` groups and one more, the last one taking what is left of the number. -/
def spell : Nat → Nat → Bytes
  | 0, n => [UInt8.ofNat (n % 128)]
  | count + 1, n => UInt8.ofNat (n % 128 + 128) :: spell count (n / 128)

end Unwinder.Leb128
