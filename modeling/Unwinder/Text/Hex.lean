/-!
# `Unwinder.Text.Hex` — lower-case hexadecimal numerals

Addresses, offsets and tag bytes are written in hexadecimal with the mark `0x`.
-/

namespace Unwinder.Hex

/-- The digits of a number in lower-case hexadecimal, without leading zeros; `0` for zero. -/
def digits (n : Nat) : List Char := Nat.toDigits 16 n

/-- A number as a numeral such as `0x1f`. -/
def numeral (n : Nat) : String := String.ofList ('0' :: 'x' :: digits n)

/-- A byte as a numeral of two digits, such as `0x0f`. -/
def byteNumeral (b : UInt8) : String :=
  if b < 16 then String.ofList ('0' :: 'x' :: '0' :: digits b.toNat) else numeral b.toNat

end Unwinder.Hex
