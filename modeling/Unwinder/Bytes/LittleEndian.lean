/-!
# `Unwinder.Bytes.LittleEndian` — numbers as byte strings, lowest byte first

Every integer of an image, a frame section or a probe record is stored little endian.

## Contents
- **Value and digits.** `toNat` reads a byte string of any length, `ofNat` writes the low bytes of a number;
  `limit` is the first number that a count of bytes does not hold, and `inWord?` is a number that a word does hold.
- **Inverse laws.** `toNat_ofNat` (a number that fits is read back) and `ofNat_toNat` (so is a byte string),
  with the bound `toNat_lt`.
-/

namespace Unwinder.LittleEndian

/-! ## Value and digits -/

/-- The number a byte string denotes, its first byte being the lowest. -/
def toNat : List UInt8 → Nat
  | [] => 0
  | b :: bs => b.toNat + 256 * toNat bs

/-- The `width` lowest bytes of a number, lowest first. -/
def ofNat : Nat → Nat → List UInt8
  | 0, _ => []
  | width + 1, n => UInt8.ofNat n :: ofNat width (n / 256)

/-- The first number that `width` bytes do not hold. -/
def limit : Nat → Nat
  | 0 => 1
  | width + 1 => 256 * limit width

/-- The first number that a word of eight bytes does not hold. -/
def wordLimit : Nat := 0x10000000000000000

theorem limit_eight : limit 8 = wordLimit := rfl

/-- A number, where a word of eight bytes holds it. -/
def inWord? (n : Nat) : Option Nat := if n < wordLimit then some n else none

theorem inWord?_of_lt {n : Nat} (h : n < wordLimit) : inWord? n = some n := if_pos h

@[simp] theorem length_ofNat (width n : Nat) : (ofNat width n).length = width := by
  induction width generalizing n with
  | zero => rfl
  | succ width ih => simp [ofNat, ih]

/-! ## Inverse laws -/

theorem toNat_lt (bs : List UInt8) : toNat bs < limit bs.length := by
  induction bs with
  | nil => simp [toNat, limit]
  | cons b bs ih =>
    have hb : b.toNat < 256 := b.toNat_lt
    simp only [toNat, List.length_cons, limit]
    omega

theorem toNat_ofNat (width n : Nat) : toNat (ofNat width n) = n % limit width := by
  induction width generalizing n with
  | zero => simp [ofNat, toNat, limit, Nat.mod_one]
  | succ width ih =>
    simp only [ofNat, toNat, ih, limit, Nat.mod_mul]
    simp

theorem ofNat_toNat (bs : List UInt8) : ofNat bs.length (toNat bs) = bs := by
  induction bs with
  | nil => rfl
  | cons b bs ih =>
    have hb : b.toNat < 256 := b.toNat_lt
    have hlow : UInt8.ofNat (b.toNat + 256 * toNat bs) = b := by
      apply UInt8.toNat_inj.mp
      simp only [UInt8.toNat_ofNat']
      omega
    have hhigh : (b.toNat + 256 * toNat bs) / 256 = toNat bs := by omega
    simp only [List.length_cons, ofNat, toNat, hlow, hhigh, ih]

end Unwinder.LittleEndian
