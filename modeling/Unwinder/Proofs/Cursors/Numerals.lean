import Mathlib.Tactic.Ring
import Unwinder.Proofs.Cursors.Steps
import Unwinder.Proofs.Magnitudes

/-!
# `Proofs.Cursors.Numerals` — numerals are put together by shifts

A machine reads a numeral byte by byte, shifts the seven bits of each up to their place in a word, and joins them to those it
has. A signed numeral that ends below the top of the word is filled up with copies of its sign. This module runs the readers
of numerals in that way. A shift by the width of the word or more has no result, and there is none: the byte that would be
shifted so far is refused instead.

## Contents
- **Joining.** `or_shifted`: bits that are shifted past those of a word are added to it.
- **Steps.** `Stepped.bits`, for both kinds of numeral; `Stepped.unsigned` and `Stepped.signed`.
- **Above the last group.** `Tops`: what is filled in above a numeral, and the number it makes; `or_signs`, copies of a sign.
- **Main statements.** `keeps_unsigned` and `keeps_signed`.
-/

namespace Unwinder.Cfi

open Leb128 (groups groupLimit groupValue signedGroupValue maxGroups)

/-! ## Joining -/

/-- A natural number and the integer that it is have the same low bits. -/
theorem ofInt_natCast (n : Nat) : UInt64.ofInt n = UInt64.ofNat n := by
  apply UInt64.toNat_inj.mp
  rw [UInt64.ofInt, UInt64.toNat_ofNat', UInt64.toNat_ofNat']
  omega

/-- Bits above a word are lost. -/
theorem ofInt_congr {v w : Int} (k : Int) (h : v = w + 2 ^ 64 * k) : UInt64.ofInt v = UInt64.ofInt w := by
  rw [UInt64.ofInt, UInt64.ofInt, h, Int.add_mul_emod_self_left]

/-- What is added to a number is added to its low bits. -/
theorem ofInt_add_toNat (n : Nat) (v : Int) :
    UInt64.ofInt ((UInt64.ofNat n).toNat + v) = UInt64.ofInt (n + v) := by
  rw [UInt64.ofInt_add, UInt64.ofInt_add, ofInt_natCast, ofInt_natCast, UInt64.ofNat_toNat]

/-- The low bits of an integer, taken as a signed word. -/
theorem toInt64_ofInt (v : Int) : (UInt64.ofInt v).toInt64 = Int64.ofInt v := by
  apply Int64.toBitVec_inj.mp
  show BitVec.ofNat 64 (v % 2 ^ 64).toNat = BitVec.ofInt 64 v
  apply BitVec.eq_of_toNat_eq
  rw [BitVec.toNat_ofNat, BitVec.toNat_ofInt, Nat.mod_eq_of_lt]
  · rfl
  · have hlt := Int.emod_lt_of_pos v (b := 2 ^ 64) (by decide)
    omega

/-- **Bits that are shifted past those of a word** are added to it. -/
theorem or_shifted (word more : UInt64) {shift : Nat} (hshift : shift < 64) (hword : word.toNat < 2 ^ shift) :
    word ||| more <<< UInt64.ofNat shift = UInt64.ofNat (word.toNat + 2 ^ shift * more.toNat) := by
  have hplace : (UInt64.ofNat shift).toNat % 64 = shift := by
    rw [UInt64.toNat_ofNat']
    omega
  have hwidth : 2 ^ 64 = 2 ^ shift * 2 ^ (64 - shift) := by
    rw [← Nat.pow_add]
    congr 1
    omega
  have hpos : 0 < 2 ^ shift := Nat.two_pow_pos shift
  apply UInt64.toNat_inj.mp
  calc (word ||| more <<< UInt64.ofNat shift).toNat
      = word.toNat ||| more.toNat * 2 ^ shift % 2 ^ 64 := by
        rw [UInt64.toNat_or, UInt64.toNat_shiftLeft, hplace, Nat.shiftLeft_eq]
    _ = 2 ^ shift * (more.toNat % 2 ^ (64 - shift)) ||| word.toNat := by
        rw [hwidth, Nat.mul_comm more.toNat, Nat.mul_mod_mul_left, Nat.or_comm]
    _ = word.toNat + 2 ^ shift * (more.toNat % 2 ^ (64 - shift)) := by
        rw [← Nat.two_pow_add_eq_or_of_lt hword, Nat.add_comm]
    _ = (word.toNat + 2 ^ shift * more.toNat) % 2 ^ 64 := by
        rw [hwidth, Nat.mod_mul, Nat.add_mul_mod_self_left, Nat.mod_eq_of_lt hword, Nat.add_mul_div_left _ _ hpos,
          Nat.div_eq_of_lt hword, Nat.zero_add]
    _ = (UInt64.ofNat (word.toNat + 2 ^ shift * more.toNat)).toNat := UInt64.toNat_ofNat'.symm

/-- The low seven bits of a byte. -/
theorem toNat_low (b : UInt8) : (b &&& 0x7f).toUInt64.toNat = b.toNat % 128 := by
  rw [UInt8.toNat_toUInt64, UInt8.toNat_and]
  exact Nat.and_two_pow_sub_one_eq_mod b.toNat 7

/-- The top bit of a byte. -/
theorem top_eq_zero_iff (b : UInt8) : b >>> 7 = 0 ↔ b < 0x80 := by
  have htop : (b >>> 7).toNat = b.toNat / 128 := by
    rw [UInt8.toNat_shiftRight]
    exact Nat.shiftRight_eq_div_pow b.toNat 7
  rw [← UInt8.toNat_inj, htop, UInt8.lt_iff_toNat_lt]
  show b.toNat / 128 = 0 ↔ b.toNat < 128
  omega

/-- The sign bit of a group. -/
theorem sign_eq_one_iff {b : UInt8} (hb : b < 0x80) : b >>> 6 &&& 1 = 1 ↔ 64 ≤ b.toNat := by
  have hsign : (b >>> 6 &&& 1).toNat = b.toNat / 64 % 2 := by
    rw [UInt8.toNat_and, UInt8.toNat_shiftRight]
    exact (Nat.and_two_pow_sub_one_eq_mod _ 1).trans (congrArg (· % 2) (Nat.shiftRight_eq_div_pow b.toNat 6))
  have hb : b.toNat < 128 := hb
  rw [← UInt8.toNat_inj, hsign]
  show b.toNat / 64 % 2 = 1 ↔ 64 ≤ b.toNat
  omega

/-! ## Steps -/

namespace Stepped

variable (data : Bytes)

/-- The word of a numeral whose next group belongs at `shift`, behind groups that made `word` so far. What `above` gives is
    joined to the last group, for a place above it. -/
def bits (defect : Defect) (above : UInt8 → Nat → Option UInt64) (word : UInt64) (shift : Nat) : Stepped UInt64 := do
  let b ← u8 data
  if 64 ≤ shift then refuse (.malformed defect)
  else do
    let part ← step (shifted? (b &&& 0x7f).toUInt64 shift)
    if b >>> 7 = 0 then do
      let top ← step (above b (shift + 7))
      return word ||| part ||| top
    else bits defect above (word ||| part) (shift + 7)
termination_by 64 - shift

/-- Nothing stands above an unsigned numeral. -/
def noBits (_ : UInt8) (_ : Nat) : Option UInt64 := some 0

/-- Copies of the sign stand above a signed numeral, where the word has room for them. -/
def signBits (b : UInt8) (shift : Nat) : Option UInt64 :=
  if shift < 64 ∧ b >>> 6 &&& 1 = 1 then shifted? 0xffffffffffffffff shift else some 0

/-- An unsigned number, as its low 64 bits. -/
def unsigned : Stepped UInt64 := bits data .unsignedOverflow noBits 0 0

/-- A signed number, as its low 64 bits. -/
def signed : Stepped Int64 := do return (← bits data .signedOverflow signBits 0 0).toInt64

end Stepped

/-! ## Above the last group -/

/-- **What stands above a numeral** and the number it makes with it: a group in front of others counts for itself, and the last
    one makes what the bits above it make of it. -/
structure Tops (above : UInt8 → Nat → Option UInt64) (number : List Nat → Int) : Prop where
  cons : ∀ g gs, gs ≠ [] → number (g :: gs) = g + 128 * number gs
  last : ∀ (b : UInt8) (shift n : Nat), b < 0x80 → shift < 64 → n < 2 ^ shift → ∃ top, above b (shift + 7) = some top ∧
    UInt64.ofNat (n + 2 ^ shift * b.toNat) ||| top = UInt64.ofInt (n + 2 ^ shift * number [b.toNat])

theorem tops_noBits : Tops Stepped.noBits fun gs => groupValue gs where
  cons g gs _ := rfl
  last b shift n _ _ _ := by
    have hnumber : groupValue [b.toNat] = b.toNat := rfl
    refine ⟨0, rfl, ?_⟩
    rw [UInt64.or_zero, hnumber, ← ofInt_natCast]
    norm_cast

theorem signedGroupValue_single (g : Nat) : signedGroupValue [g] = if 64 ≤ g then (g : Int) - 128 else g := by
  simp [signedGroupValue, groupValue, groupLimit]

/-- **Copies of the sign** above a number make it the negative number with the same low bits. They come to the largest word,
    which is one less than nothing. -/
theorem or_signs {n shift : Nat} (hshift : shift < 64) (hn : n < 2 ^ shift) :
    UInt64.ofNat n ||| 0xffffffffffffffff <<< UInt64.ofNat shift = UInt64.ofInt (n - 2 ^ shift) := by
  have hpower : 2 ^ shift ≤ 2 ^ 64 := Nat.pow_le_pow_right (by decide) (Nat.le_of_lt hshift)
  have hword : (UInt64.ofNat n).toNat = n := UInt64.toNat_ofNat_of_lt' (Nat.lt_of_lt_of_le hn hpower)
  have hones : (0xffffffffffffffff : UInt64).toNat = 2 ^ 64 - 1 := rfl
  rw [or_shifted _ _ hshift (by rwa [hword]), hword, hones, ← ofInt_natCast]
  refine ofInt_congr (2 ^ shift) ?_
  push_cast
  ring

theorem tops_signBits : Tops Stepped.signBits signedGroupValue where
  cons g gs hgs := by
    obtain ⟨h, t, rfl⟩ := List.exists_cons_of_ne_nil hgs
    have hlast : (g :: h :: t).getLastD 0 = (h :: t).getLastD 0 := by simp only [List.getLastD_cons]
    have hlimit : groupLimit (g :: h :: t).length = 128 * groupLimit (h :: t).length := rfl
    have hvalue : groupValue (g :: h :: t) = g + 128 * groupValue (h :: t) := rfl
    rw [signedGroupValue, signedGroupValue, hlast, hlimit, hvalue]
    split <;> omega
  last b shift n hb hshift hn := by
    have hnatural : ((n + 2 ^ shift * b.toNat : Nat) : Int) = n + 2 ^ shift * b.toNat := by norm_cast
    by_cases hsign : b >>> 6 &&& 1 = 1
    · have hnumber : (n + 2 ^ shift * (b.toNat - 128) : Int) = (n + 2 ^ shift * b.toNat : Nat) - 2 ^ (shift + 7) := by
        rw [hnatural]
        ring
      rw [signedGroupValue_single, if_pos ((sign_eq_one_iff hb).mp hsign), hnumber]
      by_cases hroom : shift + 7 < 64
      · refine ⟨0xffffffffffffffff <<< UInt64.ofNat (shift + 7), ?_, or_signs hroom ?_⟩
        · rw [Stepped.signBits, if_pos ⟨hroom, hsign⟩, shifted?_of_lt hroom]
        · have hgroup : 2 ^ shift * b.toNat ≤ 2 ^ shift * 127 := Nat.mul_le_mul_left _ (Nat.le_of_lt_succ hb)
          rw [Nat.pow_add]
          omega
      · -- the sign stands above the word
        refine ⟨0, ?_, ?_⟩
        · rw [Stepped.signBits, if_neg fun h => hroom h.1]
        · have hsplit : (2 : Int) ^ (shift + 7) = 2 ^ 64 * 2 ^ (shift + 7 - 64) := by
            rw [← pow_add]
            congr 1
            omega
          rw [UInt64.or_zero, ← ofInt_natCast]
          exact ofInt_congr (2 ^ (shift + 7 - 64)) (by rw [← hsplit, Int.sub_add_cancel])
    · refine ⟨0, ?_, ?_⟩
      · rw [Stepped.signBits, if_neg fun h => hsign h.2]
      · rw [UInt64.or_zero, signedGroupValue_single, if_neg fun h => hsign ((sign_eq_one_iff hb).mpr h), ← hnatural,
          ofInt_natCast]

/-! ## Main statements -/

namespace Stepped

section Keeps

variable {data : Bytes} {body : Extent} {above : UInt8 → Nat → Option UInt64} {number : List Nat → Int}

/-- **Steps put a numeral together**: the bits of its groups are added to those there are, at the place they have reached. -/
theorem keeps_bits (hmemory : data.length < LittleEndian.wordLimit) (htops : Tops above number) (defect : Defect)
    (count : Nat) {word : UInt64} {shift : Nat} (hshift : shift + 7 * count = 7 * maxGroups) (hword : word.toNat < 2 ^ shift) :
    Keeps data body (fun result gs => gs ≠ [] ∧ result = UInt64.ofInt (word.toNat + 2 ^ shift * number gs))
      (bits data defect above word shift) (groups defect count) := by
  have hmax : 7 * maxGroups = 70 := rfl
  -- over the groups that are still accepted, which the place of the next one counts down
  induction count generalizing word shift with
  | zero =>
      rw [bits, groups]
      refine (keeps_u8 hmemory).andThen fun b => ?_
      rw [if_pos (by omega)]
      exact .refuse _
  | succ count ih =>
      have hroom : ¬ 64 ≤ shift := by omega
      rw [bits, groups]
      refine (keeps_u8 hmemory).andThen fun b => ?_
      have hjoined := or_shifted word (b &&& 0x7f).toUInt64 (Nat.lt_of_not_le hroom) hword
      rw [toNat_low] at hjoined
      rw [if_neg hroom]
      refine .step (shifted?_of_lt (Nat.lt_of_not_le hroom)) ?_
      simp only [hjoined, top_eq_zero_iff]
      by_cases hlast : b < 0x80
      · have hgroup : b.toNat % 128 = b.toNat := Nat.mod_eq_of_lt hlast
        obtain ⟨top, htop, hnumber⟩ := htops.last b shift word.toNat hlast (Nat.lt_of_not_le hroom) hword
        simp only [if_pos hlast, hgroup]
        exact .step htop (.pure ⟨List.cons_ne_nil _ _, hnumber⟩)
      · have hgroup : b.toNat - 0x80 = b.toNat % 128 := by
          have hge : ¬ b.toNat < 128 := hlast
          have hlt := b.toNat_lt
          omega
        have hjoin : (UInt64.ofNat (word.toNat + 2 ^ shift * (b.toNat % 128))).toNat < 2 ^ (shift + 7) := by
          have hpart : 2 ^ shift * (b.toNat % 128) ≤ 2 ^ shift * 127 := Nat.mul_le_mul_left _ (by omega)
          rw [UInt64.toNat_ofNat', Nat.pow_add]
          exact Nat.lt_of_le_of_lt (Nat.mod_le _ _) (by omega)
        simp only [if_neg hlast, hgroup]
        refine (ih (by omega) hjoin).compute ?_
        rintro result gs ⟨hgs, rfl⟩
        refine ⟨List.cons_ne_nil _ _, ?_⟩
        rw [ofInt_add_toNat, htops.cons _ _ hgs]
        refine congrArg UInt64.ofInt ?_
        push_cast
        ring

/-- The number of a whole numeral is what its groups make of nothing. -/
theorem ofInt_nothing (v : Int) : UInt64.ofInt ((0 : UInt64).toNat + 2 ^ 0 * v) = UInt64.ofInt v := by
  congr 1
  show (0 : Int) + 1 * v = v
  rw [Int.zero_add, Int.one_mul]

/-- **An unsigned numeral is put together** by shifts that a word has room for. -/
theorem keeps_unsigned (hmemory : data.length < LittleEndian.wordLimit) :
    Keeps data body Eq (unsigned data) Leb128.unsigned := by
  have hnone : (0 : UInt64).toNat < 2 ^ 0 := by decide
  refine (keeps_bits hmemory tops_noBits .unsignedOverflow maxGroups (Nat.zero_add _) hnone).compute ?_
  rintro result gs ⟨-, rfl⟩
  rw [ofInt_nothing, ofInt_natCast]

/-- **A signed numeral is put together** in the same way. -/
theorem keeps_signed (hmemory : data.length < LittleEndian.wordLimit) :
    Keeps data body Eq (signed data) Leb128.signed := by
  have hnone : (0 : UInt64).toNat < 2 ^ 0 := by decide
  refine (keeps_bits hmemory tops_signBits .signedOverflow maxGroups (Nat.zero_add _) hnone).bind ?_
  rintro result gs ⟨-, rfl⟩
  refine .pure ?_
  rw [ofInt_nothing, toInt64_ofInt]

end Keeps

end Stepped

end Unwinder.Cfi
