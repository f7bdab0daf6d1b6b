import Unwinder.Cfi.Section
import Unwinder.Proofs.Reading

/-!
# `Proofs.Numerals` — numbers and names are read back as they are written

A LEB128 numeral may be longer than its number needs. `Unsigned` and `Signed` are numbers together with the count of
groups they are written in, long enough for the number and no longer than a reader accepts; each is read back as its
number. The same is shown of text behind a zero byte and of blocks behind their length.

## Contents
- **Groups.** `digits` are the groups of `spell`, and `groupValue` adds them up again.
- **Numerals.** `Unsigned.reads` and `Signed.reads`.
- **Names and blocks.** `Field.reads_text`, `Cfi.reads_block`.
-/

namespace Unwinder

namespace Leb128

/-! ## Groups -/

/-- The groups of a number, `more` of them and one more, lowest first. -/
def digits : Nat → Nat → List Nat
  | 0, n => [n % 128]
  | more + 1, n => n % 128 :: digits more (n / 128)

@[simp] theorem length_digits (more n : Nat) : (digits more n).length = more + 1 := by
  induction more generalizing n with
  | zero => rfl
  | succ more ih => rw [digits, List.length_cons, ih]

theorem groupLimit_pos (count : Nat) : 0 < groupLimit count := by
  induction count with
  | zero => decide
  | succ count ih =>
      rw [groupLimit]
      omega

/-- The groups of a number add up to what they hold of it. -/
theorem groupValue_digits (more n : Nat) : groupValue (digits more n) = n % groupLimit (more + 1) := by
  induction more generalizing n with
  | zero => simp [digits, groupValue, groupLimit]
  | succ more ih =>
      show n % 128 + 128 * groupValue (digits more (n / 128)) = n % (128 * groupLimit (more + 1))
      rw [ih, Nat.mod_mul]

/-- The last group is what is above the others. -/
theorem getLastD_digits (more n d : Nat) : (digits more n).getLastD d = n / groupLimit more % 128 := by
  induction more generalizing n d with
  | zero => simp [digits, groupLimit]
  | succ more ih => rw [digits, List.getLastD_cons, ih, groupLimit, Nat.div_div_eq_div_mul]

/-- **Numerals are read back as their groups**, when there are no more of them than the reader accepts. -/
theorem reads_groups (defect : Defect) {count more : Nat} (hmore : more < count) (n : Nat) :
    Field.Reads (groups defect count) (spell more n) (digits more n) := by
  -- over the groups the reader still accepts; a group is the last one when its byte is below 128
  induction count generalizing more n with
  | zero => omega
  | succ count ih =>
      cases more with
      | zero =>
          have hlow : n % 128 < 128 := Nat.mod_lt _ (by decide)
          intro rest
          rw [groups, spell, Field.bind_of_ok (Field.reads_u8 _ rest), if_pos, Field.pure_apply, digits]
          · rw [UInt8.toNat_ofNat_of_lt' (by show n % 128 < 256; omega)]
          · rw [UInt8.lt_iff_toNat_lt, UInt8.toNat_ofNat_of_lt' (by show n % 128 < 256; omega)]
            exact hlow
      | succ more =>
          have hlow : n % 128 < 128 := Nat.mod_lt _ (by decide)
          have hbyte : (UInt8.ofNat (n % 128 + 128)).toNat = n % 128 + 128 :=
            UInt8.toNat_ofNat_of_lt' (by show n % 128 + 128 < 256; omega)
          intro rest
          have hread : Field.u8 (UInt8.ofNat (n % 128 + 128) :: (spell more (n / 128) ++ rest))
              = .ok (UInt8.ofNat (n % 128 + 128), spell more (n / 128) ++ rest) := Field.reads_u8 _ _
          rw [groups, spell, List.cons_append, Field.bind_of_ok hread, if_neg]
          · rw [Field.bind_of_ok (ih (Nat.lt_of_succ_lt_succ hmore) (n / 128) rest), Field.pure_apply, digits, hbyte,
              Nat.add_sub_cancel]
          · rw [UInt8.lt_iff_toNat_lt, hbyte]
            show ¬ n % 128 + 128 < 128
            omega

/-! ## Numerals -/

/-- An unsigned number, to be written in `more` groups and one more. -/
structure Unsigned where
  value : UInt64
  more : Nat
  short : more < maxGroups
  fits : value.toNat < groupLimit (more + 1)

/-- The bytes of an unsigned numeral. -/
def Unsigned.bytes (n : Unsigned) : Bytes := spell n.more n.value.toNat

/-- **Unsigned numerals are read back**, in whatever form they are written. -/
theorem Unsigned.reads (n : Unsigned) : Field.Reads unsigned n.bytes n.value := by
  have h := (reads_groups .unsignedOverflow n.short n.value.toNat).map fun gs => UInt64.ofNat (groupValue gs)
  rw [groupValue_digits, Nat.mod_eq_of_lt n.fits, UInt64.ofNat_toNat] at h
  exact h

/-- The signed numbers that the residues below `limit` stand for in two's complement. -/
def HoldsSigned (limit : Nat) (v : Int) : Prop := -(limit : Int) ≤ 2 * v ∧ 2 * v < limit

instance (limit : Nat) (v : Int) : Decidable (HoldsSigned limit v) := inferInstanceAs (Decidable (_ ∧ _))

/-- A signed number, to be written in `more` groups and one more. -/
structure Signed where
  value : Int64
  more : Nat
  short : more < maxGroups
  fits : HoldsSigned (groupLimit (more + 1)) value.toInt

/-- The bytes of a signed numeral, in two's complement. -/
def Signed.bytes (n : Signed) : Bytes := spell n.more (n.value.toInt % groupLimit (n.more + 1)).toNat

/-- The top bit of the last group tells negative numbers from the others. -/
theorem signedGroupValue_digits (more : Nat) {v : Int} (h : HoldsSigned (groupLimit (more + 1)) v) :
    signedGroupValue (digits more (v % groupLimit (more + 1)).toNat) = v := by
  obtain ⟨hlow, hhigh⟩ := h
  have hpos := groupLimit_pos more
  have hlimit : groupLimit (more + 1) = 128 * groupLimit more := rfl
  have hnonneg : 0 ≤ v % groupLimit (more + 1) := Int.emod_nonneg v (by omega)
  have hlt : v % groupLimit (more + 1) < groupLimit (more + 1) := Int.emod_lt_of_pos v (by omega)
  have hn : (v % groupLimit (more + 1)).toNat < groupLimit (more + 1) := by omega
  have hvalue : groupValue (digits more (v % groupLimit (more + 1)).toNat) = (v % groupLimit (more + 1)).toNat := by
    rw [groupValue_digits, Nat.mod_eq_of_lt hn]
  have hlast : (digits more (v % groupLimit (more + 1)).toNat).getLastD 0
      = (v % groupLimit (more + 1)).toNat / groupLimit more := by
    rw [getLastD_digits, Nat.mod_eq_of_lt]
    exact Nat.div_lt_of_lt_mul (by rw [Nat.mul_comm, ← hlimit]; exact hn)
  rw [signedGroupValue, hvalue, hlast, length_digits]
  -- a number is negative exactly when its residue is in the upper half
  by_cases hnegative : v < 0
  · have hresidue : v % groupLimit (more + 1) = v + groupLimit (more + 1) := by
      rw [← Int.add_emod_right, Int.emod_eq_of_lt] <;> omega
    rw [hresidue, if_pos]
    · omega
    · rw [Nat.le_div_iff_mul_le hpos]
      omega
  · have hresidue : v % groupLimit (more + 1) = v := Int.emod_eq_of_lt (by omega) (by omega)
    rw [hresidue, if_neg]
    · omega
    · rw [Nat.le_div_iff_mul_le hpos]
      omega

/-- **Signed numerals are read back**, in whatever form they are written. -/
theorem Signed.reads (n : Signed) : Field.Reads signed n.bytes n.value := by
  have h := (reads_groups .signedOverflow n.short (n.value.toInt % groupLimit (n.more + 1)).toNat).map
    fun gs => Int64.ofInt (signedGroupValue gs)
  rw [signedGroupValue_digits n.more n.fits, Int64.ofInt_toInt] at h
  exact h

end Leb128

/-! ## Names and blocks -/

/-- Text of characters that take a byte each has no fault. -/
theorem Utf8.fault?_of_ascii {bs : Bytes} (h : ∀ b ∈ bs, b < 0x80) : Utf8.fault? bs = none := by
  -- for every position, since the check counts it along
  have hfrom : ∀ (bs : Bytes) (position : Nat), (∀ b ∈ bs, b < 0x80) → Utf8.faultFrom position 0 bs = none := by
    intro bs
    induction bs with
    | nil => exact fun _ _ => rfl
    | cons b bs ih =>
        intro position h
        have hnext : ∃ point, Utf8.next b bs = .character point 1 := by
          refine ⟨Utf8.leadBits b 0, ?_⟩
          rw [Utf8.next, Utf8.followers, if_pos (h b List.mem_cons_self)]
          rfl
        obtain ⟨point, hpoint⟩ := hnext
        rw [Utf8.faultFrom, hpoint]
        exact ih (position + 1) fun c hc => h c (List.mem_cons_of_mem b hc)
  exact hfrom bs 0 h

namespace Field

/-- Text without a zero byte is read back from in front of one. -/
theorem reads_text {bs : Bytes} (hzero : ∀ b ∈ bs, b ≠ 0) (htext : Utf8.fault? bs = none) :
    Reads text (bs ++ [0]) bs := by
  have hall : ∀ b ∈ bs, decide (b ≠ 0) = true := fun b hb => decide_eq_true (hzero b hb)
  have hterminated : Reads terminated (bs ++ [0]) bs := by
    intro rest
    rw [List.append_assoc, terminated, List.dropWhile_append_of_pos hall, List.takeWhile_append_of_pos hall]
    simp
  intro rest
  rw [text, bind_of_ok (hterminated rest)]
  simp only [htext, pure_apply]

end Field

namespace Cfi

/-- A block behind its length, the length in `more` groups and one more. -/
def framed (more : Nat) (bs : Bytes) : Bytes := Leb128.spell more bs.length ++ bs

/-- **Blocks are read back**, in whatever form their length is written. -/
theorem reads_block {more : Nat} {bs : Bytes} (hmore : more < Leb128.maxGroups)
    (hfits : bs.length < Leb128.groupLimit (more + 1)) (hword : bs.length < LittleEndian.wordLimit) :
    Field.Reads block (framed more bs) bs := by
  have hlength : (UInt64.ofNat bs.length).toNat = bs.length := UInt64.toNat_ofNat_of_lt' hword
  have hfits' : (UInt64.ofNat bs.length).toNat < Leb128.groupLimit (more + 1) := by rwa [hlength]
  have hread := (Leb128.Unsigned.mk (UInt64.ofNat bs.length) more hmore hfits').reads
  rw [Leb128.Unsigned.bytes, hlength] at hread
  have htake := Field.reads_take bs
  rw [← hlength] at htake
  show Field.Reads (Leb128.unsigned >>= fun length => Field.take length.toNat) (Leb128.spell more bs.length ++ bs) bs
  exact hread.bind htake

end Cfi

end Unwinder
