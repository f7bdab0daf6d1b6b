import Mathlib.Algebra.BigOperators.Fin
import Unwinder.Error.Message
import Unwinder.Proofs.Numerals

/-!
# `Proofs.Magnitudes` — the numbers that numerals stand for

A LEB128 numeral stands for a number whether or not a word holds it. This module says which number that is, by the bytes
of the numeral alone, and when the number that a reader gives is that one. A numeral of ten bytes has seventy bits, six
more than a word: the readers count bytes and not bits, and what the tenth byte adds above a word is lost.

## Contents
- **Numerals.** `Numeral`, with the numbers `magnitude` and `amount` that its bytes stand for.
- **Groups.** `groups_numeral` and `groups_unended`: what `groups` makes of every byte string.
- **Numbers.** `unsigned_numeral` and `signed_numeral`; `magnitude_lt_iff` and `amount_fits_iff` say which numerals of at
  most ten bytes a word holds.
- **Refusal.** `Refuses`: as malformed, in given words.
- **Main statement.** `numerals_true_up_to_tenth_byte`.
-/

namespace Unwinder.Leb128

/-! ## Numerals -/

/-- **A numeral**: bytes with their top bit set, and a last byte without it. -/
structure Numeral where
  front : Bytes
  last : UInt8
  continues : ∀ b ∈ front, 0x80 ≤ b
  ends : last < 0x80

namespace Numeral

/-- The bytes of a numeral. -/
def bytes (n : Numeral) : Bytes := n.front ++ [n.last]

/-- **The unsigned number that a numeral stands for**: seven bits of each byte, the first byte being the lowest. -/
def magnitude (n : Numeral) : Nat := ∑ i : Fin n.bytes.length, (n.bytes[i].toNat % 128) * 2 ^ (7 * i.val)

/-- **The signed number that a numeral stands for**: bit 6 of the last byte tells that it is negative. -/
def amount (n : Numeral) : Int :=
  if n.last.toNat.testBit 6 then (n.magnitude : Int) - 2 ^ (7 * n.bytes.length) else n.magnitude

@[simp] theorem length_bytes (n : Numeral) : n.bytes.length = n.front.length + 1 := by simp [bytes]

theorem last_lt (n : Numeral) : n.last.toNat < 128 := UInt8.lt_iff_toNat_lt.mp n.ends

end Numeral

/-- A byte string begins with a numeral, or all of its bytes have their top bit set. -/
theorem exists_numeral (bs : Bytes) : (∃ (n : Numeral) (rest : Bytes), bs = n.bytes ++ rest) ∨ ∀ b ∈ bs, 0x80 ≤ b := by
  induction bs with
  | nil => exact .inr (by simp)
  | cons b bs ih =>
      by_cases hb : b < 0x80
      · exact .inl ⟨⟨[], b, by simp, hb⟩, bs, rfl⟩
      · have hb : 0x80 ≤ b := by
          rw [UInt8.lt_iff_toNat_lt] at hb
          exact UInt8.le_iff_toNat_le.mpr (Nat.le_of_not_lt hb)
        rcases ih with ⟨n, rest, rfl⟩ | hall
        · refine .inl ⟨⟨b :: n.front, n.last, ?_, n.ends⟩, rest, rfl⟩
          exact List.forall_mem_cons.mpr ⟨hb, n.continues⟩
        · exact .inr (List.forall_mem_cons.mpr ⟨hb, hall⟩)

/-! ## Groups -/

/-- The seven bits that a byte holds of a number. -/
def group (b : UInt8) : Nat := b.toNat % 128

theorem group_of_lt {b : UInt8} (h : b < 0x80) : group b = b.toNat :=
  Nat.mod_eq_of_lt (UInt8.lt_iff_toNat_lt.mp h)

/-- A byte with the top bit set is a group of a numeral that goes on. -/
theorem groups_cons_of_le {b : UInt8} (h : 0x80 ≤ b) (defect : Defect) (count : Nat) (bs : Bytes) :
    groups defect (count + 1) (b :: bs) = (groups defect count >>= fun gs => pure (group b :: gs)) bs := by
  have hread : Field.u8 (b :: bs) = .ok (b, bs) := Field.reads_u8 b bs
  have hle : 128 ≤ b.toNat := UInt8.le_iff_toNat_le.mp h
  have hgroup : b.toNat - 0x80 = group b := by
    have hlt := b.toNat_lt
    unfold group
    omega
  rw [groups, Field.bind_of_ok hread, if_neg, hgroup]
  rw [UInt8.lt_iff_toNat_lt]
  exact Nat.not_lt_of_le hle

/-- A byte without the top bit is the last group of a numeral. -/
theorem groups_cons_of_lt {b : UInt8} (h : b < 0x80) (defect : Defect) (count : Nat) (bs : Bytes) :
    groups defect (count + 1) (b :: bs) = .ok ([group b], bs) := by
  have hread : Field.u8 (b :: bs) = .ok (b, bs) := Field.reads_u8 b bs
  rw [groups, Field.bind_of_ok hread, if_pos h, group_of_lt h, Field.pure_apply]

/-- A numeral that goes on after all the groups that are accepted is refused at its next byte. -/
theorem groups_zero_cons (defect : Defect) (b : UInt8) (bs : Bytes) :
    groups defect 0 (b :: bs) = .error (.malformed defect) := by
  have hread : Field.u8 (b :: bs) = .ok (b, bs) := Field.reads_u8 b bs
  rw [groups, Field.bind_of_ok hread]
  rfl

/-- **Numerals are taken apart into their groups**, unless they have more bytes than the reader accepts. -/
theorem groups_numeral (defect : Defect) (count : Nat) (n : Numeral) (rest : Bytes) :
    groups defect count (n.bytes ++ rest) =
      if n.bytes.length ≤ count then .ok (n.bytes.map group, rest) else .error (.malformed defect) := by
  obtain ⟨front, last, hfront, hlast⟩ := n
  show groups defect count (front ++ [last] ++ rest) =
    if (front ++ [last]).length ≤ count then .ok ((front ++ [last]).map group, rest) else .error (.malformed defect)
  -- along the bytes before the last one, each of which takes one of the groups still accepted
  induction front generalizing count with
  | nil =>
      cases count with
      | zero => exact groups_zero_cons defect last rest
      | succ count => rw [if_pos (by simp)]; exact groups_cons_of_lt hlast defect count rest
  | cons b front ih =>
      obtain ⟨hb, hfront⟩ := List.forall_mem_cons.mp hfront
      cases count with
      | zero => exact groups_zero_cons defect b (front ++ [last] ++ rest)
      | succ count =>
          have hread := ih count hfront
          show groups defect (count + 1) (b :: (front ++ [last] ++ rest)) =
            if (front ++ [last]).length + 1 ≤ count + 1 then .ok (group b :: (front ++ [last]).map group, rest)
            else .error (.malformed defect)
          rw [groups_cons_of_le hb]
          by_cases hshort : (front ++ [last]).length ≤ count
          · rw [if_pos hshort] at hread
            rw [if_pos (Nat.succ_le_succ hshort)]
            exact Field.bind_of_ok hread
          · rw [if_neg hshort] at hread
            rw [if_neg fun h => hshort (Nat.le_of_succ_le_succ h)]
            exact Field.bind_of_error hread

/-- **Bytes that do not end a numeral are refused**: as cut off, or as too many. -/
theorem groups_unended (defect : Defect) (count : Nat) {bs : Bytes} (h : ∀ b ∈ bs, 0x80 ≤ b) :
    groups defect count bs =
      if bs.length ≤ count then .error (.malformed (.truncated 1 0)) else .error (.malformed defect) := by
  induction bs generalizing count with
  | nil =>
      have hread : Field.u8 [] = .error (.malformed (.truncated 1 0)) := rfl
      show groups defect count [] = if 0 ≤ count then _ else _
      rw [if_pos (Nat.zero_le count)]
      cases count with
      | zero => exact Field.bind_of_error hread
      | succ count => exact Field.bind_of_error hread
  | cons b bs ih =>
      obtain ⟨hb, hbs⟩ := List.forall_mem_cons.mp h
      cases count with
      | zero => exact groups_zero_cons defect b bs
      | succ count =>
          have hread := ih count hbs
          show groups defect (count + 1) (b :: bs) = if bs.length + 1 ≤ count + 1 then _ else _
          rw [groups_cons_of_le hb]
          by_cases hshort : bs.length ≤ count
          · rw [if_pos hshort] at hread
            rw [if_pos (Nat.succ_le_succ hshort)]
            exact Field.bind_of_error hread
          · rw [if_neg hshort] at hread
            rw [if_neg fun h => hshort (Nat.le_of_succ_le_succ h)]
            exact Field.bind_of_error hread

/-- What is taken apart into groups is a numeral. -/
theorem numeral_of_groups {defect : Defect} {count : Nat} {bs rest : Bytes} {gs : List Nat}
    (h : groups defect count bs = .ok (gs, rest)) :
    ∃ n : Numeral, bs = n.bytes ++ rest ∧ n.bytes.length ≤ count ∧ gs = n.bytes.map group := by
  rcases exists_numeral bs with ⟨n, after, rfl⟩ | hunended
  · rw [groups_numeral] at h
    split at h
    · rename_i hshort
      cases h
      exact ⟨n, rfl, hshort, rfl⟩
    · cases h
  · rw [groups_unended _ _ hunended] at h
    split at h <;> cases h

/-! ## Numbers -/

/-- A count of groups holds as many bits as there are in it. -/
theorem groupLimit_eq (count : Nat) : groupLimit count = 2 ^ (7 * count) := by
  induction count with
  | zero => rfl
  | succ count ih => rw [groupLimit, ih, Nat.mul_succ, Nat.pow_add, Nat.mul_comm]

/-- The groups of bytes add up to the sum of what each byte stands for at its place. -/
theorem groupValue_map (bs : Bytes) :
    groupValue (bs.map group) = ∑ i : Fin bs.length, (bs[i].toNat % 128) * 2 ^ (7 * i.val) := by
  induction bs with
  | nil => rfl
  | cons b bs ih =>
      have hplaces : ∀ i : Fin bs.length, bs[i].toNat % 128 * 2 ^ (7 * (i.val + 1)) =
          128 * (bs[i].toNat % 128 * 2 ^ (7 * i.val)) := by
        intro i
        rw [Nat.mul_succ, Nat.pow_add, Nat.mul_comm _ (2 ^ 7), Nat.mul_left_comm]
      calc groupValue ((b :: bs).map group)
          = group b + 128 * groupValue (bs.map group) := rfl
        _ = group b + ∑ i : Fin bs.length, (bs[i].toNat % 128) * 2 ^ (7 * (i.val + 1)) := by
            rw [ih, Finset.mul_sum, Finset.sum_congr rfl fun i _ => (hplaces i).symm]
        _ = _ := by simp [Fin.sum_univ_succ, group]

theorem groupValue_append (gs : List Nat) (g : Nat) :
    groupValue (gs ++ [g]) = groupValue gs + groupLimit gs.length * g := by
  induction gs with
  | nil => simp [groupValue, groupLimit]
  | cons first gs ih =>
      show first + 128 * groupValue (gs ++ [g]) = first + 128 * groupValue gs + 128 * groupLimit gs.length * g
      rw [ih, Nat.mul_add, Nat.add_assoc, Nat.mul_assoc]

theorem groupValue_lt (bs : Bytes) : groupValue (bs.map group) < groupLimit bs.length := by
  induction bs with
  | nil => decide
  | cons b bs ih =>
      have hb : group b < 128 := Nat.mod_lt _ (by decide)
      show group b + 128 * groupValue (bs.map group) < 128 * groupLimit bs.length
      omega

namespace Numeral

theorem magnitude_eq (n : Numeral) : n.magnitude = groupValue (n.bytes.map group) := (groupValue_map n.bytes).symm

/-- What is above the other bytes of a numeral is the last one. -/
theorem magnitude_split (n : Numeral) :
    ∃ low, low < 2 ^ (7 * n.front.length) ∧ n.magnitude = low + 2 ^ (7 * n.front.length) * n.last.toNat := by
  refine ⟨groupValue (n.front.map group), ?_, ?_⟩
  · rw [← groupLimit_eq]
    exact groupValue_lt n.front
  · rw [magnitude_eq, bytes, List.map_append, List.map_singleton, groupValue_append, group_of_lt n.ends,
      List.length_map, groupLimit_eq]

theorem magnitude_lt (n : Numeral) : n.magnitude < 2 ^ (7 * n.bytes.length) := by
  rw [magnitude_eq, ← groupLimit_eq]
  exact groupValue_lt n.bytes

theorem testBit_last (n : Numeral) : n.last.toNat.testBit 6 = true ↔ 64 ≤ n.last.toNat := by
  have hlt := n.last_lt
  rw [Nat.testBit_eq_decide_div_mod_eq, decide_eq_true_iff]
  omega

theorem amount_eq (n : Numeral) : n.amount = signedGroupValue (n.bytes.map group) := by
  have hlast : (n.bytes.map group).getLastD 0 = n.last.toNat := by
    rw [bytes, List.map_append, List.map_singleton, List.getLastD_concat, group_of_lt n.ends]
  unfold amount signedGroupValue
  simp only [n.testBit_last, hlast, magnitude_eq, List.length_map, groupLimit_eq]
  norm_cast

/-- **The unsigned numbers that a word holds**: of the numerals with at most ten bytes, those whose tenth byte adds no
    more than the top bit. -/
theorem magnitude_lt_iff (n : Numeral) (h : n.bytes.length ≤ maxGroups) :
    n.magnitude < 2 ^ 64 ↔ n.bytes.length < maxGroups ∨ n.last ≤ 1 := by
  have hlength := n.length_bytes
  have hmax : maxGroups = 10 := rfl
  rcases Nat.lt_or_eq_of_le h with hshort | hten
  · have hlt : n.magnitude < 2 ^ 63 :=
      Nat.lt_of_lt_of_le n.magnitude_lt (Nat.pow_le_pow_right (by decide) (by omega))
    exact ⟨fun _ => .inl hshort, fun _ => by omega⟩
  · obtain ⟨low, hlow, hsplit⟩ := n.magnitude_split
    have hnine : n.front.length = 9 := by omega
    have hone : n.last ≤ 1 ↔ n.last.toNat ≤ 1 := UInt8.le_iff_toNat_le
    rw [hnine] at hlow hsplit
    rw [hone]
    omega

/-- **The signed numbers that a word holds**: of the numerals with at most ten bytes, those whose tenth byte repeats the
    sign. -/
theorem amount_fits_iff (n : Numeral) (h : n.bytes.length ≤ maxGroups) :
    (-2 ^ 63 ≤ n.amount ∧ n.amount < 2 ^ 63) ↔ n.bytes.length < maxGroups ∨ n.last = 0 ∨ n.last = 0x7f := by
  have hlength := n.length_bytes
  have hmax : maxGroups = 10 := rfl
  rcases Nat.lt_or_eq_of_le h with hshort | hten
  · have hpow : 2 ^ (7 * n.bytes.length) ≤ 2 ^ 63 := Nat.pow_le_pow_right (by decide) (by omega)
    have hlt := n.magnitude_lt
    have hcast : ((2 ^ (7 * n.bytes.length) : Nat) : Int) = 2 ^ (7 * n.bytes.length) := by norm_cast
    have hfits : -2 ^ 63 ≤ n.amount ∧ n.amount < 2 ^ 63 := by
      unfold amount
      rw [← hcast]
      split <;> omega
    exact ⟨fun _ => .inl hshort, fun _ => hfits⟩
  · obtain ⟨low, hlow, hsplit⟩ := n.magnitude_split
    have hlast := n.last_lt
    have hnine : n.front.length = 9 := by omega
    have hzero : n.last = 0 ↔ n.last.toNat = 0 := UInt8.toNat_inj.symm
    have hsign : n.last = 0x7f ↔ n.last.toNat = 127 := UInt8.toNat_inj.symm
    rw [hnine] at hlow hsplit
    rw [hzero, hsign, amount, hten, hmax]
    simp only [n.testBit_last]
    split <;> omega

end Numeral

/-- **Unsigned numerals are read as residues** of their numbers. -/
theorem unsigned_numeral (n : Numeral) (rest : Bytes) :
    unsigned (n.bytes ++ rest) =
      if n.bytes.length ≤ maxGroups then .ok (UInt64.ofNat n.magnitude, rest)
      else .error (.malformed .unsignedOverflow) := by
  have hread := groups_numeral .unsignedOverflow maxGroups n rest
  unfold unsigned
  split at hread
  · rename_i hshort
    rw [Field.bind_of_ok hread, if_pos hshort, n.magnitude_eq, Field.pure_apply]
  · rename_i hlong
    rw [Field.bind_of_error hread, if_neg hlong]

/-- **Signed numerals are read as residues** of their numbers. -/
theorem signed_numeral (n : Numeral) (rest : Bytes) :
    signed (n.bytes ++ rest) =
      if n.bytes.length ≤ maxGroups then .ok (Int64.ofInt n.amount, rest)
      else .error (.malformed .signedOverflow) := by
  have hread := groups_numeral .signedOverflow maxGroups n rest
  unfold signed
  split at hread
  · rename_i hshort
    rw [Field.bind_of_ok hread, if_pos hshort, n.amount_eq, Field.pure_apply]
  · rename_i hlong
    rw [Field.bind_of_error hread, if_neg hlong]

/-- What is read as an unsigned number is a numeral. -/
theorem unsigned_eq_ok {bs rest : Bytes} {v : UInt64} (h : unsigned bs = .ok (v, rest)) :
    ∃ n : Numeral, bs = n.bytes ++ rest ∧ n.bytes.length ≤ maxGroups ∧ v = UInt64.ofNat n.magnitude := by
  obtain ⟨gs, mid, hgroups, hv⟩ := Field.bind_eq_ok.mp h
  cases hv
  obtain ⟨n, hbs, hshort, rfl⟩ := numeral_of_groups hgroups
  exact ⟨n, hbs, hshort, by rw [n.magnitude_eq]⟩

/-- What is read as a signed number is a numeral. -/
theorem signed_eq_ok {bs rest : Bytes} {v : Int64} (h : signed bs = .ok (v, rest)) :
    ∃ n : Numeral, bs = n.bytes ++ rest ∧ n.bytes.length ≤ maxGroups ∧ v = Int64.ofInt n.amount := by
  obtain ⟨gs, mid, hgroups, hv⟩ := Field.bind_eq_ok.mp h
  cases hv
  obtain ⟨n, hbs, hshort, rfl⟩ := numeral_of_groups hgroups
  exact ⟨n, hbs, hshort, by rw [n.amount_eq]⟩

/-- A number is kept as an unsigned word when it is one. -/
theorem toNat_ofNat_eq_iff (m : Nat) : (UInt64.ofNat m).toNat = m ↔ m < 2 ^ 64 := by
  rw [UInt64.toNat_ofNat']
  omega

/-- A number is kept as a signed word when it is one. -/
theorem toInt_ofInt_eq_iff (m : Int) : (Int64.ofInt m).toInt = m ↔ -2 ^ 63 ≤ m ∧ m < 2 ^ 63 := by
  have hlow := @Int.le_bmod m (2 ^ 64) (by decide)
  have hhigh := @Int.bmod_lt m (2 ^ 64) (by decide)
  rw [Int64.toInt_ofInt, show Int64.size = 2 ^ 64 from rfl]
  constructor
  · intro h
    omega
  · intro h
    exact Int.bmod_eq_of_le_mul_two (by omega) (by omega)

/-! ## Refusal -/

/-- **Refusal** as malformed, in the words given. -/
def Refuses {α : Type} (field : Field α) (bs : Bytes) (words : String) : Prop :=
  ∃ e, field bs = .error e ∧ e.status = .badFormat ∧ ∀ showId, e.message showId = words

namespace Numeral

/-- A numeral of more bytes than are accepted is refused as one that does not fit. -/
theorem refuses_unsigned (n : Numeral) (rest : Bytes) (h : ¬ n.bytes.length ≤ maxGroups) :
    Refuses unsigned (n.bytes ++ rest) "bad format: uleb128 does not fit 64 bits" :=
  ⟨_, by rw [unsigned_numeral, if_neg h], rfl, fun _ => rfl⟩

theorem refuses_signed (n : Numeral) (rest : Bytes) (h : ¬ n.bytes.length ≤ maxGroups) :
    Refuses signed (n.bytes ++ rest) "bad format: sleb128 does not fit 64 bits" :=
  ⟨_, by rw [signed_numeral, if_neg h], rfl, fun _ => rfl⟩

end Numeral

/-! ## Main statement -/

/-- **Numerals are read as the numbers they stand for, up to the tenth byte.** For every byte string:
    * what is read as an unsigned number is a numeral of at most ten bytes; the word given is its number modulo 2^64, and
      is its number exactly when the numeral has fewer than ten bytes or the tenth is 0 or 1;
    * what is read as a signed number is a numeral of at most ten bytes; the word given is its number modulo 2^64 in two's
      complement, and is its number exactly when the numeral has fewer than ten bytes or the tenth is all sign;
    * every numeral of at most ten bytes is read; one whose number is not a word is refused as one that does not fit, unless
      it has ten bytes. -/
theorem numerals_true_up_to_tenth_byte (bs : Bytes) :
    (∀ v rest, unsigned bs = .ok (v, rest) →
      ∃ n : Numeral, bs = n.bytes ++ rest ∧ n.bytes.length ≤ 10 ∧ v.toNat = n.magnitude % 2 ^ 64 ∧
        (v.toNat = n.magnitude ↔ n.bytes.length < 10 ∨ n.last ≤ 1)) ∧
    (∀ v rest, signed bs = .ok (v, rest) →
      ∃ n : Numeral, bs = n.bytes ++ rest ∧ n.bytes.length ≤ 10 ∧ v.toInt = n.amount.bmod (2 ^ 64) ∧
        (v.toInt = n.amount ↔ n.bytes.length < 10 ∨ n.last = 0 ∨ n.last = 0x7f)) ∧
    ∀ (n : Numeral) (rest : Bytes), bs = n.bytes ++ rest →
      (n.bytes.length ≤ 10 → (∃ v, unsigned bs = .ok (v, rest)) ∧ ∃ v, signed bs = .ok (v, rest)) ∧
      (n.bytes.length ≠ 10 →
        (¬ n.magnitude < 2 ^ 64 → Refuses unsigned bs "bad format: uleb128 does not fit 64 bits") ∧
        (¬ (-2 ^ 63 ≤ n.amount ∧ n.amount < 2 ^ 63) →
          Refuses signed bs "bad format: sleb128 does not fit 64 bits")) := by
  refine ⟨?_, ?_, ?_⟩
  · intro v rest hread
    obtain ⟨n, hbs, hshort, rfl⟩ := unsigned_eq_ok hread
    refine ⟨n, hbs, hshort, UInt64.toNat_ofNat', ?_⟩
    rw [toNat_ofNat_eq_iff]
    exact n.magnitude_lt_iff hshort
  · intro v rest hread
    obtain ⟨n, hbs, hshort, rfl⟩ := signed_eq_ok hread
    refine ⟨n, hbs, hshort, Int64.toInt_ofInt, ?_⟩
    rw [toInt_ofInt_eq_iff]
    exact n.amount_fits_iff hshort
  · rintro n rest rfl
    constructor
    · intro hshort
      exact ⟨⟨_, (unsigned_numeral n rest).trans (if_pos hshort)⟩, ⟨_, (signed_numeral n rest).trans (if_pos hshort)⟩⟩
    · intro hten
      -- the number of fewer than ten bytes is always a word, and more than ten are refused whatever their number is
      have hlong : n.bytes.length < 10 ∨ ¬ n.bytes.length ≤ maxGroups := by
        have hmax : maxGroups = 10 := rfl
        omega
      rcases hlong with hshort | hlong
      · have hfits := Nat.le_of_lt hshort
        exact ⟨fun hlarge => absurd ((n.magnitude_lt_iff hfits).mpr (.inl hshort)) hlarge,
          fun hlarge => absurd ((n.amount_fits_iff hfits).mpr (.inl hshort)) hlarge⟩
      · exact ⟨fun _ => n.refuses_unsigned rest hlong, fun _ => n.refuses_signed rest hlong⟩

theorem continues_replicate {b : UInt8} (k : Nat) (hb : 0x80 ≤ b) : ∀ c ∈ List.replicate k b, 0x80 ≤ c := by
  intro c hc
  rw [List.eq_of_mem_replicate hc]
  exact hb

/-- The greatest unsigned number takes ten bytes and is read exactly; of eleven bytes a number is refused. -/
theorem numerals_true_up_to_tenth_byte_greatest :
    let front : Bytes := List.replicate 9 0xff
    let long : Numeral := ⟨List.replicate 10 0xff, 0x01, continues_replicate 10 (by decide), by decide⟩
    (unsigned (front ++ [0x01, 7]) = .ok (0xffffffffffffffff, [7]) ∧
      ∃ n : Numeral, front ++ [0x01, 7] = n.bytes ++ [7] ∧ n.magnitude = 2 ^ 64 - 1) ∧
    (long.bytes.length ≠ 10 ∧ ¬ long.magnitude < 2 ^ 64 ∧
      Refuses unsigned long.bytes "bad format: uleb128 does not fit 64 bits") := by
  intro front long
  have hread : unsigned (front ++ [0x01, 7]) = .ok (0xffffffffffffffff, [7]) := by decide
  obtain ⟨n, hbytes, -, -, hexact⟩ := (numerals_true_up_to_tenth_byte (front ++ [0x01, 7])).1 _ _ hread
  have hbytes' : front ++ [0x01] ++ [7] = n.front ++ [n.last] ++ [7] := hbytes
  have hsame := List.append_cancel_right hbytes'
  have hlast : n.last = 0x01 := (List.singleton_inj.mp (List.append_inj' hsame rfl).2).symm
  have hmagnitude := hexact.mpr (.inr (by rw [hlast]; decide))
  have hlarge : ¬ long.magnitude < 2 ^ 64 := by
    rw [long.magnitude_eq]
    decide
  refine ⟨⟨hread, n, hbytes, hmagnitude.symm⟩, by decide, hlarge, ?_⟩
  have hrefused := ((numerals_true_up_to_tenth_byte long.bytes).2.2 long [] (List.append_nil _).symm).2 (by decide)
  exact hrefused.1 hlarge

/-- **Bits are lost in the tenth byte.** A numeral for 2^64 is read as 0 and one for 2^63 as its negative, so that not
    every number that is read is the one its numeral stands for. -/
theorem tenth_byte_loses_bits :
    let front : Bytes := List.replicate 9 0x80
    let large : Numeral := ⟨front, 0x02, continues_replicate 9 (by decide), by decide⟩
    let half : Numeral := ⟨front, 0x01, continues_replicate 9 (by decide), by decide⟩
    (unsigned large.bytes = .ok (0, []) ∧ large.magnitude = 2 ^ 64) ∧
      (signed half.bytes = .ok (Int64.minValue, []) ∧ half.amount = 2 ^ 63) ∧
      ¬ ∀ (n : Numeral) (rest : Bytes) (v : UInt64),
          unsigned (n.bytes ++ rest) = .ok (v, rest) → v.toNat = n.magnitude := by
  intro front large half
  have hlarge : large.magnitude = 2 ^ 64 := by
    rw [large.magnitude_eq]
    decide
  have hhalf : half.amount = 2 ^ 63 := by
    rw [half.amount_eq]
    decide
  have hread : unsigned large.bytes = .ok (0, []) := by decide
  refine ⟨⟨hread, hlarge⟩, ⟨by decide, hhalf⟩, ?_⟩
  intro hexact
  have hzero := hexact large [] 0 (by rw [List.append_nil, hread])
  rw [hlarge] at hzero
  exact absurd hzero (by decide)

end Unwinder.Leb128
