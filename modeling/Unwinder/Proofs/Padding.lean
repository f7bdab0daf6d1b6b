import Unwinder.Proofs.Magnitudes

/-!
# `Proofs.Padding` — all the numerals of a number

A number has numerals of many lengths: its shortest one, and longer ones that are padded with groups of nothing but zeros,
or of nothing but copies of the sign. This module says which numerals a number has, one of each length from the shortest on,
and shows that a reader makes the same of all of them up to ten bytes.

## Contents
- **One group more.** `Numeral.cons` in front of a numeral and `Numeral.follow` behind it, with what they add.
- **Shortest numerals.** `shortest` and `shortestSigned`; `length_shortest_le_iff` and `length_shortestSigned_le_iff` count
  their bytes by the size of the number.
- **Padding.** `padded` and `paddedSigned`, the numerals of a length; `eq_padded` and `eq_paddedSigned`, that a number has
  no others.
- **Main statement.** `padding_is_read_away`.
-/

namespace Unwinder.Leb128

namespace Numeral

/-! ## One group more -/

/-- The numeral of a single group. -/
def single (low : Nat) : Numeral where
  front := []
  last := UInt8.ofNat (low % 128)
  continues := List.forall_mem_nil _
  ends := by
    rw [UInt8.lt_iff_toNat_lt, UInt8.toNat_ofNat']
    show low % 128 % 256 < 128
    omega

/-- A numeral with a group below all others, which goes in front. -/
def cons (low : Nat) (n : Numeral) : Numeral where
  front := UInt8.ofNat (low % 128 + 128) :: n.front
  last := n.last
  continues := by
    refine List.forall_mem_cons.mpr ⟨?_, n.continues⟩
    rw [UInt8.le_iff_toNat_le, UInt8.toNat_ofNat']
    show 128 ≤ (low % 128 + 128) % 256
    omega
  ends := n.ends

/-- A numeral with a group above all others, which goes behind. The byte that was the last one announces it. -/
def follow (n : Numeral) (top : UInt8) (htop : top < 0x80) : Numeral where
  front := n.front ++ [n.last + 0x80]
  last := top
  continues := by
    refine List.forall_mem_append.mpr ⟨n.continues, List.forall_mem_singleton.mpr ?_⟩
    have hlast := n.last_lt
    rw [UInt8.le_iff_toNat_le, UInt8.toNat_add]
    show 128 ≤ (n.last.toNat + 128) % 256
    omega
  ends := htop

@[simp] theorem length_single (low : Nat) : (single low).bytes.length = 1 := rfl

@[simp] theorem length_cons (low : Nat) (n : Numeral) : (cons low n).bytes.length = n.bytes.length + 1 := rfl

theorem length_follow (n : Numeral) (top : UInt8) (htop : top < 0x80) :
    (n.follow top htop).bytes.length = n.bytes.length + 1 := by
  simp [follow]

/-- A numeral has a byte at least. -/
theorem length_pos (n : Numeral) : 0 < n.bytes.length := by simp

@[simp] theorem magnitude_single (low : Nat) : (single low).magnitude = low % 128 := by
  have hgroup : group (UInt8.ofNat (low % 128)) = low % 128 := by
    rw [group, UInt8.toNat_ofNat']
    omega
  rw [magnitude_eq]
  show group (UInt8.ofNat (low % 128)) + 128 * 0 = low % 128
  rw [hgroup]
  rfl

/-- What a group in front adds. -/
@[simp] theorem magnitude_cons (low : Nat) (n : Numeral) : (cons low n).magnitude = low % 128 + 128 * n.magnitude := by
  have hgroup : group (UInt8.ofNat (low % 128 + 128)) = low % 128 := by
    rw [group, UInt8.toNat_ofNat']
    omega
  rw [magnitude_eq, magnitude_eq]
  show group (UInt8.ofNat (low % 128 + 128)) + 128 * groupValue (n.bytes.map group) = _
  rw [hgroup]

/-- What a group behind adds. -/
theorem magnitude_follow (n : Numeral) (top : UInt8) (htop : top < 0x80) :
    (n.follow top htop).magnitude = n.magnitude + 2 ^ (7 * n.bytes.length) * top.toNat := by
  have hlast : group (n.last + 0x80) = group n.last := by
    have hlt := n.last_lt
    rw [group, group, UInt8.toNat_add]
    show (n.last.toNat + 128) % 256 % 128 = n.last.toNat % 128
    omega
  have hgroups : (n.follow top htop).bytes.map group = n.bytes.map group ++ [top.toNat] := by
    simp [bytes, follow, hlast, group_of_lt htop]
  rw [magnitude_eq, magnitude_eq, hgroups, groupValue_append, List.length_map, groupLimit_eq]

/-- **Whether a numeral is negative** as a signed one: bit 6 of its last byte. -/
def Negative (n : Numeral) : Prop := 64 ≤ n.last.toNat

instance (n : Numeral) : Decidable n.Negative := inferInstanceAs (Decidable (64 ≤ n.last.toNat))

theorem amount_of_negative {n : Numeral} (h : n.Negative) : n.amount = n.magnitude - groupLimit n.bytes.length := by
  rw [amount, if_pos (n.testBit_last.mpr h), groupLimit_eq]
  norm_cast

theorem amount_of_not_negative {n : Numeral} (h : ¬ n.Negative) : n.amount = n.magnitude :=
  if_neg fun hbit => h (n.testBit_last.mp hbit)

/-- A numeral of a single group stands for the number with that group that is nearest to zero. -/
theorem amount_single {v : Int} (h : -64 ≤ v ∧ v < 64) : (single (v % 128).toNat).amount = v := by
  have hlast : (single (v % 128).toNat).last.toNat = (v % 128).toNat := by
    show (UInt8.ofNat ((v % 128).toNat % 128)).toNat = _
    rw [UInt8.toNat_ofNat']
    omega
  have hlimit : groupLimit 1 = 128 := rfl
  by_cases hnegative : (single (v % 128).toNat).Negative
  · rw [amount_of_negative hnegative, magnitude_single, length_single, hlimit]
    rw [Negative, hlast] at hnegative
    omega
  · rw [amount_of_not_negative hnegative, magnitude_single]
    rw [Negative, hlast] at hnegative
    omega

@[simp] theorem amount_cons (low : Nat) (n : Numeral) : (cons low n).amount = (low % 128 : Nat) + 128 * n.amount := by
  have hlimit : groupLimit (n.bytes.length + 1) = 128 * groupLimit n.bytes.length := rfl
  by_cases hnegative : n.Negative
  · have hcons : (cons low n).Negative := hnegative
    rw [amount_of_negative hcons, amount_of_negative hnegative, magnitude_cons, length_cons, hlimit]
    omega
  · have hcons : ¬ (cons low n).Negative := hnegative
    rw [amount_of_not_negative hcons, amount_of_not_negative hnegative, magnitude_cons]
    omega

/-- **The signed numbers of a length**: half of them are negative. -/
theorem holdsSigned_amount (n : Numeral) : HoldsSigned (groupLimit n.bytes.length) n.amount := by
  obtain ⟨low, hlow, hsplit⟩ := n.magnitude_split
  have hlimit : groupLimit n.bytes.length = 128 * 2 ^ (7 * n.front.length) := by
    rw [length_bytes, groupLimit, groupLimit_eq]
  have hlt := n.magnitude_lt
  rw [← groupLimit_eq] at hlt
  by_cases hnegative : n.Negative
  · have hhalf : 2 ^ (7 * n.front.length) * 64 ≤ 2 ^ (7 * n.front.length) * n.last.toNat := Nat.mul_le_mul_left _ hnegative
    rw [amount_of_negative hnegative]
    constructor <;> omega
  · have hhalf : 2 ^ (7 * n.front.length) * (n.last.toNat + 1) ≤ 2 ^ (7 * n.front.length) * 64 :=
      Nat.mul_le_mul_left _ (Nat.lt_of_not_le hnegative)
    rw [Nat.mul_succ] at hhalf
    rw [amount_of_not_negative hnegative]
    constructor <;> omega

/-! ## One numeral of each length -/

/-- Bytes that announce another one are told apart by their groups. -/
theorem eq_of_group_eq {b c : UInt8} (hb : 0x80 ≤ b) (hc : 0x80 ≤ c) (h : group b = group c) : b = c := by
  have hb : 128 ≤ b.toNat := hb
  have hc : 128 ≤ c.toNat := hc
  have hbyte := b.toNat_lt
  have hbyte' := c.toNat_lt
  unfold group at h
  exact UInt8.toNat_inj.mp (by omega)

/-- **Numerals of one length are told apart by their numbers.** -/
theorem eq_of_magnitude_eq {n m : Numeral} (hlength : n.bytes.length = m.bytes.length) (h : n.magnitude = m.magnitude) :
    n = m := by
  obtain ⟨front, last, hfront, hlast⟩ := n
  obtain ⟨front', last', hfront', hlast'⟩ := m
  rw [magnitude_eq, magnitude_eq] at h
  change (front ++ [last]).length = (front' ++ [last']).length at hlength
  change groupValue ((front ++ [last]).map group) = groupValue ((front' ++ [last']).map group) at h
  -- group by group; the groups above the first one make a multiple of 128
  induction front generalizing front' with
  | nil =>
      obtain rfl : front' = [] := List.eq_nil_of_length_eq_zero (by simpa using hlength.symm)
      simp only [List.nil_append, List.map_singleton, groupValue, group_of_lt hlast, group_of_lt hlast'] at h
      obtain rfl : last = last' := UInt8.toNat_inj.mp (by omega)
      rfl
  | cons b front ih =>
      cases front' with
      | nil => simp at hlength
      | cons b' front' =>
          obtain ⟨hb, hrest⟩ := List.forall_mem_cons.mp hfront
          obtain ⟨hb', hrest'⟩ := List.forall_mem_cons.mp hfront'
          have hlow : group b < 128 := Nat.mod_lt _ (by decide)
          have hlow' : group b' < 128 := Nat.mod_lt _ (by decide)
          change group b + 128 * groupValue ((front ++ [last]).map group) =
            group b' + 128 * groupValue ((front' ++ [last']).map group) at h
          obtain rfl := eq_of_group_eq hb hb' (by omega)
          cases ih hrest front' hrest' (Nat.succ.inj hlength) (by omega)
          rfl

/-- Numerals of one length are told apart by their signed numbers too. -/
theorem eq_of_amount_eq {n m : Numeral} (hlength : n.bytes.length = m.bytes.length) (h : n.amount = m.amount) : n = m := by
  refine eq_of_magnitude_eq hlength ?_
  have hn := n.magnitude_lt
  have hm := m.magnitude_lt
  rw [← groupLimit_eq] at hn hm
  rw [← hlength] at hm
  -- the two numbers differ by a multiple of the limit, and are both below it
  by_cases hnegative : n.Negative <;> by_cases hnegative' : m.Negative
  · rw [amount_of_negative hnegative, amount_of_negative hnegative', ← hlength] at h
    omega
  · rw [amount_of_negative hnegative, amount_of_not_negative hnegative'] at h
    omega
  · rw [amount_of_not_negative hnegative, amount_of_negative hnegative', ← hlength] at h
    omega
  · rw [amount_of_not_negative hnegative, amount_of_not_negative hnegative'] at h
    omega

end Numeral

/-! ## Shortest numerals -/

/-- **The shortest numeral** of an unsigned number: its groups up to the last one that is not zero. -/
def shortest (n : Nat) : Numeral :=
  if n < 128 then .single n else .cons n (shortest (n / 128))

/-- **The shortest numeral** of a signed number: its groups up to the first one that leaves room for the sign. -/
def shortestSigned (v : Int) : Numeral :=
  if -64 ≤ v ∧ v < 64 then .single (v % 128).toNat else .cons (v % 128).toNat (shortestSigned (v / 128))
termination_by v.natAbs
decreasing_by omega

theorem magnitude_shortest (n : Nat) : (shortest n).magnitude = n := by
  induction n using shortest.induct with
  | case1 n hsmall => rw [shortest, if_pos hsmall, Numeral.magnitude_single, Nat.mod_eq_of_lt hsmall]
  | case2 n hlarge ih =>
      rw [shortest, if_neg hlarge, Numeral.magnitude_cons, ih]
      exact Nat.mod_add_div n 128

theorem amount_shortestSigned (v : Int) : (shortestSigned v).amount = v := by
  induction v using shortestSigned.induct with
  | case1 v hsmall => rw [shortestSigned, if_pos hsmall, Numeral.amount_single hsmall]
  | case2 v hlarge ih =>
      rw [shortestSigned, if_neg hlarge, Numeral.amount_cons, ih]
      omega

/-- **How many bytes an unsigned number takes.** -/
theorem length_shortest_le_iff (n k : Nat) : (shortest n).bytes.length ≤ k + 1 ↔ n < groupLimit (k + 1) := by
  have hlimit (count : Nat) : groupLimit (count + 1) = 128 * groupLimit count := rfl
  induction n using shortest.induct generalizing k with
  | case1 n hsmall =>
      have hpos := groupLimit_pos k
      rw [shortest, if_pos hsmall, Numeral.length_single, hlimit]
      omega
  | case2 n hlarge ih =>
      rw [shortest, if_neg hlarge, Numeral.length_cons]
      cases k with
      | zero =>
          have hpos := (shortest (n / 128)).length_pos
          rw [hlimit, groupLimit]
          omega
      | succ k =>
          have hrest := ih k
          rw [hlimit]
          omega

/-- **How many bytes a signed number takes.** -/
theorem length_shortestSigned_le_iff (v : Int) (k : Nat) :
    (shortestSigned v).bytes.length ≤ k + 1 ↔ HoldsSigned (groupLimit (k + 1)) v := by
  have hlimit (count : Nat) : groupLimit (count + 1) = 128 * groupLimit count := rfl
  unfold HoldsSigned
  induction v using shortestSigned.induct generalizing k with
  | case1 v hsmall =>
      have hpos := groupLimit_pos k
      rw [shortestSigned, if_pos hsmall, Numeral.length_single, hlimit]
      omega
  | case2 v hlarge ih =>
      rw [shortestSigned, if_neg hlarge, Numeral.length_cons]
      cases k with
      | zero =>
          have hpos := (shortestSigned (v / 128)).length_pos
          rw [hlimit, groupLimit]
          omega
      | succ k =>
          -- half of the limit is a number of its own, the limit being a multiple of 128
          have hrest := ih k
          have heven := hlimit k
          rw [hlimit]
          omega

/-- **No numeral of a number is shorter.** -/
theorem length_shortest_le {n : Nat} {m : Numeral} (h : m.magnitude = n) : (shortest n).bytes.length ≤ m.bytes.length := by
  obtain ⟨k, hk⟩ := Nat.exists_eq_add_one.mpr m.length_pos
  have hlt := m.magnitude_lt
  rw [← groupLimit_eq, h] at hlt
  rw [hk] at hlt ⊢
  exact (length_shortest_le_iff n k).mpr hlt

theorem length_shortestSigned_le {v : Int} {m : Numeral} (h : m.amount = v) :
    (shortestSigned v).bytes.length ≤ m.bytes.length := by
  obtain ⟨k, hk⟩ := Nat.exists_eq_add_one.mpr m.length_pos
  have hholds := m.holdsSigned_amount
  rw [h] at hholds
  rw [hk] at hholds ⊢
  exact (length_shortestSigned_le_iff v k).mpr hholds

/-- A word is written in ten bytes at most. -/
theorem length_shortest_word_le (v : UInt64) : (shortest v.toNat).bytes.length ≤ 10 :=
  (length_shortest_le_iff v.toNat 9).mpr (Nat.lt_of_lt_of_le v.toNat_lt (by decide))

theorem length_shortestSigned_word_le (v : Int64) : (shortestSigned v.toInt).bytes.length ≤ 10 := by
  have hlow := v.le_toInt
  have hhigh := v.toInt_lt
  have hlimit : groupLimit 10 = 2 ^ 70 := rfl
  refine (length_shortestSigned_le_iff v.toInt 9).mpr ?_
  unfold HoldsSigned
  rw [hlimit]
  omega

/-! ## Padding -/

namespace Numeral

/-- One byte more of zero bits. -/
def padZeros (n : Numeral) : Numeral := n.follow 0 (by decide)

/-- One byte more of sign bits. -/
def padSigns (n : Numeral) : Numeral := if n.Negative then n.follow 0x7f (by decide) else n.padZeros

@[simp] theorem length_padZeros (n : Numeral) : n.padZeros.bytes.length = n.bytes.length + 1 := n.length_follow 0 _

@[simp] theorem length_padSigns (n : Numeral) : n.padSigns.bytes.length = n.bytes.length + 1 := by
  unfold padSigns
  split
  · exact n.length_follow 0x7f _
  · exact n.length_padZeros

@[simp] theorem magnitude_padZeros (n : Numeral) : n.padZeros.magnitude = n.magnitude := by
  rw [padZeros, magnitude_follow]
  rfl

/-- **Padding with signs leaves the number**: the new bytes repeat the sign that was shown before. -/
@[simp] theorem amount_padSigns (n : Numeral) : n.padSigns.amount = n.amount := by
  by_cases hnegative : n.Negative
  · have hfollow : (n.follow 0x7f (by decide)).Negative := by
      show 64 ≤ 127
      decide
    have htop : (0x7f : UInt8).toNat = 127 := rfl
    rw [padSigns, if_pos hnegative, amount_of_negative hfollow, amount_of_negative hnegative, magnitude_follow,
      length_follow, groupLimit, ← groupLimit_eq, htop]
    omega
  · have hfollow : ¬ n.padZeros.Negative := by
      show ¬ 64 ≤ 0
      decide
    rw [padSigns, if_neg hnegative, amount_of_not_negative hfollow, amount_of_not_negative hnegative, magnitude_padZeros]

end Numeral

/-- **The numeral of `k` bytes** of an unsigned number: its shortest one, padded with zeros. -/
def padded (n k : Nat) : Numeral := Numeral.padZeros^[k - (shortest n).bytes.length] (shortest n)

/-- **The numeral of `k` bytes** of a signed number: its shortest one, padded with copies of the sign. -/
def paddedSigned (v : Int) (k : Nat) : Numeral :=
  Numeral.padSigns^[k - (shortestSigned v).bytes.length] (shortestSigned v)

/-- Padding that adds a byte and leaves the number, made any number of times. -/
theorem iterate_pad {α : Type} {pad : Numeral → Numeral} {value : Numeral → α}
    (hlength : ∀ n, (pad n).bytes.length = n.bytes.length + 1) (hvalue : ∀ n, value (pad n) = value n) (extra : Nat)
    (n : Numeral) : (pad^[extra] n).bytes.length = n.bytes.length + extra ∧ value (pad^[extra] n) = value n := by
  induction extra with
  | zero => exact ⟨rfl, rfl⟩
  | succ extra ih =>
      obtain ⟨hlong, hsame⟩ := ih
      rw [Function.iterate_succ_apply']
      exact ⟨by rw [hlength, hlong, Nat.add_assoc], by rw [hvalue, hsame]⟩

section Padded

variable {k : Nat}

theorem magnitude_padded (n k : Nat) : (padded n k).magnitude = n :=
  (iterate_pad Numeral.length_padZeros Numeral.magnitude_padZeros _ _).2.trans (magnitude_shortest n)

theorem length_padded {n : Nat} (h : (shortest n).bytes.length ≤ k) : (padded n k).bytes.length = k :=
  (iterate_pad Numeral.length_padZeros Numeral.magnitude_padZeros _ _).1.trans (Nat.add_sub_cancel' h)

theorem amount_paddedSigned (v : Int) (k : Nat) : (paddedSigned v k).amount = v :=
  (iterate_pad Numeral.length_padSigns Numeral.amount_padSigns _ _).2.trans (amount_shortestSigned v)

theorem length_paddedSigned {v : Int} (h : (shortestSigned v).bytes.length ≤ k) : (paddedSigned v k).bytes.length = k :=
  (iterate_pad Numeral.length_padSigns Numeral.amount_padSigns _ _).1.trans (Nat.add_sub_cancel' h)

/-- **A number has no other numerals** than its padded ones. -/
theorem eq_padded (m : Numeral) : m = padded m.magnitude m.bytes.length :=
  Numeral.eq_of_magnitude_eq (length_padded (length_shortest_le rfl)).symm (magnitude_padded _ _).symm

theorem eq_paddedSigned (m : Numeral) : m = paddedSigned m.amount m.bytes.length :=
  Numeral.eq_of_amount_eq (length_paddedSigned (length_shortestSigned_le rfl)).symm (amount_paddedSigned _ _).symm

end Padded

/-! ## Main statement -/

/-- **Bytes in which no numeral ends** soon enough: ten of them announce another one, or all of them do. -/
def Endless (bs : Bytes) : Prop := (10 ≤ bs.length ∧ ∀ b ∈ bs.take 10, 0x80 ≤ b) ∨ ∀ b ∈ bs, 0x80 ≤ b

/-- Behind a numeral of at most ten bytes anything can follow. -/
theorem not_endless (n : Numeral) (h : n.bytes.length ≤ 10) (rest : Bytes) : ¬ Endless (n.bytes ++ rest) := by
  have hlast : ¬ 0x80 ≤ n.last := UInt8.not_le.mpr n.ends
  have hmem : n.last ∈ n.bytes := List.mem_append_right _ (List.mem_singleton_self _)
  rintro (⟨-, hten⟩ | hall)
  · refine hlast (hten n.last ?_)
    rw [List.take_append]
    exact List.mem_append_left _ (by rwa [List.take_of_length_le h])
  · exact hlast (hall n.last (List.mem_append_left _ hmem))

/-- A numeral of more than ten bytes is endless as far as a reader looks. -/
theorem endless_of_long (n : Numeral) (h : ¬ n.bytes.length ≤ 10) (rest : Bytes) : Endless (n.bytes ++ rest) := by
  have hfront : 10 ≤ n.front.length := by
    rw [n.length_bytes] at h
    omega
  refine .inl ⟨?_, fun b hb => n.continues b ?_⟩
  · rw [List.length_append, n.length_bytes]
    omega
  · rw [Numeral.bytes, List.append_assoc, List.take_append_of_le_length hfront] at hb
    exact List.mem_of_mem_take hb

/-- **Both readers fail where no numeral ends**, as malformed, and nowhere else. -/
theorem fails_iff_endless (bs : Bytes) :
    ((∃ e, unsigned bs = .error e ∧ e.status = .badFormat) ↔ Endless bs) ∧
      ((∃ e, signed bs = .error e ∧ e.status = .badFormat) ↔ Endless bs) := by
  rcases exists_numeral bs with ⟨n, rest, rfl⟩ | hunended
  · by_cases hshort : n.bytes.length ≤ 10
    · have hnot := not_endless n hshort rest
      have hmax : n.bytes.length ≤ maxGroups := hshort
      rw [unsigned_numeral, if_pos hmax, signed_numeral, if_pos hmax]
      simp [hnot]
    · have hendless := endless_of_long n hshort rest
      obtain ⟨e, hunsigned, hstatus, -⟩ := n.refuses_unsigned rest hshort
      obtain ⟨e', hsigned, hstatus', -⟩ := n.refuses_signed rest hshort
      exact ⟨⟨fun _ => hendless, fun _ => ⟨e, hunsigned, hstatus⟩⟩, ⟨fun _ => hendless, fun _ => ⟨e', hsigned, hstatus'⟩⟩⟩
  · have hendless : Endless bs := .inr hunended
    have hfails (defect : Defect) : ∃ d, groups defect maxGroups bs = .error (.malformed d) := by
      have hgroups := groups_unended defect maxGroups hunended
      split at hgroups <;> exact ⟨_, hgroups⟩
    obtain ⟨d, hunsigned⟩ := hfails .unsignedOverflow
    obtain ⟨d', hsigned⟩ := hfails .signedOverflow
    exact ⟨⟨fun _ => hendless, fun _ => ⟨_, Field.bind_of_error hunsigned, rfl⟩⟩,
      ⟨fun _ => hendless, fun _ => ⟨_, Field.bind_of_error hsigned, rfl⟩⟩⟩

/-- **Padding is read away.** For every word, and for every length from that of its shortest numeral up to ten bytes:
    * No numeral of the word is shorter than the shortest one, which has ten bytes at most. The shortest one, padded with
      zeros for an unsigned word and with copies of the sign for a signed one, has the length and stands for the word, and
      no other numeral of this length does.
    * In front of whatever bytes it is read as the word, and those bytes are left.
    Bytes among which no numeral ends, or not within ten bytes, are refused as malformed by both readers, and no others
    are. -/
theorem padding_is_read_away :
    (∀ v : UInt64,
      (∀ m : Numeral, m.magnitude = v.toNat → (shortest v.toNat).bytes.length ≤ m.bytes.length) ∧
      (shortest v.toNat).bytes.length ≤ 10 ∧
      ∀ k, (shortest v.toNat).bytes.length ≤ k → k ≤ 10 →
        (∀ m : Numeral, m.magnitude = v.toNat ∧ m.bytes.length = k ↔ m = padded v.toNat k) ∧
        ∀ rest, unsigned ((padded v.toNat k).bytes ++ rest) = .ok (v, rest)) ∧
    (∀ v : Int64,
      (∀ m : Numeral, m.amount = v.toInt → (shortestSigned v.toInt).bytes.length ≤ m.bytes.length) ∧
      (shortestSigned v.toInt).bytes.length ≤ 10 ∧
      ∀ k, (shortestSigned v.toInt).bytes.length ≤ k → k ≤ 10 →
        (∀ m : Numeral, m.amount = v.toInt ∧ m.bytes.length = k ↔ m = paddedSigned v.toInt k) ∧
        ∀ rest, signed ((paddedSigned v.toInt k).bytes ++ rest) = .ok (v, rest)) ∧
    ∀ bs, ((∃ e, unsigned bs = .error e ∧ e.status = .badFormat) ↔ Endless bs) ∧
      ((∃ e, signed bs = .error e ∧ e.status = .badFormat) ↔ Endless bs) := by
  refine ⟨?_, ?_, fails_iff_endless⟩
  · intro v
    refine ⟨fun _ => length_shortest_le, length_shortest_word_le v, ?_⟩
    intro k hshortest hten
    have hlength := length_padded hshortest
    have hmagnitude := magnitude_padded v.toNat k
    refine ⟨?_, ?_⟩
    · intro m
      constructor
      · rintro ⟨hvalue, rfl⟩
        rw [← hvalue]
        exact eq_padded m
      · rintro rfl
        exact ⟨hmagnitude, hlength⟩
    · intro rest
      have hmax : (padded v.toNat k).bytes.length ≤ maxGroups := hlength.trans_le hten
      rw [unsigned_numeral, if_pos hmax, hmagnitude, UInt64.ofNat_toNat]
  · intro v
    refine ⟨fun _ => length_shortestSigned_le, length_shortestSigned_word_le v, ?_⟩
    intro k hshortest hten
    have hlength := length_paddedSigned hshortest
    have hamount := amount_paddedSigned v.toInt k
    refine ⟨?_, ?_⟩
    · intro m
      constructor
      · rintro ⟨hvalue, rfl⟩
        rw [← hvalue]
        exact eq_paddedSigned m
      · rintro rfl
        exact ⟨hamount, hlength⟩
    · intro rest
      have hmax : (paddedSigned v.toInt k).bytes.length ≤ maxGroups := hlength.trans_le hten
      rw [signed_numeral, if_pos hmax, hamount, Int64.ofInt_toInt]

/-- A small number with two bytes of padding, a negative one with one byte of padding, and the least word, which takes ten
    bytes. Ten bytes that go on are refused, also in front of one that ends. -/
theorem padding_is_read_away_ends :
    (shortest 2).bytes.length ≤ 3 ∧ (padded 2 3).bytes = [0x82, 0x80, 0x00] ∧
      unsigned [0x82, 0x80, 0x00, 0x07] = .ok (2, [0x07]) ∧
      (shortestSigned (-2)).bytes.length ≤ 2 ∧ (paddedSigned (-2) 2).bytes = [0xfe, 0x7f] ∧
      signed [0xfe, 0x7f, 0x07] = .ok (-2, [0x07]) ∧
      (shortestSigned Int64.minValue.toInt).bytes.length = 10 ∧
      signed (List.replicate 9 0x80 ++ [0x7f]) = .ok (Int64.minValue, []) ∧
      ∃ e, unsigned (List.replicate 10 0x80 ++ [0x00]) = .error e ∧ e.status = .badFormat := by
  obtain ⟨hunsigned, hsigned, hfails⟩ := padding_is_read_away
  have hspare : (shortest 2).bytes.length ≤ 3 := by decide +kernel
  have hspareSigned : (shortestSigned (-2)).bytes.length ≤ 2 := by decide +kernel
  have hleast : (shortestSigned Int64.minValue.toInt).bytes.length = 10 := by decide +kernel
  have hbytes : (padded 2 3).bytes = [0x82, 0x80, 0x00] := by decide +kernel
  have hbytesSigned : (paddedSigned (-2) 2).bytes = [0xfe, 0x7f] := by decide +kernel
  have hbytesLeast : (paddedSigned Int64.minValue.toInt 10).bytes = List.replicate 9 0x80 ++ [0x7f] := by decide +kernel
  have hread : unsigned ((padded 2 3).bytes ++ [0x07]) = .ok (2, [0x07]) :=
    ((hunsigned 2).2.2 3 hspare (by decide)).2 [0x07]
  have hreadSigned : signed ((paddedSigned (-2) 2).bytes ++ [0x07]) = .ok (-2, [0x07]) :=
    ((hsigned (-2)).2.2 2 hspareSigned (by decide)).2 [0x07]
  have hreadLeast : signed ((paddedSigned Int64.minValue.toInt 10).bytes ++ []) = .ok (Int64.minValue, []) :=
    ((hsigned Int64.minValue).2.2 10 hleast.le (Nat.le_refl _)).2 []
  rw [hbytes] at hread
  rw [hbytesSigned] at hreadSigned
  rw [hbytesLeast, List.append_nil] at hreadLeast
  exact ⟨hspare, hbytes, hread, hspareSigned, hbytesSigned, hreadSigned, hleast, hreadLeast,
    (hfails _).1.mpr (.inl (by decide +kernel))⟩

end Unwinder.Leb128
