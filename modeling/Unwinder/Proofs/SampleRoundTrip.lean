import Mathlib.Control.Monad.Basic
import Unwinder.Proofs.Reading
import Unwinder.Proofs.Samples

/-!
# `Proofs.SampleRoundTrip` — a record says what its sample is, and nothing else

A probe writes the fields of a sample one behind the other, with four bytes of padding among them, into a buffer that may
go on. Read from there the sample is the one that was written. No byte of the padding or behind the record has a part in
it, and a record that is not cut short is never found to be cut short at one of its fields.

## Contents
- **Writing.** `Sample.write`, with `reads_record`: in front of anything it is read as the sample.
- **What is looked at.** `decode_congr`, records that differ in their padding only.
- **Main statement.** `decode_undoes_writing`.
-/

namespace Unwinder

open LittleEndian (ofNat)

namespace Field

/-! ## Writing -/

theorem reads_u16_toNat (n : UInt16) : Reads u16 (ofNat 2 n.toNat) n := by
  have hlt : n.toNat < LittleEndian.limit 2 := n.toNat_lt
  have h := (reads_number hlt).map UInt16.ofNat
  rwa [UInt16.ofNat_toNat] at h

theorem reads_u32_toNat (n : UInt32) : Reads u32 (ofNat 4 n.toNat) n := by
  have h := reads_u32 n.toNat_lt
  rwa [UInt32.ofNat_toNat] at h

/-- **Fields of one kind** are spelled one behind the other. -/
theorem reads_fields {α : Type} {field : Field α} {spell : α → Bytes} (h : ∀ a, Reads field (spell a) a) {n : Nat}
    (values : Vector α n) : Reads (Sample.fields field n) (values.toList.flatMap spell) values := by
  induction n with
  | zero =>
      obtain rfl : values = #v[] := Vector.eq_empty
      exact Reads.pure _
  | succ n ih =>
      have hall : Reads (Sample.fields field (n + 1)) (values.pop.toList.flatMap spell ++ spell values.back)
          (values.pop.push values.back) := (ih values.pop).bind ((h values.back).map values.pop.push)
      have hsplit : values.pop.toList.flatMap spell ++ spell values.back =
          (values.pop.push values.back).toList.flatMap spell := by
        rw [Vector.toList_push, List.flatMap_append, List.flatMap_singleton]
      rwa [hsplit, Vector.push_pop_back] at hall

end Field

namespace Sample

/-- **The record of a sample**, with given bytes as padding. -/
def write (s : Sample) (padding : Vector UInt8 4) : Bytes :=
  ofNat 4 s.pid.toNat ++ ofNat 4 s.tid.toNat ++ ofNat 2 s.tag.toNat ++ ofNat 2 s.version.toNat ++ padding.toList ++
    ofNat 8 s.time.toNat ++ ofNat 8 s.sp.toNat ++ ofNat 8 s.pc.toNat ++
    s.slots.toList.flatMap (fun slot => ofNat 8 slot.toNat) ++ ofNat 8 s.cookie.toNat ++ s.command.toList

theorem length_write (s : Sample) (padding : Vector UInt8 4) : (s.write padding).length = size := by
  have hslots : (s.slots.toList.flatMap fun slot => ofNat 8 slot.toNat).length = slotCount * 8 := by
    rw [List.length_flatMap]
    simp only [LittleEndian.length_ofNat, List.map_const', List.sum_replicate_nat, Vector.length_toList]
  simp [write, hslots, size, slotCount]

/-- **In front of anything a record is read as its sample.** -/
theorem reads_record (s : Sample) (padding : Vector UInt8 4) : Field.Reads record (s.write padding) s := by
  have hpadding := Field.reads_take padding.toList
  rw [Vector.length_toList] at hpadding
  have hslots := Field.reads_fields Field.reads_u64 s.slots
  have hcommand := Field.reads_fields Field.reads_u8 s.command
  rw [List.flatMap_singleton'] at hcommand
  simp only [write, List.append_assoc]
  -- the fields in their order, the last one with the sample that all of them make
  refine (Field.reads_u32_toNat s.pid).bind ?_
  refine (Field.reads_u32_toNat s.tid).bind ?_
  refine (Field.reads_u16_toNat s.tag).bind ?_
  refine (Field.reads_u16_toNat s.version).bind ?_
  refine hpadding.bind ?_
  refine (Field.reads_u64 s.time).bind ?_
  refine (Field.reads_u64 s.sp).bind ?_
  refine (Field.reads_u64 s.pc).bind ?_
  refine hslots.bind ?_
  refine (Field.reads_u64 s.cookie).bind ?_
  exact hcommand.map fun command => { s with command }

theorem decode_write (s : Sample) (padding : Vector UInt8 4) (tail : Bytes) :
    decode (s.write padding ++ tail) = .ok s := by
  have hlong : ¬ (s.write padding ++ tail).length < size := by
    rw [List.length_append, s.length_write padding]
    omega
  rw [decode, if_neg hlong, s.reads_record padding tail]
  rfl

/-! ## What is looked at -/

variable {bs bs' : Bytes}

/-- A place where a record has a field. -/
def HasField (p : Nat) : Prop := p < 12 ∨ 16 ≤ p ∧ p < size

/-- **A sample depends on the fields of its record only.** -/
theorem ofRecord_congr (h : ∀ p, HasField p → bs'[p]? = bs[p]?) : ofRecord bs' = ofRecord bs := by
  have hfield : ∀ offset width : Nat, offset + width ≤ 12 ∨ 16 ≤ offset ∧ offset + width ≤ 320 →
      numberAt bs' offset width = numberAt bs offset width := by
    intro offset width hfits
    refine numberAt_congr fun p hlow hhigh => h p ?_
    unfold HasField size
    omega
  have hslots : ∀ i : Fin slotCount, numberAt bs' (40 + 8 * i.val) 8 = numberAt bs (40 + 8 * i.val) 8 := by
    intro i
    have hi : i.val < 32 := i.isLt
    exact hfield _ _ (.inr (by omega))
  have hcommand : ∀ i : Fin 16, numberAt bs' (304 + i.val) 1 = numberAt bs (304 + i.val) 1 := by
    intro i
    exact hfield _ _ (.inr (by omega))
  simp only [ofRecord, hslots, hcommand, hfield 0 4 (by decide), hfield 4 4 (by decide), hfield 8 2 (by decide),
    hfield 10 2 (by decide), hfield 16 8 (by decide), hfield 24 8 (by decide), hfield 32 8 (by decide),
    hfield 296 8 (by decide)]

/-- **Records that differ in their padding only are read alike**, and so are those that are too short by the same. -/
theorem decode_congr (h : ∀ p, HasField p → bs'[p]? = bs[p]?) (hsize : size ≤ bs.length ∨ bs'.length = bs.length) :
    decode bs' = decode bs := by
  by_cases hlong : size ≤ bs.length
  · have hlong' : size ≤ bs'.length := by
      -- the last byte of the record is there in both
      have hlast := h (size - 1) (.inr (by decide))
      by_contra hshort
      unfold size at *
      rw [List.getElem?_eq_none (by omega)] at hlast
      have hend := List.getElem?_eq_none_iff.mp hlast.symm
      omega
    rw [decode_of_length hlong, decode_of_length hlong', ofRecord_congr h]
  · have hlength := hsize.resolve_left hlong
    have hshort : bs.length < size := Nat.lt_of_not_le hlong
    rw [decode, decode, if_pos hshort, hlength, if_pos hshort]

/-! ## Main statement -/

/-- **Reading a record undoes writing it.**
    * Whatever the padding is and whatever comes behind the record, the sample that was written is read, from fields that
      stand where the table of a record has them.
    * A record is read exactly if it has the size of one. It is refused for its size alone: the fields of a record that
      is long enough take all of its bytes, and none of them is cut short.
    * Nothing but the bytes of the fields makes a difference, unless the record is too short. -/
theorem decode_undoes_writing :
    (∀ (s : Sample) (padding : Vector UInt8 4) (tail : Bytes),
      decode (s.write padding ++ tail) = .ok s ∧ s.StandsIn (s.write padding ++ tail)) ∧
    (∀ bs : Bytes,
      ((∃ s, decode bs = .ok s) ↔ size ≤ bs.length) ∧
      (∀ e, decode bs = .error e → e = .malformed (.shortRecord bs.length size)) ∧
      (size ≤ bs.length → ∃ s, record bs = .ok (s, bs.drop size))) ∧
    ∀ bs bs' : Bytes, (∀ p, p < 12 ∨ 16 ≤ p ∧ p < 320 → bs'[p]? = bs[p]?) →
      (size ≤ bs.length ∨ bs'.length = bs.length) → decode bs' = decode bs := by
  refine ⟨?_, ?_, fun bs bs' => decode_congr⟩
  · intro s padding tail
    have hread := s.decode_write padding tail
    have hlong : size ≤ (s.write padding ++ tail).length := by
      rw [List.length_append, s.length_write padding]
      exact Nat.le_add_right _ _
    have hstands := standsIn_ofRecord hlong
    rw [decode_of_length hlong] at hread
    rw [Except.ok.inj hread] at hstands
    exact ⟨s.decode_write padding tail, hstands⟩
  · intro bs
    by_cases hlong : size ≤ bs.length
    · have hrecord := readsAt_record hlong
      rw [Field.ReadsAt, List.drop_zero] at hrecord
      rw [decode_of_length hlong]
      exact ⟨⟨fun _ => hlong, fun _ => ⟨_, rfl⟩⟩, (fun _ herror => nomatch herror), fun _ => ⟨_, hrecord⟩⟩
    · have hshort : decode bs = .error (.malformed (.shortRecord bs.length size)) := if_pos (Nat.lt_of_not_le hlong)
      rw [hshort]
      refine ⟨⟨?_, fun h => absurd h hlong⟩, ?_, fun h => absurd h hlong⟩
      · rintro ⟨s, hs⟩
        cases hs
      · intro e he
        cases he
        rfl

/-- A sample with the largest number in every field but the slots, which are all different. -/
def brimful : Sample where
  pid := 0xffffffff
  tid := 0xffffffff
  tag := 0xffff
  version := 0xffff
  time := 0xffffffffffffffff
  sp := 0xffffffffffffffff
  pc := 0xffffffffffffffff
  slots := Vector.ofFn fun i => UInt64.ofNat i.val
  cookie := 0xffffffffffffffff
  command := Vector.ofFn fun i => UInt8.ofNat i.val

/-- It is read from its record with other padding and more bytes, and no longer when the last byte is missing. -/
theorem decode_undoes_writing_brimful :
    let padded := brimful.write #v[1, 2, 3, 4] ++ [5, 6]
    decode padded = .ok brimful ∧ decode (brimful.write #v[0, 0, 0, 0]) = decode padded ∧
      ¬ ∃ s, decode (padded.take 319) = .ok s := by
  intro padded
  obtain ⟨hwritten, hread, hsame⟩ := decode_undoes_writing
  refine ⟨(hwritten brimful #v[1, 2, 3, 4] [5, 6]).1, hsame _ _ ?_ (.inl (by decide +kernel)), ?_⟩
  · -- the records agree up to the padding and from there on
    have hfront : (brimful.write #v[0, 0, 0, 0]).take 12 = padded.take 12 := by decide +kernel
    have hback : (brimful.write #v[0, 0, 0, 0]).drop 16 = (padded.take 320).drop 16 := by decide +kernel
    rintro p (hp | ⟨hp, hend⟩)
    · rw [← List.getElem?_take_of_lt hp, hfront, List.getElem?_take_of_lt hp]
    · have hbyte := congrArg (·[p - 16]?) hback
      simp only [List.getElem?_drop, Nat.add_sub_of_le hp] at hbyte
      rw [hbyte, List.getElem?_take_of_lt hend]
  · rw [(hread (padded.take 319)).1]
    decide +kernel

end Sample

end Unwinder
