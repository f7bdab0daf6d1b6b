import Unwinder.Cfi.Framing
import Unwinder.Image.Layout

/-!
# `Proofs.RecordFraming` — where the records of a section stand

Cutting a section gives its records with their offsets. This module ties them to the bytes of the section: each record
is what its length word says, and the records stand one behind the other.

## Contents
- **Places.** `RawRecord.StandsIn`: the record is found in the section at its offset.
- **Cutting.** `Framing.Ended`, where nothing is cut off any more; `Framing.cut_standsIn` and `Framing.cut_sorted`.
-/

namespace Unwinder.Cfi

/-! ## Places -/

/-- **A record of a section**: its length word stands at its offset, and its bytes behind the word. -/
structure RawRecord.StandsIn (bs : Bytes) (r : RawRecord) : Prop where
  length : numberAt bs r.offset 4 = r.body.length
  body : r.body = (bs.drop (r.offset + 4)).take r.body.length
  fits : r.finish ≤ bs.length

/-- A record begins before it ends. -/
theorem RawRecord.offset_lt_finish (r : RawRecord) : r.offset < r.finish := by
  unfold finish
  omega

/-- A record cut off the front of the bytes from its offset on stands at that offset. -/
theorem RawRecord.standsIn_of_drop {whole bs : Bytes} {offset length : Nat} (hbs : bs = whole.drop offset)
    (hword : 4 ≤ bs.length) (hlength : length = LittleEndian.toNat (bs.take 4))
    (hfits : length ≤ (bs.drop 4).length) : (RawRecord.mk offset ((bs.drop 4).take length)).StandsIn whole := by
  have hbody : ((bs.drop 4).take length).length = length := List.length_take_of_le hfits
  have hdrop : bs.drop 4 = whole.drop (offset + 4) := by rw [hbs, List.drop_drop]
  constructor
  · show LittleEndian.toNat ((whole.drop offset).take 4) = _
    rw [hbody, ← hbs, hlength]
  · show (bs.drop 4).take length = _
    rw [hbody, hdrop]
  · show offset + 4 + ((bs.drop 4).take length).length ≤ whole.length
    rw [hbody]
    rw [hdrop, List.length_drop] at hfits
    rw [hbs, List.length_drop] at hword
    omega

/-- The word behind the length word of a record is the first of its body. -/
theorem RawRecord.StandsIn.idWord {bs : Bytes} {r : RawRecord} (h : r.StandsIn bs) (hlong : 4 ≤ r.body.length) :
    numberAt bs (r.offset + 4) 4 = LittleEndian.toNat (r.body.take 4) := by
  have hword : r.body.take 4 = (bs.drop (r.offset + 4)).take 4 :=
    calc r.body.take 4
        = ((bs.drop (r.offset + 4)).take r.body.length).take 4 := congrArg (List.take 4) h.body
      _ = _ := by rw [List.take_take, Nat.min_eq_left hlong]
  rw [numberAt, hword]

/-! ## Cutting -/

namespace Framing

/-- **The end of the records**: fewer than four bytes are left at a place, or a length of zero stands there. -/
def Ended (bs : Bytes) (place : Nat) : Prop := bs.length < place + 4 ∨ numberAt bs place 4 = 0

instance (bs : Bytes) (place : Nat) : Decidable (Ended bs place) := inferInstanceAs (Decidable (_ ∨ _))

/-- Nothing is cut off where the records have ended. -/
theorem cutFrom_ended (size offset : Nat) {tail : Bytes} (h : Ended tail 0) :
    cutFrom size offset tail = ⟨[], none⟩ := by
  by_cases hshort : tail.length < 4
  · rw [cutFrom, if_pos hshort]
  · have hzero : LittleEndian.toNat (tail.take 4) = 0 := h.resolve_left (by omega)
    rw [cutFrom, if_neg hshort]
    simp only [hzero, if_true]

/-- **Records in their places**, one behind the other. -/
theorem cutFrom_places {whole bs : Bytes} {size offset : Nat} (hbs : bs = whole.drop offset)
    (hoffset : offset ≤ whole.length) :
    (∀ r ∈ (cutFrom size offset bs).records, r.StandsIn whole ∧ offset ≤ r.offset) ∧
      (cutFrom size offset bs).records.Pairwise fun a b => a.finish ≤ b.offset := by
  fun_induction cutFrom size offset bs with
  | case1 | case2 | case3 | case4 => simp
  | case5 offset bs hword length rest hzero hwide hlong more ih =>
      have hlength : bs.length = whole.length - offset := by rw [hbs, List.length_drop]
      have hrest : rest = whole.drop (offset + 4) := by
        show bs.drop 4 = _
        rw [hbs, List.drop_drop]
      have hrestLength : rest.length = bs.length - 4 := List.length_drop
      obtain ⟨hplaces, hsorted⟩ := ih (by rw [hrest, List.drop_drop]) (by omega)
      -- the record cut off here ends where the rest of the section begins
      have hbody : (rest.take length).length = length := List.length_take_of_le (Nat.le_of_not_lt hlong)
      have hfirst : (RawRecord.mk offset (rest.take length)).StandsIn whole :=
        RawRecord.standsIn_of_drop hbs (Nat.le_of_not_lt hword) rfl (Nat.le_of_not_lt hlong)
      constructor
      · intro r hr
        rcases List.mem_cons.mp hr with rfl | hlater
        · exact ⟨hfirst, Nat.le_refl _⟩
        · obtain ⟨hstands, hle⟩ := hplaces r hlater
          exact ⟨hstands, by omega⟩
      · refine List.pairwise_cons.mpr ⟨?_, hsorted⟩
        intro r hr
        obtain ⟨-, hle⟩ := hplaces r hr
        show offset + 4 + (rest.take length).length ≤ r.offset
        rw [hbody]
        exact hle

/-- **Every record that is cut off stands in the section.** -/
theorem cut_standsIn {bs : Bytes} {r : RawRecord} (hr : r ∈ (cut bs).records) : r.StandsIn bs :=
  ((cutFrom_places (by rw [List.drop_zero]) (Nat.zero_le _)).1 r hr).1

/-- **Records stand one behind the other**, in the order in which they are cut off. -/
theorem cut_sorted (bs : Bytes) : (cut bs).records.Pairwise fun a b => a.finish ≤ b.offset :=
  (cutFrom_places (by rw [List.drop_zero]) (Nat.zero_le _)).2

end Framing

end Unwinder.Cfi
