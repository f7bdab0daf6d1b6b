import Mathlib.Control.Monad.Basic
import Unwinder.Proofs.Faults
import Unwinder.Proofs.RecordFraming

/-!
# `Proofs.FrameRecords` — what is kept of the records of frame sections

A module keeps the records of its frame sections with indices and offsets in them, which later lookups rely on without
looking. This module shows that they can: whatever bytes the sections consist of, and wherever reading one of them
breaks off, every record that is kept leads back to the section it was read from, and every function record to its
common record.

## Contents
- **Readers leave suffixes.** `Cie.read_consumes`, `Fde.read_consumes`.
- **Places.** `Extent.Within`, `Cie.ReadFrom`, `Fde.ReadFrom`: what a record says of the image it was read from.
- **One record.** `SectionInput.entry_eq_ok` takes the reading of a record apart, `entry_readFrom` finds its place.
- **Sections.** `FrameRecords.Extends` and `WellFormed`, kept by every section that is read; `Ordered`, kept by
  sections of a flavour that has not been read before.
- **Main statement.** `readAll_wellFormed`.
-/

namespace Unwinder.Cfi

/-! ## Readers leave suffixes -/

theorem block_consumes : Field.Consumes block :=
  Leb128.unsigned_consumes.bind fun length => Field.take_consumes length.toNat

theorem statedAddressSize_consumes (flavour : Flavour) (version given : UInt8) :
    Field.Consumes (statedAddressSize flavour version given) := by
  unfold statedAddressSize
  split
  · exact Field.u8_consumes.bind fun _ => Field.u8_consumes.bind fun _ => Field.pure_consumes _
  · exact Field.pure_consumes _

theorem statedEncoding_consumes (flavour : Flavour) (augmentation : Bytes) (addressSize : UInt8) :
    Field.Consumes (statedEncoding flavour augmentation addressSize) := by
  unfold statedEncoding
  split
  · exact block_consumes.bind fun _ => (Field.check_consumes _).bind fun _ => Field.pure_consumes _
  · exact Field.pure_consumes _

theorem Cie.read_consumes (flavour : Flavour) (given : UInt8) (offset imageFinish : Nat) :
    Field.Consumes (Cie.read flavour given offset imageFinish) := by
  refine Field.u8_consumes.bind fun version => ?_
  split
  · refine Field.text_consumes.bind fun augmentation => ?_
    refine Leb128.unsigned_consumes.bind fun _ => Leb128.signed_consumes.bind fun _ => ?_
    refine Leb128.unsigned_consumes.bind fun _ => ?_
    refine (statedAddressSize_consumes flavour version given).bind fun addressSize => ?_
    refine (statedEncoding_consumes flavour augmentation addressSize).bind fun _ => ?_
    exact Field.left_consumes.bind fun _ => Field.pure_consumes _
  · exact Field.refuse_consumes _

theorem Fde.read_consumes (cie : Cie) (index offset finish imageFinish : Nat) (address : UInt64) :
    Field.Consumes (Fde.read cie index offset finish imageFinish address) := by
  refine Field.left_consumes.bind fun before => ?_
  refine (PointerEncoding.read_consumes _ _ _).bind fun first => ?_
  refine (PointerEncoding.read_consumes _ _ _).bind fun length => ?_
  split
  · exact block_consumes.bind fun _ => Field.left_consumes.bind fun _ => Field.pure_consumes _
  · exact (Field.pure_consumes _).bind fun _ => Field.left_consumes.bind fun _ => Field.pure_consumes _

/-! ## Places -/

/-- A stretch that lies in a span. -/
structure Extent.Within (e : Extent) (span : SectionSpan) : Prop where
  ordered : e.start ≤ e.finish
  starts : span.offset ≤ e.start
  finishes : e.finish ≤ span.offset + span.length

/-- The number in the word at an offset of a section. -/
def SectionInput.wordAt (input : SectionInput) (image : Bytes) (offset : Nat) : Nat :=
  numberAt image (input.span.offset + offset) 4

/-- **What an id designates**, standing at `place` of its section: an offset in one flavour, and a distance back from
    the id in the other. -/
def Flavour.Designates (flavour : Flavour) (place id target : Nat) : Prop :=
  match flavour with
  | .debugFrame => target = id
  | .ehFrame => target + id = place

instance (flavour : Flavour) (place id target : Nat) : Decidable (flavour.Designates place id target) := by
  unfold Flavour.Designates
  cases flavour <;> exact inferInstance

/-- **A common record that was read from a section** of an image. Its instructions end where its length word says. -/
structure Cie.ReadFrom (image : Bytes) (input : SectionInput) (cie : Cie) : Prop where
  inside : input.span.offset + input.span.length ≤ image.length
  flavour : cie.flavour = input.flavour
  within : cie.instructions.Within input.span
  finish : cie.instructions.finish = input.span.offset + cie.offset + 4 + input.wordAt image cie.offset

/-- **A function record that was read from a section** of an image, for a common record: the one its id designates, and
    under whose pointer encoding and address size the code range is stored behind the id. -/
structure Fde.ReadFrom (image : Bytes) (input : SectionInput) (cie : Cie) (fde : Fde) : Prop where
  inside : input.span.offset + input.span.length ≤ image.length
  flavour : fde.flavour = input.flavour
  common : cie.flavour = fde.flavour
  designated : fde.flavour.Designates (fde.offset + 4) (input.wordAt image (fde.offset + 4)) cie.offset
  within : fde.instructions.Within input.span
  finish : fde.instructions.finish = input.span.offset + fde.offset + 4 + input.wordAt image fde.offset
  decoded : ∃ fields mid rest,
    (Extent.mk (input.span.offset + fde.offset + 8) fde.instructions.finish).slice? image = some fields ∧
      cie.encoding.read cie.addressSize (input.span.address + UInt64.ofNat (fde.offset + 8)) fields =
        .ok (fde.first, mid) ∧
      cie.encoding.formOnly.read cie.addressSize 0 mid = .ok (fde.length, rest)

/-! ## One record -/

/-- A record that is read stands where its reader was told, and its instructions are what is left. -/
theorem Cie.read_eq_ok {flavour : Flavour} {given : UInt8} {offset imageFinish : Nat} {bs rest : Bytes} {cie : Cie}
    (h : Cie.read flavour given offset imageFinish bs = .ok (cie, rest)) :
    cie.flavour = flavour ∧ cie.offset = offset ∧ cie.instructions = ⟨imageFinish - rest.length, imageFinish⟩ := by
  unfold Cie.read at h
  obtain ⟨version, afterVersion, -, h⟩ := Field.bind_eq_ok.mp h
  split at h
  · obtain ⟨augmentation, _, -, h⟩ := Field.bind_eq_ok.mp h
    obtain ⟨codeAlign, _, -, h⟩ := Field.bind_eq_ok.mp h
    obtain ⟨dataAlign, _, -, h⟩ := Field.bind_eq_ok.mp h
    obtain ⟨returnColumn, _, -, h⟩ := Field.bind_eq_ok.mp h
    obtain ⟨addressSize, _, -, h⟩ := Field.bind_eq_ok.mp h
    obtain ⟨encoding, _, -, h⟩ := Field.bind_eq_ok.mp h
    obtain ⟨left, _, hleft, h⟩ := Field.bind_eq_ok.mp h
    cases hleft
    cases h
    exact ⟨rfl, rfl, rfl⟩
  · cases h

theorem Fde.read_eq_ok {cie : Cie} {index offset finish imageFinish : Nat} {address : UInt64} {bs rest : Bytes}
    {fde : Fde} (h : Fde.read cie index offset finish imageFinish address bs = .ok (fde, rest)) :
    fde.cie = index ∧ fde.flavour = cie.flavour ∧ fde.offset = offset ∧
      fde.instructions = ⟨imageFinish - rest.length, imageFinish⟩ ∧
      ∃ mid behind,
        cie.encoding.read cie.addressSize (address + UInt64.ofNat (finish - bs.length)) bs = .ok (fde.first, mid) ∧
        cie.encoding.formOnly.read cie.addressSize 0 mid = .ok (fde.length, behind) := by
  unfold Fde.read at h
  obtain ⟨before, _, hbefore, h⟩ := Field.bind_eq_ok.mp h
  cases hbefore
  obtain ⟨first, mid, hfirst, h⟩ := Field.bind_eq_ok.mp h
  obtain ⟨length, behind, hlength, h⟩ := Field.bind_eq_ok.mp h
  have hend : ∃ left, Field.left left = .ok (left.length, left) ∧
      (pure { cie := index, flavour := cie.flavour, offset, first, length,
              instructions := ⟨imageFinish - left.length, imageFinish⟩ } : Field Fde) left = .ok (fde, rest) := by
    split at h
    · obtain ⟨_, left, -, h⟩ := Field.bind_eq_ok.mp h
      obtain ⟨_, _, hleft, h⟩ := Field.bind_eq_ok.mp h
      cases hleft
      exact ⟨left, rfl, h⟩
    · obtain ⟨_, left, -, h⟩ := Field.bind_eq_ok.mp h
      obtain ⟨_, _, hleft, h⟩ := Field.bind_eq_ok.mp h
      cases hleft
      exact ⟨left, rfl, h⟩
  obtain ⟨left, -, hfde⟩ := hend
  cases hfde
  exact ⟨rfl, rfl, rfl, rfl, mid, behind, hfirst, hlength⟩

/-- The number in the first four bytes. -/
theorem Field.u32_eq_ok {bs rest : Bytes} {id : UInt32} (h : Field.u32 bs = .ok (id, rest)) :
    4 ≤ bs.length ∧ id.toNat = LittleEndian.toNat (bs.take 4) ∧ rest = bs.drop 4 := by
  unfold Field.u32 Field.number at h
  obtain ⟨n, mid, hn, h⟩ := Field.bind_eq_ok.mp h
  obtain ⟨word, after, htake, hn⟩ := Field.bind_eq_ok.mp hn
  unfold Field.take at htake
  split at htake
  · rename_i hlong
    cases htake
    cases hn
    cases h
    refine ⟨hlong, ?_, rfl⟩
    have hlt := LittleEndian.toNat_lt (bs.take 4)
    rw [List.length_take_of_le hlong] at hlt
    exact UInt32.toNat_ofNat_of_lt' hlt
  · cases htake

namespace SectionInput

/-- The common record that an id names is there, and stands where the id says. -/
theorem named?_eq_some {input : SectionInput} {records : FrameRecords} {place index : Nat} {id : UInt32} {cie : Cie}
    (h : input.named? records place id = some (index, cie)) :
    records.cies[index]? = some cie ∧ cie.flavour = input.flavour ∧
      input.flavour.Designates place id.toNat cie.offset := by
  simp only [named?, bind, Option.bind_eq_some_iff, pure, Option.some.injEq, Prod.mk.injEq] at h
  obtain ⟨offset, htarget, found, hfound, common, hcommon, rfl, rfl⟩ := h
  obtain ⟨hi, hholds, -⟩ := List.findIdx?_eq_some_iff_getElem.mp hfound
  rw [List.getElem?_eq_getElem hi] at hcommon
  cases hcommon
  simp only [Bool.and_eq_true, decide_eq_true_eq] at hholds
  obtain ⟨hflavour, hoffset⟩ := hholds
  refine ⟨List.getElem?_eq_getElem hi, hflavour, ?_⟩
  unfold Flavour.target? at htarget
  unfold Flavour.Designates
  rw [hoffset]
  cases hkind : input.flavour with
  | debugFrame =>
      simp only [hkind, Option.some.injEq] at htarget ⊢
      exact htarget.symm
  | ehFrame =>
      simp only [hkind] at htarget ⊢
      split at htarget
      · cases htarget
        omega
      · cases htarget

/-- **The reading of a record**: its id decides the kind of the record, and for a function record finds the common
    one. -/
theorem entry_eq_ok {input : SectionInput} {records : FrameRecords} {r : RawRecord} {bs rest : Bytes} {e : Entry}
    (h : input.entry records r bs = .ok (e, rest)) :
    ∃ id fields, Field.u32 bs = .ok (id, fields) ∧
      ((id = input.flavour.mark ∧ ∃ cie, e = .cie cie ∧
          Cie.read input.flavour input.addressSize r.offset (input.span.offset + r.finish) fields = .ok (cie, rest)) ∨
        (id ≠ input.flavour.mark ∧ ∃ index cie fde, e = .fde fde ∧
          input.named? records (r.offset + 4) id = some (index, cie) ∧
          Fde.read cie index r.offset r.finish (input.span.offset + r.finish) input.span.address fields =
            .ok (fde, rest))) := by
  unfold entry at h
  obtain ⟨id, fields, hid, h⟩ := Field.bind_eq_ok.mp h
  refine ⟨id, fields, hid, ?_⟩
  split at h
  · rename_i hmark
    obtain ⟨cie, _, hcie, h⟩ := Field.bind_eq_ok.mp h
    cases h
    exact .inl ⟨hmark, cie, rfl, hcie⟩
  · rename_i hmark
    rcases hnamed : input.named? records (r.offset + 4) id with _ | ⟨index, cie⟩
    · simp only [hnamed] at h
      cases h
    · simp only [hnamed] at h
      obtain ⟨fde, _, hfde, h⟩ := Field.bind_eq_ok.mp h
      cases h
      exact .inr ⟨hmark, index, cie, fde, rfl, rfl, hfde⟩

end SectionInput

/-! ## Places of records -/

section Places

variable {image bs : Bytes} {input : SectionInput} {r : RawRecord}

theorem slice?_eq_some {span : SectionSpan} (h : span.slice? image = some bs) :
    span.offset + span.length ≤ image.length ∧ bs = (image.drop span.offset).take span.length := by
  unfold SectionSpan.slice? at h
  split at h
  · rename_i hinside
    cases h
    exact ⟨hinside, rfl⟩
  · cases h

theorem length_slice {span : SectionSpan} (h : span.slice? image = some bs) : bs.length = span.length := by
  obtain ⟨hinside, rfl⟩ := slice?_eq_some h
  rw [List.length_take, List.length_drop]
  omega

/-- A part of a section is one of the image. -/
theorem take_drop_slice {span : SectionSpan} (h : span.slice? image = some bs) {offset width : Nat}
    (hfits : offset + width ≤ bs.length) :
    (bs.drop offset).take width = (image.drop (span.offset + offset)).take width := by
  rw [length_slice h] at hfits
  obtain ⟨-, rfl⟩ := slice?_eq_some h
  rw [List.drop_take, List.take_take, List.drop_drop, Nat.min_eq_left (by omega)]

/-- A number in a section is one in the image. -/
theorem numberAt_slice {span : SectionSpan} (h : span.slice? image = some bs) {offset width : Nat}
    (hfits : offset + width ≤ bs.length) : numberAt bs offset width = numberAt image (span.offset + offset) width :=
  congrArg LittleEndian.toNat (take_drop_slice h hfits)

/-- The bytes of a record from its `skip`th on are a stretch of the image. -/
theorem RawRecord.StandsIn.slice? (hslice : input.span.slice? image = some bs) (hr : r.StandsIn bs) {skip : Nat}
    (hskip : skip ≤ r.body.length) :
    (Extent.mk (input.span.offset + r.offset + 4 + skip) (input.span.offset + r.finish)).slice? image =
      some (r.body.drop skip) := by
  obtain ⟨hinside, -⟩ := slice?_eq_some hslice
  have hlength := length_slice hslice
  have hfits := hr.fits
  have hfinish : r.finish = r.offset + 4 + r.body.length := rfl
  have hbody : r.body.drop skip =
      (image.drop (input.span.offset + (r.offset + 4 + skip))).take (r.body.length - skip) :=
    calc r.body.drop skip
        = ((bs.drop (r.offset + 4)).take r.body.length).drop skip := congrArg (List.drop skip) hr.body
      _ = (bs.drop (r.offset + 4 + skip)).take (r.body.length - skip) := by rw [List.drop_take, List.drop_drop]
      _ = _ := take_drop_slice hslice (by omega)
  have hstart : input.span.offset + r.offset + 4 + skip = input.span.offset + (r.offset + 4 + skip) := by omega
  have hwidth : input.span.offset + r.finish - (input.span.offset + (r.offset + 4 + skip)) =
      r.body.length - skip := by omega
  have hplace : input.span.offset + (r.offset + 4 + skip) ≤ input.span.offset + r.finish ∧
      input.span.offset + r.finish ≤ image.length := by omega
  rw [hstart, Extent.slice?, if_pos hplace, hbody]
  exact congrArg (fun width => some ((image.drop _).take width)) hwidth

/-- What is left of a record is a stretch of its section. -/
theorem RawRecord.StandsIn.within (hslice : input.span.slice? image = some bs) (hr : r.StandsIn bs) {left : Nat}
    (hleft : left ≤ r.body.length) :
    (Extent.mk (input.span.offset + r.finish - left) (input.span.offset + r.finish)).Within input.span := by
  have hlength := length_slice hslice
  have hfits := hr.fits
  have hfinish : r.finish = r.offset + 4 + r.body.length := rfl
  constructor
  · exact Nat.sub_le _ _
  · show input.span.offset ≤ input.span.offset + r.finish - left
    omega
  · show input.span.offset + r.finish ≤ _
    omega

/-- A record ends where its length word says. -/
theorem RawRecord.StandsIn.finish (hslice : input.span.slice? image = some bs) (hr : r.StandsIn bs) :
    input.span.offset + r.finish = input.span.offset + r.offset + 4 + input.wordAt image r.offset := by
  have hfits := hr.fits
  have hfinish : r.finish = r.offset + 4 + r.body.length := rfl
  have hword : input.wordAt image r.offset = r.body.length := by
    rw [SectionInput.wordAt, ← numberAt_slice hslice (by omega), hr.length]
  omega

/-- The id word of a record. -/
theorem RawRecord.StandsIn.id (hslice : input.span.slice? image = some bs) (hr : r.StandsIn bs)
    (hlong : 4 ≤ r.body.length) :
    LittleEndian.toNat (r.body.take 4) = input.wordAt image (r.offset + 4) := by
  have hfits := hr.fits
  have hfinish : r.finish = r.offset + 4 + r.body.length := rfl
  rw [SectionInput.wordAt, ← numberAt_slice hslice (by omega), hr.idWord hlong]

/-- **A record that is read has its place** in the image: a common record, or a function record for a common one that
    was read before it. -/
theorem entry_readFrom {records : FrameRecords} {e : Entry} {rest : Bytes}
    (hslice : input.span.slice? image = some bs) (hr : r.StandsIn bs)
    (h : input.entry records r r.body = .ok (e, rest)) :
    match e with
    | .cie cie => cie.offset = r.offset ∧ cie.ReadFrom image input
    | .fde fde => fde.offset = r.offset ∧
        ∃ cie, records.cies[fde.cie]? = some cie ∧ fde.ReadFrom image input cie := by
  obtain ⟨hinside, -⟩ := slice?_eq_some hslice
  obtain ⟨id, fields, hid, hkind⟩ := SectionInput.entry_eq_ok h
  obtain ⟨hlong, hnumber, rfl⟩ := Field.u32_eq_ok hid
  rw [hr.id hslice hlong] at hnumber
  have hfieldsLength : (r.body.drop 4).length = r.body.length - 4 := List.length_drop
  rcases hkind with ⟨-, cie, rfl, hcie⟩ | ⟨-, index, cie, fde, rfl, hnamed, hfde⟩
  · obtain ⟨hflavour, hoffset, hextent⟩ := Cie.read_eq_ok hcie
    have hleft := (Cie.read_consumes _ _ _ _ _ _ _ hcie).length_le
    refine ⟨hoffset, hinside, hflavour, ?_, ?_⟩
    · rw [hextent]
      exact hr.within hslice (by omega)
    · rw [hextent, hoffset]
      exact hr.finish hslice
  · obtain ⟨hcommon, hcommonFlavour, hdesignated⟩ := SectionInput.named?_eq_some hnamed
    obtain ⟨hindex, hflavour, hoffset, hextent, mid, behind, hfirst, hlength⟩ := Fde.read_eq_ok hfde
    have hleft := (Fde.read_consumes _ _ _ _ _ _ _ _ _ hfde).length_le
    -- the id takes four bytes, so that the first pointer stands eight bytes behind the record's offset
    have hplace : r.finish - (r.body.drop 4).length = r.offset + 8 := by
      have hfinish : r.finish = r.offset + 4 + r.body.length := rfl
      omega
    rw [hplace] at hfirst
    refine ⟨hoffset, cie, by rw [hindex]; exact hcommon, hinside, hflavour.trans hcommonFlavour, hflavour.symm, ?_, ?_,
      ?_, ?_⟩
    · rw [hflavour, hcommonFlavour, hoffset, ← hnumber]
      exact hdesignated
    · rw [hextent]
      exact hr.within hslice (by omega)
    · rw [hextent, hoffset]
      exact hr.finish hslice
    · refine ⟨r.body.drop 4, mid, behind, ?_, ?_, hlength⟩
      · rw [hextent, hoffset]
        exact hr.slice? hslice hlong
      · rw [hoffset]
        exact hfirst

end Places

/-! ## Sections -/

namespace FrameRecords

/-- Records to which others may have been added at the end. -/
structure Extends (before after : FrameRecords) : Prop where
  cies : before.cies <+: after.cies
  fdes : before.fdes <+: after.fdes

theorem Extends.refl (records : FrameRecords) : records.Extends records := ⟨List.prefix_rfl, List.prefix_rfl⟩

theorem Extends.trans {first second third : FrameRecords} (h : first.Extends second) (h' : second.Extends third) :
    first.Extends third := ⟨h.cies.trans h'.cies, h.fdes.trans h'.fdes⟩

theorem push_extends (records : FrameRecords) (e : Entry) : records.Extends (records.push e) := by
  cases e with
  | cie cie => exact ⟨List.prefix_append _ _, List.prefix_rfl⟩
  | fde fde => exact ⟨List.prefix_rfl, List.prefix_append _ _⟩

/-- A common record that is there stays where it is. -/
theorem Extends.getElem? {before after : FrameRecords} (h : before.Extends after) {i : Nat} {cie : Cie}
    (hcie : before.cies[i]? = some cie) : after.cies[i]? = some cie := by
  obtain ⟨hi, rfl⟩ := List.getElem?_eq_some_iff.mp hcie
  obtain ⟨more, hmore⟩ := h.cies
  rw [← hmore, List.getElem?_append_left hi]
  exact hcie

/-- **Well-formed records**: each was read from one of the sections, and every function record for a common record that
    is there. -/
structure WellFormed (image : Bytes) (inputs : List SectionInput) (records : FrameRecords) : Prop where
  common : ∀ cie ∈ records.cies, ∃ input ∈ inputs, cie.ReadFrom image input
  function : ∀ fde ∈ records.fdes,
    ∃ cie, records.cies[fde.cie]? = some cie ∧ ∃ input ∈ inputs, fde.ReadFrom image input cie

/-- **Ordered records**: no two common records stand at one offset of one section, and every function record stands
    behind its common one, in the same section. -/
structure Ordered (records : FrameRecords) : Prop where
  distinct : records.cies.Pairwise fun a b => a.flavour = b.flavour → a.offset ≠ b.offset
  behind : ∀ fde ∈ records.fdes,
    ∃ cie, records.cies[fde.cie]? = some cie ∧ cie.flavour = fde.flavour ∧ cie.offset < fde.offset

theorem WellFormed.empty (image : Bytes) (inputs : List SectionInput) : WellFormed image inputs .empty := by
  constructor
  · intro cie hcie
    cases hcie
  · intro fde hfde
    cases hfde

theorem Ordered.empty : Ordered .empty := by
  refine ⟨.nil, ?_⟩
  intro fde hfde
  cases hfde

section Sections

variable {image bs : Bytes} {inputs : List SectionInput} {input : SectionInput} {records : FrameRecords}

/-- **Reading a record keeps records well-formed.** -/
theorem WellFormed.push (h : WellFormed image inputs records) (hinput : input ∈ inputs)
    (hslice : input.span.slice? image = some bs) {r : RawRecord} (hr : r.StandsIn bs) {e : Entry} {rest : Bytes}
    (hread : input.entry records r r.body = .ok (e, rest)) : WellFormed image inputs (records.push e) := by
  have hextends := records.push_extends e
  have hplace := entry_readFrom hslice hr hread
  -- the function records that were there find their common records where they were
  have hkept : ∀ fde ∈ records.fdes, ∃ cie, (records.push e).cies[fde.cie]? = some cie ∧
      ∃ input ∈ inputs, fde.ReadFrom image input cie := by
    intro fde hfde
    obtain ⟨cie, hcie, hfrom⟩ := h.function fde hfde
    exact ⟨cie, hextends.getElem? hcie, hfrom⟩
  cases e with
  | cie cie =>
      refine ⟨?_, hkept⟩
      intro other hother
      rcases List.mem_append.mp hother with hbefore | hnew
      · exact h.common other hbefore
      · rw [List.mem_singleton.mp hnew]
        exact ⟨input, hinput, hplace.2⟩
  | fde fde =>
      refine ⟨h.common, ?_⟩
      intro other hother
      rcases List.mem_append.mp hother with hbefore | hnew
      · exact hkept other hbefore
      · rw [List.mem_singleton.mp hnew]
        obtain ⟨-, cie, hcie, hfrom⟩ := hplace
        exact ⟨cie, hcie, input, hinput, hfrom⟩

/-- **Reading a record keeps records ordered**, if it stands behind the common records of its section. -/
theorem Ordered.push (h : Ordered records) (hslice : input.span.slice? image = some bs) {r : RawRecord}
    (hr : r.StandsIn bs) (hbehind : ∀ cie ∈ records.cies, cie.flavour = input.flavour → cie.offset < r.offset)
    {e : Entry} {rest : Bytes} (hread : input.entry records r r.body = .ok (e, rest)) : Ordered (records.push e) := by
  have hextends := records.push_extends e
  have hplace := entry_readFrom hslice hr hread
  have hkept : ∀ fde ∈ records.fdes, ∃ cie, (records.push e).cies[fde.cie]? = some cie ∧
      cie.flavour = fde.flavour ∧ cie.offset < fde.offset := by
    intro fde hfde
    obtain ⟨cie, hcie, hbefore⟩ := h.behind fde hfde
    exact ⟨cie, hextends.getElem? hcie, hbefore⟩
  cases e with
  | cie cie =>
      obtain ⟨hoffset, hfrom⟩ := hplace
      refine ⟨?_, hkept⟩
      show (records.cies ++ [cie]).Pairwise _
      refine List.pairwise_append.mpr ⟨h.distinct, List.pairwise_singleton _ _, ?_⟩
      intro a ha b hb hflavour
      rw [List.mem_singleton.mp hb] at hflavour ⊢
      have hlt := hbehind a ha (hflavour.trans hfrom.flavour)
      omega
  | fde fde =>
      refine ⟨h.distinct, ?_⟩
      intro other hother
      rcases List.mem_append.mp hother with hbefore | hnew
      · exact hkept other hbefore
      · rw [List.mem_singleton.mp hnew]
        obtain ⟨hoffset, cie, hcie, hfrom⟩ := hplace
        have hflavour := hfrom.common.trans hfrom.flavour
        refine ⟨cie, hcie, hfrom.common, ?_⟩
        rw [hoffset]
        exact hbehind cie (List.mem_of_getElem? hcie) hflavour

theorem addRecords_extends (input : SectionInput) (rs : List RawRecord) (records : FrameRecords) :
    records.Extends (input.addRecords rs records).2 := by
  induction rs generalizing records with
  | nil => exact .refl records
  | cons r rs ih =>
      rw [SectionInput.addRecords]
      split
      · exact (records.push_extends _).trans (ih _)
      · exact .refl records

theorem WellFormed.addRecords (h : WellFormed image inputs records) (hinput : input ∈ inputs)
    (hslice : input.span.slice? image = some bs) {rs : List RawRecord} (hrs : ∀ r ∈ rs, r.StandsIn bs) :
    WellFormed image inputs (input.addRecords rs records).2 := by
  induction rs generalizing records with
  | nil => exact h
  | cons r rs ih =>
      rw [SectionInput.addRecords]
      split
      · rename_i e rest hread
        exact ih (h.push hinput hslice (hrs r List.mem_cons_self) hread) fun r' hr' => hrs r' (List.mem_cons_of_mem r hr')
      · exact h

/-- Records that stand one behind the other, and behind the common records of their section, keep the order. -/
theorem Ordered.addRecords (h : Ordered records) (hslice : input.span.slice? image = some bs) {rs : List RawRecord}
    (hrs : ∀ r ∈ rs, r.StandsIn bs) (hsorted : rs.Pairwise fun a b => a.finish ≤ b.offset)
    (hbehind : ∀ cie ∈ records.cies, cie.flavour = input.flavour → ∀ r ∈ rs, cie.offset < r.offset) :
    Ordered (input.addRecords rs records).2 := by
  induction rs generalizing records with
  | nil => exact h
  | cons r rs ih =>
      have hr := hrs r List.mem_cons_self
      obtain ⟨hnext, hsorted⟩ := List.pairwise_cons.mp hsorted
      rw [SectionInput.addRecords]
      split
      · rename_i e rest hread
        have hordered := h.push hslice hr (fun cie hcie hflavour => hbehind cie hcie hflavour r List.mem_cons_self) hread
        refine ih hordered (fun r' hr' => hrs r' (List.mem_cons_of_mem r hr')) hsorted ?_
        -- a common record read here stands before all that are still to be read
        have hplace := entry_readFrom hslice hr hread
        intro cie hcie hflavour r' hr'
        cases e with
        | fde fde => exact hbehind cie hcie hflavour r' (List.mem_cons_of_mem r hr')
        | cie new =>
            rcases List.mem_append.mp hcie with hbefore | hnew
            · exact hbehind cie hbefore hflavour r' (List.mem_cons_of_mem r hr')
            · rw [List.mem_singleton.mp hnew, hplace.1]
              exact Nat.lt_of_lt_of_le r.offset_lt_finish (hnext r' hr')
      · exact h

/-- What a section adds, whether it can be read to its end or not. -/
theorem readSection_eq (records : FrameRecords) (image : Bytes) (input : SectionInput) :
    (records.readSection image input).2 =
      match input.span.slice? image with
      | none => records
      | some bs => (input.addRecords (Framing.cut bs).records records).2 := by
  unfold readSection
  cases input.span.slice? image with
  | none => rfl
  | some bs =>
      dsimp only
      rcases input.addRecords (Framing.cut bs).records records with ⟨e | _, after⟩ <;> rfl

/-- **A section only adds records**, at the end. -/
theorem readSection_extends (records : FrameRecords) (image : Bytes) (input : SectionInput) :
    records.Extends (records.readSection image input).2 := by
  rw [readSection_eq]
  split
  · exact .refl records
  · exact addRecords_extends input _ records

/-- **A section keeps records well-formed**, also when reading it breaks off. -/
theorem WellFormed.readSection (h : WellFormed image inputs records) (hinput : input ∈ inputs) :
    WellFormed image inputs (records.readSection image input).2 := by
  rw [readSection_eq]
  split
  · exact h
  · rename_i bs hslice
    exact h.addRecords hinput hslice fun r hr => Framing.cut_standsIn hr

/-- **A section keeps records ordered** if none of its flavour has been read before. -/
theorem Ordered.readSection (h : Ordered records) (hfresh : ∀ cie ∈ records.cies, cie.flavour ≠ input.flavour) :
    Ordered (records.readSection image input).2 := by
  rw [readSection_eq]
  split
  · exact h
  · rename_i bs hslice
    refine h.addRecords hslice (fun r hr => Framing.cut_standsIn hr) (Framing.cut_sorted bs) ?_
    exact fun cie hcie hflavour => absurd hflavour (hfresh cie hcie)

end Sections

/-- The records that are kept after sections of an image have been read in order, some of them perhaps not to their
    end. -/
def readAll (image : Bytes) (inputs : List SectionInput) : FrameRecords :=
  inputs.foldl (fun records input => (records.readSection image input).2) .empty

/-- **Whatever sections are read, the records are well-formed.** -/
theorem wellFormed_readAll (image : Bytes) (inputs : List SectionInput) :
    WellFormed image inputs (readAll image inputs) := by
  -- over the sections still to be read, all of them being among `inputs`
  have hrest : ∀ rest records, rest ⊆ inputs → WellFormed image inputs records →
      WellFormed image inputs (rest.foldl (fun records input => (records.readSection image input).2) records) := by
    intro rest
    induction rest with
    | nil => exact fun _ _ h => h
    | cons input rest ih =>
        intro records hsubset h
        rw [List.foldl_cons]
        refine ih _ (fun other hother => hsubset (List.mem_cons_of_mem input hother)) ?_
        exact h.readSection (hsubset List.mem_cons_self)
  exact hrest inputs .empty (List.Subset.refl inputs) (.empty image inputs)

/-! ## The records of an image -/

/-- The frame sections of an image, in the order in which they are read. -/
def sectionInputs (image : Image) (sections : Image.DebugSections) : List SectionInput :=
  [⟨sections.ehFrame, .ehFrame, image.fileClass.addressSize⟩,
    ⟨sections.debugFrame, .debugFrame, image.fileClass.addressSize⟩]

/-- An empty section adds nothing. -/
theorem readSection_of_isEmpty (records : FrameRecords) (image : Bytes) {input : SectionInput}
    (h : input.span.isEmpty = true) : (records.readSection image input).2 = records := by
  rw [readSection_eq]
  split
  · rfl
  · rename_i bs hslice
    have hlength := length_slice hslice
    rw [show input.span.length = 0 by simpa [SectionSpan.isEmpty] using h] at hlength
    obtain rfl := List.eq_nil_of_length_eq_zero hlength
    have hcut : (Framing.cut []).records = [] := by
      unfold Framing.cut
      rw [Framing.cutFrom]
      rfl
    rw [hcut]
    rfl

theorem readIfPresent_eq_ok {records after : FrameRecords} {image : Bytes} {input : SectionInput}
    (h : records.readIfPresent image input = .ok after) : after = (records.readSection image input).2 := by
  unfold readIfPresent at h
  split at h
  · rename_i hempty
    cases h
    rw [readSection_of_isEmpty records image hempty]
  · split at h
    · rename_i hread
      cases h
      rw [hread]
    · cases h

/-- The records of an image are those of its frame sections. -/
theorem ofImage_eq_ok {image : Image} {sections : Image.DebugSections} {records : FrameRecords}
    (h : ofImage image sections = .ok records) : records = readAll image.bytes (sectionInputs image sections) := by
  unfold ofImage at h
  simp only [bind, Except.bind] at h
  split at h
  · cases h
  · rename_i first hfirst
    split at h
    · cases h
    · rename_i second hsecond
      split at h
      · cases h
      · cases h
        rw [readIfPresent_eq_ok hsecond, readIfPresent_eq_ok hfirst]
        rfl

/-- **The records of an image are ordered**, each flavour of section being read once. -/
theorem ordered_ofImage {image : Image} {sections : Image.DebugSections} {records : FrameRecords}
    (h : ofImage image sections = .ok records) : records.Ordered := by
  rw [ofImage_eq_ok h, sectionInputs, readAll, List.foldl_cons, List.foldl_cons, List.foldl_nil]
  have hfirst := (WellFormed.empty image.bytes _).readSection
    (List.mem_singleton_self ⟨sections.ehFrame, .ehFrame, image.fileClass.addressSize⟩)
  refine (Ordered.empty.readSection ?_).readSection ?_
  · intro cie hcie
    cases hcie
  · intro cie hcie hflavour
    obtain ⟨input, hinput, hfrom⟩ := hfirst.common cie hcie
    rw [List.mem_singleton.mp hinput] at hfrom
    rw [hfrom.flavour] at hflavour
    cases hflavour

/-- **Usable records are well-formed**, and so are none. -/
theorem wellFormed_usable (image : Image) (sections : Image.DebugSections) :
    WellFormed image.bytes (sectionInputs image sections) (.usable image sections) := by
  unfold usable
  split
  · rename_i records h
    rw [ofImage_eq_ok h]
    exact wellFormed_readAll _ _
  · exact .empty _ _

end FrameRecords

/-! ## Main statement -/

/-- **The records of frame sections are well-formed.** Whatever an image consists of, and whichever sections of it are
    read one after the other, each to its end or to what cannot be read:
    * every common record and every function record that is kept was read from one of the sections, and every function
      record for a common record that is there, the one its id designates;
    * a section only adds records at the end of those read before it;
    * the frame sections of a file, read for its index, have at most one common record at an offset, and every function
      record behind its common one. -/
theorem readAll_wellFormed (image : Bytes) (inputs : List SectionInput) :
    FrameRecords.WellFormed image inputs (.readAll image inputs) ∧
    (∀ (records : FrameRecords) (input : SectionInput), records.Extends (records.readSection image input).2) ∧
    ∀ (file : Image) (sections : Image.DebugSections) (records : FrameRecords),
      FrameRecords.ofImage file sections = .ok records →
        records = .readAll file.bytes (FrameRecords.sectionInputs file sections) ∧ records.Ordered := by
  refine ⟨FrameRecords.wellFormed_readAll image inputs, fun records input => records.readSection_extends image input, ?_⟩
  intro file sections records hrecords
  exact ⟨FrameRecords.ofImage_eq_ok hrecords, FrameRecords.ordered_ofImage hrecords⟩

/-- A common record, a function record that names it, and a function record that names none. -/
def strayFrames : Bytes :=
  let number := LittleEndian.ofNat
  number 4 14 ++ number 4 0 ++ [1, 0, 1, 0x78, 16, 0x0c, 7, 8, 0x90, 1] ++
    number 4 20 ++ number 4 22 ++ number 8 0x1000 ++ number 8 0x100 ++ number 4 4 ++ number 4 0x40

/-- The section is read once to the record that names none, and once, as that of a file, without it. -/
theorem readAll_wellFormed_stray :
    let whole : SectionInput := ⟨⟨0, 50, 0⟩, .ehFrame, 8⟩
    let file : Image := ⟨⟨"stray"⟩, strayFrames, .bits64, 0, 0, 0, .empty⟩
    let sections : Image.DebugSections := ⟨.empty, .empty, ⟨0, 42, 0⟩⟩
    let kept := FrameRecords.readAll strayFrames [whole]
    (FrameRecords.empty.readSection strayFrames whole).1 = .error (.malformed (.unknownCie 42 0x40)) ∧
      kept.WellFormed strayFrames [whole] ∧ kept.fdes.length = 1 ∧
      FrameRecords.ofImage file sections = .ok kept ∧ kept.Ordered := by
  intro whole file sections kept
  obtain ⟨hkept, -, hfile⟩ := readAll_wellFormed strayFrames [whole]
  have hrecords : FrameRecords.ofImage file sections = .ok (.readAll strayFrames [whole]) := by decide +kernel
  exact ⟨by decide +kernel, hkept, by decide +kernel, hrecords, (hfile file sections _ hrecords).2⟩

end Unwinder.Cfi
