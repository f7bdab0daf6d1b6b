import Unwinder.Proofs.AugmentationBlocks
import Unwinder.Proofs.Cursors.Numerals
import Unwinder.Proofs.SectionCuts

/-!
# `Proofs.Cursors.Sections` — a frame section is read without a step out of bounds

A frame section is read by a loop over its records, with offsets that are added to and taken away from each other without
looking whether the result is a word. This module runs the reading of a whole section in such steps, and shows that it always
has an outcome, the one that the reading of bytes has: so none of these sums leaves the words, none of the differences is
below zero, and nothing is cut out of the image that does not lie in it. The moves that are made over a record do not leave
the record.

## Contents
- **Steps of records.** Pointers, blocks and records of both kinds, each of which keeps to its reader.
- **Whole records.** `RawRecord.place`, and `keeps_entry`.
- **Sections.** `ahead?`, what stands at an offset; `readFrom`, the loop; `readSection`.
- **Passes.** `ahead?_cut`: a pass of the loop sees what the cut of the section has there.
- **Runs of the loop.** `Visit.Of`; `readFrom_cut`: the loop follows the cut.
- **Main statement.** `readSection_stays_in_records`.
-/

namespace Unwinder.Cfi

open LittleEndian (inWord? inWord?_of_lt wordLimit)

/-! ## Steps of records -/

namespace Stepped

section Records

variable (data : Bytes)

/-- A value of the given form. -/
def value (addressSize : UInt8) : PointerForm → Stepped UInt64
  | .absolute => address data addressSize
  | .unsignedLeb => unsigned data
  | .unsigned2 => do return UInt64.ofNat (← number data 2)
  | .unsigned4 => do return UInt64.ofNat (← number data 4)
  | .unsigned8 => u64 data
  | .signedLeb => do return (← signed data).toUInt64
  | .signed2 => do return PointerEncoding.signExtend 2 (← number data 2)
  | .signed4 => do return PointerEncoding.signExtend 4 (← number data 4)
  | .signed8 => u64 data

/-- A pointer that stands at address `place`. -/
def pointerAt (encoding : PointerEncoding) (addressSize : UInt8) (place : UInt64) : Stepped UInt64 := do
  let form ← check encoding.form?
  let value ← value data addressSize form
  let base ← check encoding.base?
  check (PointerEncoding.resolve place value base)

/-- A pointer in a section that is linked at `address`, with what is left of the record ending at `finish`. Where the pointer
    stands is worked out before anything else. -/
def pointer (encoding : PointerEncoding) (addressSize : UInt8) (address : UInt64) (finish : Nat) : Stepped UInt64 := do
  let here ← place finish
  pointerAt data encoding addressSize (address + UInt64.ofNat here)

/-- A pointer in a block, counted from nothing. Where it stands is worked out all the same, back from the end of the block. -/
def blockPointer (encoding : PointerEncoding) (addressSize : UInt8) : Stepped UInt64 := do
  let count ← left
  pointer data encoding.formOnly addressSize 0 count

/-- A block of bytes behind its length. -/
def block : Stepped Extent := do
  let length ← unsigned data
  split length.toNat

/-- The pointer encoding of an augmentation block. -/
def walk (addressSize : UInt8) (found : Option PointerEncoding) : Bytes → Stepped (Option PointerEncoding)
  | [] => return found
  | letter :: letters =>
      if letter = 0x4c then do
        let _ ← u8 data
        walk addressSize found letters
      else if letter = 0x50 then do
        let byte ← u8 data
        let _ ← blockPointer data ⟨byte⟩ addressSize
        walk addressSize found letters
      else if letter = 0x52 then do
        let byte ← u8 data
        walk addressSize (some ⟨byte⟩) letters
      else if letter = 0x53 then walk addressSize found letters
      else return found

/-- The address size of a common record. -/
def statedAddressSize (flavour : Flavour) (version given : UInt8) : Stepped UInt8 :=
  if flavour = .debugFrame ∧ 3 ≤ version then do
    let size ← u8 data
    let _ ← u8 data
    return size
  else return given

/-- The pointer encoding of a common record. -/
def statedEncoding (flavour : Flavour) (augmentation : Bytes) (addressSize : UInt8) : Stepped PointerEncoding :=
  if hasBlock augmentation then do
    let part ← block data
    let stated ← on part (walk data addressSize none augmentation.tail)
    return if flavour = .debugFrame then .absolute else stated.getD .absolute
  else return .absolute

/-- The common record after its id word. -/
def cie (flavour : Flavour) (given : UInt8) (offset imageFinish : Nat) : Stepped Cie := do
  let version ← u8 data
  if knownVersion version then do
    let augmentation ← text data
    let codeAlign ← unsigned data
    let dataAlign ← signed data
    let returnColumn ← unsigned data
    let addressSize ← statedAddressSize data flavour version given
    let encoding ← statedEncoding data flavour augmentation addressSize
    let start ← place imageFinish
    return { flavour, offset, version, augmentation, codeAlign, dataAlign, returnColumn, encoding, addressSize,
             instructions := ⟨start, imageFinish⟩ }
  else refuse (.malformed (.cieVersion version))

/-- The block of a function record, which is passed over. -/
def skipBlock (stated : Bool) : Stepped Unit :=
  if stated then do
    let _ ← block data
    return ()
  else return ()

/-- The function record after its id word. -/
def fde (common : Cie) (index offset finish imageFinish : Nat) (address : UInt64) : Stepped Fde := do
  let first ← pointer data common.encoding common.addressSize address finish
  let length ← pointer data common.encoding.formOnly common.addressSize address finish
  skipBlock data common.hasBlock
  let start ← place imageFinish
  return { cie := index, flavour := common.flavour, offset, first, length, instructions := ⟨start, imageFinish⟩ }

/-- The record of either kind that stands at `offset`, its id and fields at `place`. The common record of a function record is
    looked up by its index, which has to be one. -/
def entry (input : SectionInput) (records : FrameRecords) (offset : Nat) (place : Extent) : Stepped Entry := do
  let id ← u32 data
  let imageFinish ← step (inWord? (input.span.offset + place.finish))
  if id = input.flavour.mark then
    return .cie (← cie data input.flavour input.addressSize offset imageFinish)
  else match (input.flavour.target? place.start id).bind (records.indexOf? input.flavour) with
    | some index => do
        let common ← step records.cies[index]?
        return .fde (← fde data common index offset place.finish imageFinish input.span.address)
    | none => refuse (.malformed (.unknownCie offset id.toNat))

end Records

section Keeping

variable {data : Bytes} {body : Extent} (hmemory : data.length < wordLimit)
include hmemory

theorem keeps_value (addressSize : UInt8) (form : PointerForm) :
    Keeps data body Eq (value data addressSize form) (PointerEncoding.value addressSize form) := by
  cases form with
  | absolute => exact keeps_address hmemory addressSize
  | unsignedLeb => exact keeps_unsigned hmemory
  | unsigned2 => exact (keeps_number hmemory 2).map _
  | unsigned4 => exact (keeps_number hmemory 4).map _
  | unsigned8 => exact keeps_u64 hmemory
  | signedLeb => exact (keeps_signed hmemory).map _
  | signed2 => exact (keeps_number hmemory 2).map _
  | signed4 => exact (keeps_number hmemory 4).map _
  | signed8 => exact keeps_u64 hmemory

theorem keeps_pointerAt (encoding : PointerEncoding) (addressSize : UInt8) (place : UInt64) :
    Keeps data body Eq (pointerAt data encoding addressSize place) (encoding.read addressSize place) :=
  (Keeps.check _).andThen fun form => (keeps_value hmemory addressSize form).andThen fun _ =>
    (Keeps.check _).andThen fun _ => .check _

/-- A pointer of a form alone is the same wherever it stands. -/
theorem keeps_pointerAt_formOnly (encoding : PointerEncoding) (addressSize : UInt8) (place : UInt64) :
    Keeps data body Eq (pointerAt data encoding.formOnly addressSize place) (encoding.formOnly.read addressSize 0) := by
  have hread : encoding.formOnly.read addressSize place = encoding.formOnly.read addressSize 0 := by
    rw [PointerEncoding.read, PointerEncoding.read, PointerEncoding.base?_formOnly]
    rfl
  rw [← hread]
  exact keeps_pointerAt hmemory encoding.formOnly addressSize place

/-- **A pointer** is read where what is left of the record says that it stands. -/
theorem keeps_pointer {finish : Nat} (hfinish : body.finish ≤ finish + body.start) (encoding : PointerEncoding)
    (addressSize : UInt8) (address : UInt64) :
    Keeps data body Eq (pointer data encoding addressSize address finish)
      (Field.left >>= fun count => encoding.read addressSize (address + UInt64.ofNat (finish - count))) :=
  (keeps_place hfinish).bind fun _ _ hhere => hhere ▸ keeps_pointerAt hmemory encoding addressSize _

theorem keeps_pointer_formOnly {finish : Nat} (hfinish : body.finish ≤ finish + body.start) (encoding : PointerEncoding)
    (addressSize : UInt8) (address : UInt64) :
    Keeps data body Eq (pointer data encoding.formOnly addressSize address finish)
      (encoding.formOnly.read addressSize 0) := by
  have h : Keeps data body Eq (pointer data encoding.formOnly addressSize address finish)
      (Field.left >>= fun _ => encoding.formOnly.read addressSize 0) :=
    (keeps_place hfinish).bind fun _ _ _ => keeps_pointerAt_formOnly hmemory encoding addressSize _
  exact h

theorem keeps_blockPointer (encoding : PointerEncoding) (addressSize : UInt8) :
    Keeps data body Eq (blockPointer data encoding addressSize) (encoding.formOnly.read addressSize 0) :=
  keeps_left_place fun _ => keeps_pointerAt_formOnly hmemory encoding addressSize _

theorem keeps_block : Keeps data body (PlaceOf data body) (block data) Cfi.block :=
  (keeps_unsigned hmemory).andThen fun length => keeps_split hmemory length.toNat

/-- **The walk over an augmentation block**, letter by letter. -/
theorem keeps_walk (addressSize : UInt8) (found : Option PointerEncoding) (letters : Bytes) :
    Keeps data body Eq (walk data addressSize found letters) (Augmentation.walk addressSize found letters) := by
  induction letters generalizing found with
  | nil => exact .pure rfl
  | cons letter letters ih =>
      unfold walk Augmentation.walk
      split
      · exact (keeps_u8 hmemory).andThen fun _ => ih found
      · split
        · exact (keeps_u8 hmemory).andThen fun byte => (keeps_blockPointer hmemory ⟨byte⟩ addressSize).andThen fun _ => ih found
        · split
          · exact (keeps_u8 hmemory).andThen fun byte => ih (some ⟨byte⟩)
          · split
            · exact ih found
            · exact .pure rfl

theorem keeps_statedAddressSize (flavour : Flavour) (version given : UInt8) :
    Keeps data body Eq (statedAddressSize data flavour version given) (Cfi.statedAddressSize flavour version given) := by
  unfold statedAddressSize Cfi.statedAddressSize
  split
  · exact (keeps_u8 hmemory).andThen fun _ => (keeps_u8 hmemory).andThen fun _ => .pure rfl
  · exact .pure rfl

theorem keeps_statedEncoding (flavour : Flavour) (augmentation : Bytes) (addressSize : UInt8) :
    Keeps data body Eq (statedEncoding data flavour augmentation addressSize)
      (Cfi.statedEncoding flavour augmentation addressSize) := by
  unfold statedEncoding Cfi.statedEncoding
  split
  · refine (keeps_block hmemory).bind fun part bytes hplace => ?_
    have hwalk := keeps_on hplace (keeps_walk hmemory addressSize none augmentation.tail)
    exact hwalk.andThen fun stated => .pure rfl
  · exact .pure rfl

/-- **A common record** whose end in the image comes no sooner than that in the section. -/
theorem keeps_cie (flavour : Flavour) (given : UInt8) (offset : Nat) {imageFinish : Nat}
    (hfinish : body.finish ≤ imageFinish + body.start) :
    Keeps data body Eq (cie data flavour given offset imageFinish) (Cie.read flavour given offset imageFinish) := by
  unfold cie Cie.read
  refine (keeps_u8 hmemory).andThen fun version => ?_
  split
  · refine (keeps_text hmemory).andThen fun augmentation => ?_
    refine (keeps_unsigned hmemory).andThen fun codeAlign => (keeps_signed hmemory).andThen fun dataAlign => ?_
    refine (keeps_unsigned hmemory).andThen fun returnColumn => ?_
    refine (keeps_statedAddressSize hmemory flavour version given).andThen fun addressSize => ?_
    refine (keeps_statedEncoding hmemory flavour augmentation addressSize).andThen fun encoding => ?_
    refine (keeps_place hfinish).bind fun start count hstart => ?_
    subst hstart
    exact .pure rfl
  · exact .refuse _

theorem keeps_skipBlock (stated : Bool) :
    Keeps data body (fun _ _ => True) (skipBlock data stated) (if stated then Cfi.block else pure []) := by
  unfold skipBlock
  split
  · have h : Keeps data body (fun _ _ => True) (block data >>= fun _ => pure ()) (Cfi.block >>= pure) :=
      (keeps_block hmemory).bind fun _ _ _ => .pure trivial
    rwa [bind_pure] at h
  · exact .pure trivial

/-- **A function record**, whose ends in the section and in the image come no sooner than it. -/
theorem keeps_fde (common : Cie) (index offset : Nat) {finish imageFinish : Nat} (address : UInt64)
    (hfinish : body.finish ≤ finish + body.start) (himage : body.finish ≤ imageFinish + body.start) :
    Keeps data body Eq (fde data common index offset finish imageFinish address)
      (Fde.read common index offset finish imageFinish address) := by
  have hread : Fde.read common index offset finish imageFinish address =
      (Field.left >>= fun before =>
        common.encoding.read common.addressSize (address + UInt64.ofNat (finish - before))) >>= fun first =>
      common.encoding.formOnly.read common.addressSize 0 >>= fun length =>
      (if common.hasBlock then Cfi.block else pure []) >>= fun _ =>
      Field.left >>= fun left =>
      pure { cie := index, flavour := common.flavour, offset, first, length,
             instructions := ⟨imageFinish - left, imageFinish⟩ } := by
    unfold Fde.read
    rw [bind_assoc]
    split <;> rfl
  rw [hread, fde]
  refine (keeps_pointer hmemory hfinish _ _ address).andThen fun first => ?_
  refine (keeps_pointer_formOnly hmemory hfinish _ _ address).andThen fun length => ?_
  refine (keeps_skipBlock hmemory common.hasBlock).bind fun _ _ _ => ?_
  refine (keeps_place himage).bind fun start count hstart => ?_
  subst hstart
  exact .pure rfl

end Keeping

end Stepped

/-! ## Whole records -/

/-- The place of a record in its section, behind its length word. -/
def RawRecord.place (r : RawRecord) : Extent := ⟨r.offset + 4, r.finish⟩

/-- A record that stands in a section can be cut out of it. -/
theorem RawRecord.StandsIn.place {bs : Bytes} {r : RawRecord} (h : r.StandsIn bs) : r.place.slice? bs = some r.body := by
  have hfinish : r.finish = r.offset + 4 + r.body.length := rfl
  refine Extent.slice?_eq_some_iff.mpr ⟨⟨?_, h.fits⟩, ?_⟩
  · show r.offset + 4 ≤ r.finish
    omega
  · have hwidth : r.finish - (r.offset + 4) = r.body.length := by omega
    show r.body = (bs.drop (r.offset + 4)).take (r.finish - (r.offset + 4))
    rw [hwidth]
    exact h.body

/-- The common record that an id names is found by its index. -/
theorem SectionInput.named?_eq (input : SectionInput) (records : FrameRecords) (place : Nat) (id : UInt32) :
    (∃ index cie, (input.flavour.target? place id).bind (records.indexOf? input.flavour) = some index ∧
      records.cies[index]? = some cie ∧ input.named? records place id = some (index, cie)) ∨
    ((input.flavour.target? place id).bind (records.indexOf? input.flavour) = none ∧
      input.named? records place id = none) := by
  unfold SectionInput.named?
  cases htarget : input.flavour.target? place id with
  | none => exact .inr ⟨rfl, rfl⟩
  | some offset =>
      cases hindex : records.indexOf? input.flavour offset with
      | none =>
          refine .inr ⟨hindex, ?_⟩
          simp [hindex]
      | some index =>
          obtain ⟨hi, -⟩ := List.findIdx?_eq_some_iff_getElem.mp hindex
          have hcie : records.cies[index]? = some records.cies[index] := List.getElem?_eq_getElem hi
          refine .inl ⟨index, records.cies[index], hindex, hcie, ?_⟩
          simp [hindex, hcie]

/-- **A record** is read in steps, in a section that comes to its end in the image before the last word. -/
theorem Stepped.keeps_entry {data : Bytes} (hmemory : data.length < wordLimit) {input : SectionInput}
    (records : FrameRecords) (r : RawRecord) (hword : input.span.offset + r.finish < wordLimit) :
    Stepped.Keeps data r.place Eq (Stepped.entry data input records r.offset r.place) (input.entry records r) := by
  have hfinish : r.place.finish ≤ r.finish + r.place.start := Nat.le_add_right _ _
  have himage : r.place.finish ≤ input.span.offset + r.finish + r.place.start := by
    show r.finish ≤ input.span.offset + r.finish + (r.offset + 4)
    omega
  unfold Stepped.entry SectionInput.entry
  refine (keeps_u32 hmemory).andThen fun id => .step (inWord?_of_lt hword) ?_
  split
  · exact (keeps_cie hmemory input.flavour input.addressSize r.offset himage).andThen fun _ => .pure rfl
  · rcases input.named?_eq records (r.offset + 4) id with ⟨index, cie, hindex, hcie, hnamed⟩ | ⟨hnone, hnamed⟩
    · have hindex' : (input.flavour.target? r.place.start id).bind (records.indexOf? input.flavour) = some index := hindex
      simp only [hindex', hnamed]
      refine .step hcie ?_
      exact (keeps_fde hmemory cie index r.offset input.span.address hfinish himage).andThen fun _ => .pure rfl
    · have hnone' : (input.flavour.target? r.place.start id).bind (records.indexOf? input.flavour) = none := hnone
      simp only [hnone', hnamed]
      exact .refuse _

/-! ## Sections -/

/-- A word that holds a number is that number. -/
theorem inWord?_eq {n m : Nat} (h : inWord? n = some m) : m = n := by
  unfold LittleEndian.inWord? at h
  split at h
  · exact (Option.some.inj h).symm
  · cases h

/-- An end that is added up is one of a section exactly if it does not come behind the section. -/
theorem inWord?_filter {size : Nat} (hsize : size < wordLimit) (n : Nat) :
    (inWord? n).filter (· ≤ size) = if n ≤ size then some n else none := by
  by_cases h : n ≤ size
  · rw [inWord?_of_lt (Nat.lt_of_le_of_lt h hsize), if_pos h]
    exact if_pos (decide_eq_true h)
  · rw [if_neg h, Option.filter_eq_none_iff]
    intro m hm
    rw [inWord?_eq hm]
    simpa using h

/-- What the loop finds at an offset of a section. -/
inductive Ahead where
  /-- The end of the records. -/
  | nothing
  /-- A length that cannot be right. -/
  | fault (e : Error)
  /-- A record, at this place behind its length word. -/
  | record (place : Extent)

/-- What was done in one record: its place, and the moves made there. -/
structure Visit where
  body : Extent
  moves : List Move
  deriving DecidableEq

namespace Stepped

/-- The beginning of a pass of the loop over the records of a section: the length word at `offset` is looked at when there is
    room for one. -/
def ahead? (bs : Bytes) (offset : Nat) : Option Ahead := do
  let room ← minus? bs.length offset
  if room < 4 then return .nothing
  else do
    let rest : Extent := ⟨offset, bs.length⟩
    let _ ← rest.slice? bs
    let (word, _) ← number bs 4 ⟨rest, rest, []⟩
    match word with
    | .error e => return .fault e
    | .ok length => do
      let start ← inWord? (offset + 4)
      if length = 0 then return .nothing
      else if length = Framing.wideMark then return .fault (.unsupported (.wideRecord offset))
      else match (inWord? (start + length)).filter (· ≤ bs.length) with
        | none => return .fault (.malformed (.recordOverrun offset length bs.length))
        | some finish => return .record ⟨start, finish⟩

/-- A record stands ahead, and the section goes on to its end. -/
theorem ahead?_forward {bs : Bytes} {offset : Nat} {place : Extent} (h : ahead? bs offset = some (.record place)) :
    offset < place.finish ∧ place.finish ≤ bs.length := by
  simp only [ahead?, bind, Option.bind_eq_some_iff] at h
  obtain ⟨room, -, h⟩ := h
  split at h
  · cases h
  · simp only [Option.bind_eq_some_iff] at h
    obtain ⟨-, -, ⟨word, c⟩, -, h⟩ := h
    cases word with
    | error e => cases h
    | ok length =>
        simp only [Option.bind_eq_some_iff] at h
        obtain ⟨start, hstart, h⟩ := h
        split at h
        · cases h
        · split at h
          · cases h
          · split at h
            · cases h
            · rename_i finish hfits
              cases h
              simp only [Option.filter_eq_some_iff, decide_eq_true_eq] at hfits
              have hword := inWord?_eq hstart
              have hword' := inWord?_eq hfits.1
              show offset < finish ∧ finish ≤ bs.length
              omega

/-- **The loop over the records of a section**, from an offset on: reads each and adds it to those read before. -/
def readFrom (bs : Bytes) (input : SectionInput) (offset : Nat) (records : FrameRecords) :
    Option ((Except Error Unit × FrameRecords) × List Visit) :=
  match _ : ahead? bs offset with
  | none => none
  | some .nothing => some ((.ok (), records), [])
  | some (.fault e) => some ((.error e, records), [])
  | some (.record place) => do
      let _ ← place.slice? bs
      let (result, c) ← entry bs input records offset place ⟨place, place, []⟩
      match result with
      | .error e => some ((.error e, records), [⟨place, c.moves⟩])
      | .ok e => do
          let (outcome, visits) ← readFrom bs input place.finish (records.push e)
          some (outcome, ⟨place, c.moves⟩ :: visits)
termination_by bs.length - offset
decreasing_by
  have hforward := ahead?_forward ‹_›
  omega

/-- **A frame section is read** out of an image, in steps. -/
def readSection (records : FrameRecords) (image : Bytes) (input : SectionInput) :
    Option ((Except Error Unit × FrameRecords) × List Visit) := do
  let finish ← inWord? (input.span.offset + input.span.length)
  match (Extent.mk input.span.offset finish).slice? image with
  | none => some ((.error (.malformed .frameSectionOutside), records), [])
  | some bs => readFrom bs input 0 records

end Stepped

/-! ## Passes -/

namespace Stepped

section Passes

variable {bs : Bytes} {offset : Nat} (hmemory : bs.length < wordLimit)
include hmemory

/-- The length word at an offset is read when there is room for it. -/
theorem number_at (hroom : offset + 4 ≤ bs.length) (moves : List Move) :
    ∃ c, number bs 4 ⟨⟨offset, bs.length⟩, ⟨offset, bs.length⟩, moves⟩ = some (.ok (numberAt bs offset 4), c) := by
  have hrest : (Extent.mk offset bs.length).slice? bs = some (bs.drop offset) := by
    refine Extent.slice?_eq_some_iff.mpr ⟨⟨by show offset ≤ bs.length; omega, Nat.le_refl _⟩, ?_⟩
    rw [← List.length_drop, List.take_length]
  have hnumber : Field.number 4 (bs.drop offset) = .ok (numberAt bs offset 4, (bs.drop offset).drop 4) := by
    have htake : Field.take 4 (bs.drop offset) = .ok ((bs.drop offset).take 4, (bs.drop offset).drop 4) :=
      if_pos (by rw [List.length_drop]; omega)
    rw [Field.number, Field.bind_of_ok htake]
    rfl
  obtain ⟨c, -, houtcome⟩ := keeps_number hmemory 4 _ _ (.start hrest moves)
  rw [hnumber] at houtcome
  obtain ⟨n, hread, rfl, -⟩ := houtcome
  exact ⟨c, hread⟩

/-- What the steps of a pass find, by the number in the length word. -/
theorem ahead?_of_room (hroom : offset + 4 ≤ bs.length) {length : Nat} (hlength : numberAt bs offset 4 = length) :
    ahead? bs offset = some (
      if length = 0 then .nothing
      else if length = Framing.wideMark then .fault (.unsupported (.wideRecord offset))
      else if offset + 4 + length ≤ bs.length then .record ⟨offset + 4, offset + 4 + length⟩
      else .fault (.malformed (.recordOverrun offset length bs.length))) := by
  have hle : offset ≤ bs.length := Nat.le_of_add_right_le hroom
  have hlong : ¬ bs.length - offset < 4 := by omega
  have hrest : (Extent.mk offset bs.length).slice? bs = some ((bs.drop offset).take (bs.length - offset)) :=
    if_pos ⟨hle, Nat.le_refl _⟩
  have hstart : inWord? (offset + 4) = some (offset + 4) := inWord?_of_lt (Nat.lt_of_le_of_lt hroom hmemory)
  obtain ⟨c, hnumber⟩ := number_at hmemory hroom []
  rw [hlength] at hnumber
  simp only [ahead?, minus?_of_le hle, Option.bind_eq_bind, Option.bind_some, if_neg hlong, hrest, hnumber, hstart,
    inWord?_filter hmemory]
  split
  · rfl
  · split
    · rfl
    · by_cases hfits : offset + 4 + length ≤ bs.length
      · simp only [if_pos hfits]
        rfl
      · simp only [if_neg hfits]
        rfl

/-- **A pass of the loop sees what the cut of the section has** at its offset. -/
theorem ahead?_cut (hoffset : offset ≤ bs.length) :
    (ahead? bs offset = some .nothing ∧ Framing.cutFrom bs.length offset (bs.drop offset) = ⟨[], none⟩) ∨
    (∃ e, ahead? bs offset = some (.fault e) ∧ Framing.cutFrom bs.length offset (bs.drop offset) = ⟨[], some e⟩) ∨
    ∃ r more, r.StandsIn bs ∧ ahead? bs offset = some (.record r.place) ∧ r.offset = offset ∧
      Framing.cutFrom bs.length r.finish (bs.drop r.finish) = more ∧
      Framing.cutFrom bs.length offset (bs.drop offset) = ⟨r :: more.records, more.fault⟩ := by
  by_cases hroom : offset + 4 ≤ bs.length
  · have hlong : ¬ (bs.drop offset).length < 4 := by rw [List.length_drop]; omega
    have hlength : LittleEndian.toNat ((bs.drop offset).take 4) = numberAt bs offset 4 := rfl
    rw [ahead?_of_room hmemory hroom rfl, Framing.cutFrom, if_neg hlong]
    simp only [hlength]
    generalize numberAt bs offset 4 = length at hlength ⊢
    by_cases hzero : length = 0
    · exact .inl ⟨by rw [if_pos hzero], if_pos hzero⟩
    · by_cases hwide : length = Framing.wideMark
      · exact .inr (.inl ⟨_, by rw [if_neg hzero, if_pos hwide], by rw [if_neg hzero, if_pos hwide]⟩)
      · have hbehind : ((bs.drop offset).drop 4).length < length ↔ ¬ offset + 4 + length ≤ bs.length := by
          rw [List.length_drop, List.length_drop]
          omega
        by_cases hfits : offset + 4 + length ≤ bs.length
        · have hinside : ¬ ((bs.drop offset).drop 4).length < length := fun h => hbehind.mp h hfits
          have hstands := RawRecord.standsIn_of_drop rfl (Nat.le_of_not_lt hlong) hlength.symm (Nat.le_of_not_lt hinside)
          have hfinish : (RawRecord.mk offset (((bs.drop offset).drop 4).take length)).finish = offset + 4 + length := by
            rw [RawRecord.finish, List.length_take_of_le (Nat.le_of_not_lt hinside)]
          have hnext : ((bs.drop offset).drop 4).drop length = bs.drop (offset + 4 + length) := by
            rw [List.drop_drop, List.drop_drop, Nat.add_assoc]
          refine .inr (.inr ⟨_, _, hstands, ?_, rfl, rfl, ?_⟩)
          · rw [if_neg hzero, if_neg hwide, if_pos hfits, RawRecord.place, hfinish]
          · rw [if_neg hzero, if_neg hwide, if_neg hinside, hfinish, hnext]
        · refine .inr (.inl ⟨_, by rw [if_neg hzero, if_neg hwide, if_neg hfits], ?_⟩)
          rw [if_neg hzero, if_neg hwide, if_pos (hbehind.mpr hfits)]
  · have hshort : bs.length - offset < 4 := by omega
    refine .inl ⟨?_, ?_⟩
    · simp only [ahead?, minus?_of_le hoffset, Option.bind_eq_bind, Option.bind_some, if_pos hshort]
      rfl
    · rw [Framing.cutFrom, if_pos (by rwa [List.length_drop])]

end Passes

end Stepped

/-! ## Runs of the loop -/

/-- **A visit of a record**: made where the record stands, with no move out of it. -/
structure Visit.Of (v : Visit) (r : RawRecord) : Prop where
  body : v.body = r.place
  within : ∀ m ∈ v.moves, m.Within v.body

namespace Stepped

section Runs

variable {bs : Bytes} {input : SectionInput} {offset : Nat} {records : FrameRecords}

theorem readFrom_of_nothing (h : ahead? bs offset = some .nothing) :
    readFrom bs input offset records = some ((.ok (), records), []) := by
  rw [readFrom]
  split <;> rename_i hahead <;> rw [h] at hahead <;> cases hahead

theorem readFrom_of_fault {e : Error} (h : ahead? bs offset = some (.fault e)) :
    readFrom bs input offset records = some ((.error e, records), []) := by
  rw [readFrom]
  split <;> rename_i hahead <;> rw [h] at hahead <;> cases hahead
  rfl

section Pass

variable {place : Extent} {body : Bytes} {c : Cursor} (h : ahead? bs offset = some (.record place))
  (hbody : place.slice? bs = some body)
include h hbody

/-- A record that is refused ends the loop. -/
theorem readFrom_of_refused {e : Error}
    (hentry : entry bs input records offset place ⟨place, place, []⟩ = some (.error e, c)) :
    readFrom bs input offset records = some ((.error e, records), [⟨place, c.moves⟩]) := by
  rw [readFrom]
  split <;> rename_i hahead <;> rw [h] at hahead <;> cases hahead
  simp only [hbody, hentry, Option.bind_eq_bind, Option.bind_some]

/-- Behind a record that is read the loop goes on. -/
theorem readFrom_of_read {e : Entry} {outcome : Except Error Unit × FrameRecords} {visits : List Visit}
    (hentry : entry bs input records offset place ⟨place, place, []⟩ = some (.ok e, c))
    (hrest : readFrom bs input place.finish (records.push e) = some (outcome, visits)) :
    readFrom bs input offset records = some (outcome, ⟨place, c.moves⟩ :: visits) := by
  rw [readFrom]
  split <;> rename_i hahead <;> rw [h] at hahead <;> cases hahead
  simp only [hbody, hentry, hrest, Option.bind_eq_bind, Option.bind_some]

end Pass

/-- **The loop follows the cut** of a section, and visits its records in order until one is refused. -/
theorem readFrom_cut (hmemory : bs.length < wordLimit) (hview : input.span.offset + bs.length < wordLimit)
    (hoffset : offset ≤ bs.length) (records : FrameRecords) :
    ∃ visits seen, readFrom bs input offset records =
        some (input.readFraming (Framing.cutFrom bs.length offset (bs.drop offset)) records, visits) ∧
      List.Forall₂ Visit.Of visits seen ∧ seen <+: (Framing.cutFrom bs.length offset (bs.drop offset)).records ∧
      ((input.readFraming (Framing.cutFrom bs.length offset (bs.drop offset)) records).1 = .ok () →
        seen = (Framing.cutFrom bs.length offset (bs.drop offset)).records) := by
  -- over the bytes from the offset on, of which every pass that goes on leaves fewer
  induction hleft : bs.length - offset using Nat.strongRecOn generalizing offset records with
  | ind left ih =>
      rcases ahead?_cut hmemory hoffset with ⟨hahead, hcut⟩ | ⟨e, hahead, hcut⟩ |
        ⟨r, more, hstands, hahead, hplace, hmore, hcut⟩
      · rw [hcut]
        exact ⟨[], [], readFrom_of_nothing hahead, .nil, List.nil_prefix, fun _ => rfl⟩
      · rw [hcut]
        exact ⟨[], [], readFrom_of_fault hahead, .nil, List.nil_prefix, fun _ => rfl⟩
      · subst hplace
        have hforward := r.offset_lt_finish
        have hfits := hstands.fits
        have hword : input.span.offset + r.finish < wordLimit := by omega
        obtain ⟨c, ⟨moves, hmoves, hwithin⟩, houtcome⟩ :=
          keeps_entry hmemory records r hword _ _ (.start hstands.place [])
        have hof : Visit.Of ⟨r.place, c.moves⟩ r := ⟨rfl, fun m hm => hwithin m (by rwa [hmoves] at hm)⟩
        rw [hcut]
        cases hentry : input.entry records r r.body with
        | error e =>
            simp only [hentry] at houtcome
            rw [SectionInput.readFraming_of_refused hentry]
            exact ⟨[⟨r.place, c.moves⟩], [r], readFrom_of_refused hahead hstands.place houtcome, .cons hof .nil,
              ⟨more.records, rfl⟩, fun hread => nomatch hread⟩
        | ok pair =>
            obtain ⟨e, rest⟩ := pair
            simp only [hentry] at houtcome
            obtain ⟨e', hsteps, rfl, -⟩ := houtcome
            obtain ⟨visits, seen, hrun, hvisits, hseen, hall⟩ := ih (bs.length - r.finish) (by omega) hfits
              (records.push e') rfl
            rw [hmore] at hrun hseen hall
            rw [SectionInput.readFraming_of_read hentry]
            exact ⟨⟨r.place, c.moves⟩ :: visits, r :: seen, readFrom_of_read hahead hstands.place hsteps hrun,
              .cons hof hvisits, (List.prefix_cons_inj r).mpr hseen, fun hread => congrArg (r :: ·) (hall hread)⟩

end Runs

end Stepped

/-! ## Main statement -/

/-- **A frame section is read without a step out of bounds.** Every section that lies in an image which memory holds, of either
    flavour and for every address size, is read in steps all of which have a result: no sum leaves the words, no difference is
    below zero, no shift comes to the width of a word, and whatever is cut out lies within that which it is cut out of.
    * The outcome is that of `FrameRecords.readSection`.
    * The records of the section are visited in their order, from the first one on, and all of them when none is refused.
    * Each move over a field of a record, whatever comes of the record later, leaves the end of what was left before, and that
      is the end of the record or of a block in it. -/
theorem readSection_stays_in_records {image : Bytes} {input : SectionInput} (hmemory : image.length < wordLimit)
    (hview : input.span.offset + input.span.length ≤ image.length) (records : FrameRecords) :
    ∃ bs visits seen, input.span.slice? image = some bs ∧
      Stepped.readSection records image input = some (records.readSection image input, visits) ∧
      List.Forall₂ Visit.Of visits seen ∧ seen <+: (Framing.cut bs).records ∧
      ((records.readSection image input).1 = .ok () → seen = (Framing.cut bs).records) := by
  obtain ⟨bs, hslice⟩ : ∃ bs, input.span.slice? image = some bs := ⟨_, if_pos hview⟩
  have hlength := length_slice hslice
  have hend : input.span.offset + bs.length < wordLimit := by omega
  have hread : records.readSection image input = input.readFraming (Framing.cutFrom bs.length 0 (bs.drop 0)) records :=
    SectionInput.readSection_of_slice hslice records
  obtain ⟨visits, seen, hrun, hvisits, hseen, hall⟩ := Stepped.readFrom_cut (by omega) hend (Nat.zero_le _) records
  rw [← hread] at hrun hall
  refine ⟨bs, visits, seen, hslice, ?_, hvisits, hseen, hall⟩
  have hfinish : inWord? (input.span.offset + input.span.length) = some (input.span.offset + input.span.length) :=
    inWord?_of_lt (by omega)
  have hcut : (Extent.mk input.span.offset (input.span.offset + input.span.length)).slice? image = some bs := by
    refine Extent.slice?_eq_some_iff.mpr ⟨⟨Nat.le_add_right _ _, hview⟩, ?_⟩
    rw [Nat.add_sub_cancel_left]
    exact (slice?_eq_some hslice).2
  simp only [Stepped.readSection, hfinish, hcut, Option.bind_eq_bind, Option.bind_some]
  exact hrun

/-- A common record that ends within its first numeral. The record behind it begins with a byte that would end the numeral. -/
def cutShort : Bytes := [7, 0, 0, 0, 0, 0, 0, 0, 1, 0, 0x80, 1, 0, 0, 0, 0]

/-- The numeral is not read to its end. -/
theorem readSection_stays_in_records_cutShort :
    let input : SectionInput := ⟨⟨0, 16, 0⟩, .ehFrame, 8⟩
    cutShort.length < wordLimit ∧ input.span.offset + input.span.length ≤ cutShort.length ∧
      ∃ visits seen, Stepped.readSection .empty cutShort input =
          some ((.error (.malformed (.truncated 1 0)), .empty), visits) ∧
        List.Forall₂ Visit.Of visits seen ∧ seen <+: [⟨0, [0, 0, 0, 0, 1, 0, 0x80]⟩, ⟨11, [0]⟩] := by
  intro input
  have hmemory : cutShort.length < wordLimit := by decide
  have hview : input.span.offset + input.span.length ≤ cutShort.length := by decide
  obtain ⟨bs, visits, seen, hslice, hrun, hvisits, hseen, -⟩ := readSection_stays_in_records hmemory hview .empty
  have hbs : input.span.slice? cutShort = some cutShort := by decide +kernel
  have hread : FrameRecords.empty.readSection cutShort input = (.error (.malformed (.truncated 1 0)), .empty) := by
    decide +kernel
  have hcut : (Framing.cut cutShort).records = [⟨0, [0, 0, 0, 0, 1, 0, 0x80]⟩, ⟨11, [0]⟩] := by decide +kernel
  obtain rfl : cutShort = bs := Option.some.inj (hbs.symm.trans hslice)
  rw [hread] at hrun
  rw [hcut] at hseen
  exact ⟨hmemory, hview, visits, seen, hrun, hvisits, hseen⟩

/-- The moves are those over the id, the version, the text and the first byte of the numeral. -/
example : Stepped.readSection .empty cutShort ⟨⟨0, 16, 0⟩, .ehFrame, 8⟩ =
    some ((.error (.malformed (.truncated 1 0)), .empty),
      [⟨⟨4, 11⟩, [⟨⟨4, 11⟩, ⟨4, 11⟩, ⟨8, 11⟩⟩, ⟨⟨4, 11⟩, ⟨8, 11⟩, ⟨9, 11⟩⟩, ⟨⟨4, 11⟩, ⟨9, 11⟩, ⟨10, 11⟩⟩,
        ⟨⟨4, 11⟩, ⟨10, 11⟩, ⟨11, 11⟩⟩]⟩]) := by decide +kernel

end Unwinder.Cfi
