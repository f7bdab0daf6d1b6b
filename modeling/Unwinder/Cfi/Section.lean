import Unwinder.Cfi.Framing
import Unwinder.Cfi.Records

/-!
# `Unwinder.Cfi.Section` — reading the records of a frame section

A section's records are read one after the other and added to those read before. A record that cannot be read
ends the reading; what was read before it stays.

## Contents
- **Augmentation blocks.** `Augmentation.encoding`, the pointer encoding a block states.
- **Common records.** `Cie.read`.
- **Function records.** `Fde.read`, and `Flavour.target?` for the common record an id names.
- **Sections.** `SectionInput.entry` reads a record of either kind, `FrameRecords.readSection` a whole section.
-/

namespace Unwinder.Cfi

/-! ## Augmentation blocks -/

/-- A block of bytes behind its length. -/
def block : Field Bytes := do
  let length ← Leb128.unsigned
  Field.take length.toNat

namespace Augmentation

/-- The pointer encoding of an augmentation block, from the letters that describe the block. A letter `R`
    stands for the encoding sought, `L` for another one, `P` for one with a pointer stored under it, and `S` for
    nothing; what any other letter stands for is unknown, so that the walk ends there. -/
def walk (addressSize : UInt8) (found : Option PointerEncoding) : Bytes → Field (Option PointerEncoding)
  | [] => return found
  | letter :: letters =>
      if letter = 0x4c then do
        let _ ← Field.u8
        walk addressSize found letters
      else if letter = 0x50 then do
        let byte ← Field.u8
        let _ ← (PointerEncoding.mk byte).formOnly.read addressSize 0
        walk addressSize found letters
      else if letter = 0x52 then do
        let byte ← Field.u8
        walk addressSize (some ⟨byte⟩) letters
      else if letter = 0x53 then walk addressSize found letters
      else return found

/-- The pointer encoding that the block of an augmentation string states. -/
def encoding (augmentation : Bytes) (addressSize : UInt8) (bs : Bytes) : Except Error (Option PointerEncoding) :=
  (walk addressSize none augmentation.tail bs).map (·.1)

end Augmentation

/-! ## Common records -/

/-- The versions of common records that are read. -/
def knownVersion (version : UInt8) : Bool := version = 1 || version = 3 || version = 4

theorem knownVersion_iff {version : UInt8} :
    knownVersion version = true ↔ version = 1 ∨ version = 3 ∨ version = 4 := by
  simp [knownVersion, or_assoc]

/-- The address size of a common record. From version 3 on, records of the debug flavour state it, with the
    size of a segment selector after it. -/
def statedAddressSize (flavour : Flavour) (version given : UInt8) : Field UInt8 :=
  if flavour = .debugFrame ∧ 3 ≤ version then do
    let size ← Field.u8
    let _ ← Field.u8
    return size
  else return given

/-- The pointer encoding of a common record. Addresses of the debug flavour are never encoded. -/
def statedEncoding (flavour : Flavour) (augmentation : Bytes) (addressSize : UInt8) : Field PointerEncoding :=
  if hasBlock augmentation then do
    let bytes ← block
    let stated ← Field.check (Augmentation.encoding augmentation addressSize bytes)
    return if flavour = .debugFrame then .absolute else stated.getD .absolute
  else return .absolute

/-- The common record after its id word. The record stands at `offset` of its section and ends at
    `imageFinish` of the image. -/
def Cie.read (flavour : Flavour) (given : UInt8) (offset imageFinish : Nat) : Field Cie := do
  let version ← Field.u8
  if knownVersion version then do
    let augmentation ← Field.text
    let codeAlign ← Leb128.unsigned
    let dataAlign ← Leb128.signed
    let returnColumn ← Leb128.unsigned
    let addressSize ← statedAddressSize flavour version given
    let encoding ← statedEncoding flavour augmentation addressSize
    let left ← Field.left
    return { flavour, offset, version, augmentation, codeAlign, dataAlign, returnColumn, encoding, addressSize,
             instructions := ⟨imageFinish - left, imageFinish⟩ }
  else Field.refuse (.malformed (.cieVersion version))

/-! ## Function records -/

namespace Flavour

/-- The id that marks a common record. -/
def mark : Flavour → UInt32
  | .ehFrame => 0
  | .debugFrame => 0xffffffff

/-- The section offset of the common record that an id names, the id standing at `place`. -/
def target? (flavour : Flavour) (place : Nat) (id : UInt32) : Option Nat :=
  match flavour with
  | .debugFrame => some id.toNat
  | .ehFrame => if id.toNat ≤ place then some (place - id.toNat) else none

end Flavour

/-- The function record after its id word. The record ends at `finish` of its section, which is linked at
    `address`, and at `imageFinish` of the image. The length of the code is never counted from anything. -/
def Fde.read (cie : Cie) (index offset finish imageFinish : Nat) (address : UInt64) : Field Fde := do
  let before ← Field.left
  let first ← cie.encoding.read cie.addressSize (address + UInt64.ofNat (finish - before))
  let length ← cie.encoding.formOnly.read cie.addressSize 0
  let _ ← if cie.hasBlock then block else pure []
  let left ← Field.left
  return { cie := index, flavour := cie.flavour, offset, first, length,
           instructions := ⟨imageFinish - left, imageFinish⟩ }

/-! ## Sections -/

/-- A frame section to read: its place, its flavour, and the address size of records that state none. -/
structure SectionInput where
  span : SectionSpan
  flavour : Flavour
  addressSize : UInt8
  deriving DecidableEq

namespace SectionInput

/-- The index of the common record that an id at `place` names, and the record. -/
def named? (input : SectionInput) (records : FrameRecords) (place : Nat) (id : UInt32) : Option (Nat × Cie) := do
  let offset ← input.flavour.target? place id
  let index ← records.indexOf? input.flavour offset
  let cie ← records.cies[index]?
  return (index, cie)

/-- Reads a record, with the records before it at hand. -/
def entry (input : SectionInput) (records : FrameRecords) (r : RawRecord) : Field Entry := do
  let id ← Field.u32
  let imageFinish := input.span.offset + r.finish
  if id = input.flavour.mark then
    return .cie (← Cie.read input.flavour input.addressSize r.offset imageFinish)
  else match input.named? records (r.offset + 4) id with
    | some (index, cie) => return .fde (← Fde.read cie index r.offset r.finish imageFinish input.span.address)
    | none => Field.refuse (.malformed (.unknownCie r.offset id.toNat))

/-- Reads records in order and adds them to those read before, up to the first that cannot be read. -/
def addRecords (input : SectionInput) : List RawRecord → FrameRecords → Except Error Unit × FrameRecords
  | [], records => (.ok (), records)
  | r :: rs, records =>
      match input.entry records r r.body with
      | .ok (e, _) => input.addRecords rs (records.push e)
      | .error e => (.error e, records)

end SectionInput

/-- Reads a frame section of an image and adds its records to those read before. A record that cannot be read is
    reported before a fault in the lengths that come after it. -/
def FrameRecords.readSection (records : FrameRecords) (image : Bytes) (input : SectionInput) :
    Except Error Unit × FrameRecords :=
  match input.span.slice? image with
  | none => (.error (.malformed .frameSectionOutside), records)
  | some bs =>
      let framing := Framing.cut bs
      match input.addRecords framing.records records with
      | (.ok (), after) => (match framing.fault with | none => .ok () | some e => .error e, after)
      | failed => failed

end Unwinder.Cfi
