import Unwinder.Proofs.Numerals

/-!
# `Proofs.FrameWriting` — frame sections as they are written

The inverse of reading: records as values, and the bytes that a section lays them out in. Where the layout leaves a
choice (the length of a numeral, bytes after what the letters of a block describe) the choice is part of the record,
so that every layout of a record is a value of it.

## Contents
- **Pointers.** `PointerForm.spell`, the bytes of a value under each form, and `PointerForm.Fits`, the values it holds.
- **Records.** `CommonRecord` with its augmentation block, `FunctionRecord`.
- **Sections.** `Writer`, with the bytes of records and what has to fit; `Writer.layout` gives the records their places.
- **What should be read.** `Writer.cies` and `Writer.fdes`.
-/

namespace Unwinder.Cfi

/-! ## Pointers -/

namespace PointerForm

/-- The number of a form in the low four bits of an encoding byte. -/
def code : PointerForm → UInt8
  | .absolute => 0x00
  | .unsignedLeb => 0x01
  | .unsigned2 => 0x02
  | .unsigned4 => 0x03
  | .unsigned8 => 0x04
  | .signedLeb => 0x09
  | .signed2 => 0x0a
  | .signed4 => 0x0b
  | .signed8 => 0x0c

/-- The values that a form holds; a LEB128 form is written in `more` groups and one more. -/
def Fits (addressSize : UInt8) (more : Nat) (v : UInt64) : PointerForm → Prop
  | .absolute =>
      (addressSize = 1 ∨ addressSize = 2 ∨ addressSize = 4 ∨ addressSize = 8) ∧
        v.toNat < LittleEndian.limit addressSize.toNat
  | .unsignedLeb => more < Leb128.maxGroups ∧ v.toNat < Leb128.groupLimit (more + 1)
  | .unsigned2 => v.toNat < LittleEndian.limit 2
  | .unsigned4 => v.toNat < LittleEndian.limit 4
  | .unsigned8 => True
  | .signedLeb => more < Leb128.maxGroups ∧ Leb128.HoldsSigned (Leb128.groupLimit (more + 1)) v.toInt64.toInt
  | .signed2 => Leb128.HoldsSigned (LittleEndian.limit 2) v.toInt64.toInt
  | .signed4 => Leb128.HoldsSigned (LittleEndian.limit 4) v.toInt64.toInt
  | .signed8 => True

instance (addressSize : UInt8) (more : Nat) (v : UInt64) (form : PointerForm) :
    Decidable (form.Fits addressSize more v) :=
  match form with
  | .absolute => inferInstanceAs (Decidable (_ ∧ _))
  | .unsignedLeb => inferInstanceAs (Decidable (_ ∧ _))
  | .unsigned2 => inferInstanceAs (Decidable (_ < _))
  | .unsigned4 => inferInstanceAs (Decidable (_ < _))
  | .unsigned8 => inferInstanceAs (Decidable True)
  | .signedLeb => inferInstanceAs (Decidable (_ ∧ _))
  | .signed2 => inferInstanceAs (Decidable (Leb128.HoldsSigned _ _))
  | .signed4 => inferInstanceAs (Decidable (Leb128.HoldsSigned _ _))
  | .signed8 => inferInstanceAs (Decidable True)

/-- The bytes of a value under a form. -/
def spell (addressSize : UInt8) (more : Nat) (v : UInt64) : PointerForm → Bytes
  | .absolute => LittleEndian.ofNat addressSize.toNat v.toNat
  | .unsignedLeb => Leb128.spell more v.toNat
  | .unsigned2 => LittleEndian.ofNat 2 v.toNat
  | .unsigned4 => LittleEndian.ofNat 4 v.toNat
  | .unsigned8 => LittleEndian.ofNat 8 v.toNat
  | .signedLeb => Leb128.spell more (v.toInt64.toInt % Leb128.groupLimit (more + 1)).toNat
  | .signed2 => LittleEndian.ofNat 2 v.toNat
  | .signed4 => LittleEndian.ofNat 4 v.toNat
  | .signed8 => LittleEndian.ofNat 8 v.toNat

end PointerForm

/-- A pointer encoding that can be followed: a form, and whether pointers are counted from their own field. -/
structure Followed where
  form : PointerForm
  relative : Bool

namespace Followed

/-- Addresses stored as they are. -/
def plain : Followed := ⟨.absolute, false⟩

/-- What values are counted from. -/
def base (encoding : Followed) : PointerBase := if encoding.relative then .field else .absolute

/-- The encoding byte. -/
def encoding (encoding : Followed) : PointerEncoding :=
  ⟨encoding.form.code ||| if encoding.relative then 0x10 else 0⟩

/-- What is stored for a pointer whose field has the address `place`. -/
def stored (encoding : Followed) (place v : UInt64) : UInt64 := if encoding.relative then v - place else v

end Followed

/-! ## Records -/

/-- A letter of an augmentation string, with what stands for it in the block. -/
inductive Letter where
  /-- `L`, with an encoding byte that is not looked at. -/
  | lsda (encoding : UInt8)
  /-- `P`, with an encoding byte, of which only the form matters here, and a pointer under that form. -/
  | personality (form : PointerForm) (upper : UInt8) (pointer : UInt64) (more : Nat)
  /-- `R`, with the encoding of the addresses of function records. -/
  | addresses (encoding : Followed)
  /-- `S`. -/
  | signal

namespace Letter

def char : Letter → UInt8
  | .lsda _ => 0x4c
  | .personality _ _ _ _ => 0x50
  | .addresses _ => 0x52
  | .signal => 0x53

def bytes (addressSize : UInt8) : Letter → Bytes
  | .lsda encoding => [encoding]
  | .personality form upper pointer more =>
      [form.code ||| (upper &&& 0xf0)] ++ form.spell addressSize more pointer
  | .addresses encoding => [encoding.encoding.byte]
  | .signal => []

def Fits (addressSize : UInt8) : Letter → Prop
  | .personality form _ pointer more => form.Fits addressSize more pointer
  | _ => True

instance (addressSize : UInt8) (letter : Letter) : Decidable (letter.Fits addressSize) :=
  match letter with
  | .lsda _ => inferInstanceAs (Decidable True)
  | .personality form _ pointer more => inferInstanceAs (Decidable (form.Fits addressSize more pointer))
  | .addresses _ => inferInstanceAs (Decidable True)
  | .signal => inferInstanceAs (Decidable True)

/-- The encoding that a letter states. -/
def stated? : Letter → Option Followed
  | .addresses encoding => some encoding
  | _ => none

end Letter

/-- The augmentation of a common record: the letters after the leading `z`, bytes that no letter stands for, and the
    number of groups of the length in front of the block. -/
structure AugmentationBlock where
  letters : List Letter
  padding : Bytes
  more : Nat

namespace AugmentationBlock

/-- The bytes behind the length of the block. -/
def content (addressSize : UInt8) (b : AugmentationBlock) : Bytes :=
  b.letters.flatMap (·.bytes addressSize) ++ b.padding

def Fits (addressSize : UInt8) (b : AugmentationBlock) : Prop :=
  (∀ letter ∈ b.letters, letter.Fits addressSize) ∧ b.more < Leb128.maxGroups ∧
    (b.content addressSize).length < Leb128.groupLimit (b.more + 1)

instance (addressSize : UInt8) (b : AugmentationBlock) : Decidable (b.Fits addressSize) :=
  inferInstanceAs (Decidable (_ ∧ _ ∧ _))

/-- The encoding that the block states, the last one if there are several. -/
def stated? (b : AugmentationBlock) : Option Followed := (b.letters.filterMap (·.stated?)).getLast?

end AugmentationBlock

/-- A common record to write. -/
structure CommonRecord where
  version : UInt8
  known : version = 1 ∨ version = 3 ∨ version = 4
  /-- None for a record with an empty augmentation string. -/
  block : Option AugmentationBlock
  codeAlign : Leb128.Unsigned
  dataAlign : Leb128.Signed
  returnColumn : Leb128.Unsigned
  /-- The address size and the size of a segment selector, for records that state them. -/
  sizes : UInt8 × UInt8
  instructions : Bytes

/-- The augmentation string. -/
def CommonRecord.augmentation (c : CommonRecord) : Bytes :=
  match c.block with
  | none => []
  | some b => blockLetter :: b.letters.map (·.char)

/-- A function record to write, with the numbers of groups of what is written as a LEB128 numeral. -/
structure FunctionRecord where
  /-- Index of the common record among those before. -/
  cie : Nat
  first : UInt64
  firstMore : Nat
  length : UInt64
  lengthMore : Nat
  /-- The augmentation block, written when the common record has one. -/
  block : Bytes
  blockMore : Nat
  instructions : Bytes

/-- A record to write. -/
inductive FrameRecord where
  | common (c : CommonRecord)
  | function (f : FunctionRecord)

/-- A record with its offset in the section; a function record with the common record it names and the offset of
    that one, if there is such a record. -/
inductive Placed where
  | common (offset : Nat) (c : CommonRecord)
  | function (offset : Nat) (named : Option (Nat × CommonRecord)) (f : FunctionRecord)

/-- The offset of the record in its section. -/
def Placed.offset : Placed → Nat
  | .common offset _ => offset
  | .function offset _ _ => offset

/-- The record without its place. -/
def Placed.record : Placed → FrameRecord
  | .common _ c => .common c
  | .function _ _ f => .function f

/-- The instructions of the record. -/
def Placed.instructions : Placed → Bytes
  | .common _ c => c.instructions
  | .function _ _ f => f.instructions

/-! ## Sections -/

/-- What all records of a section share. -/
structure Writer where
  flavour : Flavour
  /-- The address size of common records that state none. -/
  addressSize : UInt8
  /-- The address that the section is linked at. -/
  address : UInt64

namespace Writer

variable (w : Writer)

/-- Whether a common record states its address size. -/
def StatesSizes (c : CommonRecord) : Prop := w.flavour = .debugFrame ∧ 3 ≤ c.version

instance (c : CommonRecord) : Decidable (w.StatesSizes c) := inferInstanceAs (Decidable (_ ∧ _))

/-- The size of addresses under a common record. -/
def sizeUnder (c : CommonRecord) : UInt8 := if w.StatesSizes c then c.sizes.1 else w.addressSize

/-- The encoding of addresses under a common record. -/
def encodingUnder (c : CommonRecord) : Followed :=
  if w.flavour = .debugFrame then .plain else (c.block.bind (·.stated?)).getD .plain

/-- The address size and the size of a segment selector, where they are stated. -/
def sizeBytes (c : CommonRecord) : Bytes := if w.StatesSizes c then [c.sizes.1, c.sizes.2] else []

/-- The augmentation block of a common record, behind its length. -/
def blockBytes (c : CommonRecord) : Bytes :=
  match c.block with
  | none => []
  | some b => framed b.more (b.content (w.sizeUnder c))

/-- The fields of a common record before its instructions, behind the id word. -/
def commonFields (c : CommonRecord) : Bytes :=
  [c.version] ++ ((c.augmentation ++ [0]) ++ (c.codeAlign.bytes ++ (c.dataAlign.bytes ++ (c.returnColumn.bytes ++
    (w.sizeBytes c ++ w.blockBytes c)))))

/-- The id word of a function record at an offset of the section, for the common record at another offset. -/
def idOf (offset commonOffset : Nat) : Nat :=
  match w.flavour with
  | .debugFrame => commonOffset
  | .ehFrame => offset + 4 - commonOffset

/-- The address of the first pointer of a function record. -/
def placeOf (offset : Nat) : UInt64 := w.address + UInt64.ofNat (offset + 8)

/-- The fields of a function record before its instructions, behind the id word. -/
def functionFields (offset : Nat) (c : CommonRecord) (f : FunctionRecord) : Bytes :=
  let encoding := w.encodingUnder c
  encoding.form.spell (w.sizeUnder c) f.firstMore (encoding.stored (w.placeOf offset) f.first) ++
    (encoding.form.spell (w.sizeUnder c) f.lengthMore f.length ++
      if c.block.isSome then framed f.blockMore f.block else [])

/-- The bytes of a record behind its length word. -/
def body : Placed → Bytes
  | .common _ c => LittleEndian.ofNat 4 w.flavour.mark.toNat ++ (w.commonFields c ++ c.instructions)
  | .function offset (some (commonOffset, c)) f =>
      LittleEndian.ofNat 4 (w.idOf offset commonOffset) ++ (w.functionFields offset c f ++ f.instructions)
  | .function _ none _ => []

/-- The bytes of a record. -/
def bytes (p : Placed) : Bytes := LittleEndian.ofNat 4 (w.body p).length ++ w.body p

/-- What makes a record one that can be written: a function record names a common record before it, and every value
    fits where it goes. -/
def Fits : Placed → Prop
  | .common _ c => ∀ b ∈ c.block, b.Fits (w.sizeUnder c)
  | .function _ none _ => False
  | .function offset (some (_, c)) f =>
      let encoding := w.encodingUnder c
      encoding.form.Fits (w.sizeUnder c) f.firstMore (encoding.stored (w.placeOf offset) f.first) ∧
        encoding.form.Fits (w.sizeUnder c) f.lengthMore f.length ∧
          (c.block.isSome → f.blockMore < Leb128.maxGroups ∧ f.block.length < Leb128.groupLimit (f.blockMore + 1))

instance (p : Placed) : Decidable (w.Fits p) :=
  match p with
  | .common _ c => inferInstanceAs (Decidable (∀ b ∈ c.block, b.Fits (w.sizeUnder c)))
  | .function _ none _ => inferInstanceAs (Decidable False)
  | .function _ (some _) _ => inferInstanceAs (Decidable (_ ∧ _ ∧ _))

/-- A record at an offset, the common records in `commons` standing before it. -/
def place (offset : Nat) (commons : List (Nat × CommonRecord)) : FrameRecord → Placed
  | .common c => .common offset c
  | .function f => .function offset commons[f.cie]? f

/-- The common records that stand before what follows a record. -/
def commonsAfter (offset : Nat) (commons : List (Nat × CommonRecord)) : FrameRecord → List (Nat × CommonRecord)
  | .common c => commons ++ [(offset, c)]
  | .function _ => commons

/-- The records of a section from an offset on. -/
def layoutFrom (offset : Nat) (commons : List (Nat × CommonRecord)) : List FrameRecord → List Placed
  | [] => []
  | r :: rs =>
      place offset commons r ::
        layoutFrom (offset + (w.bytes (place offset commons r)).length) (commonsAfter offset commons r) rs

/-- The records of a section with their places. -/
def layout (records : List FrameRecord) : List Placed := w.layoutFrom 0 [] records

/-- The bytes of records in a row. -/
def write (placed : List Placed) : Bytes := placed.flatMap w.bytes

/-! ## What should be read -/

/-- The stretch of an image that holds the instructions of a record, the section standing at `start`. -/
def extent (start : Nat) (p : Placed) : Extent :=
  let finish := start + p.offset + (w.bytes p).length
  ⟨finish - p.instructions.length, finish⟩

/-- The common record that should be read for one that was written. -/
def cieOf (start offset : Nat) (c : CommonRecord) : Cie where
  flavour := w.flavour
  offset := offset
  version := c.version
  augmentation := c.augmentation
  codeAlign := c.codeAlign.value
  dataAlign := c.dataAlign.value
  returnColumn := c.returnColumn.value
  encoding := (w.encodingUnder c).encoding
  addressSize := w.sizeUnder c
  instructions := w.extent start (.common offset c)

/-- The function record that should be read for one that was written. -/
def fdeOf (start offset : Nat) (named : Option (Nat × CommonRecord)) (f : FunctionRecord) : Fde where
  cie := f.cie
  flavour := w.flavour
  offset := offset
  first := f.first
  length := f.length
  instructions := w.extent start (.function offset named f)

/-- The section as an input, standing at `start` of an image with `length` bytes. -/
def input (start length : Nat) : SectionInput := ⟨⟨start, length, w.address⟩, w.flavour, w.addressSize⟩

/-- The entry that should be read for a record. -/
def entryOf (start : Nat) : Placed → Entry
  | .common offset c => .cie (w.cieOf start offset c)
  | .function offset named f => .fde (w.fdeOf start offset named f)

/-- All common records that should be read. -/
def cies (start : Nat) (placed : List Placed) : List Cie :=
  placed.filterMap fun
    | .common offset c => some (w.cieOf start offset c)
    | .function _ _ _ => none

/-- All function records that should be read. -/
def fdes (start : Nat) (placed : List Placed) : List Fde :=
  placed.filterMap fun
    | .common _ _ => none
    | .function offset named f => some (w.fdeOf start offset named f)

end Writer

end Unwinder.Cfi
