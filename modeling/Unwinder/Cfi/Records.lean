import Unwinder.Cfi.PointerEncoding
import Unwinder.Image

/-!
# `Unwinder.Cfi.Records` — the records of call frame information

A frame section holds common records (CIEs), each with what a group of functions shares, and function records
(FDEs), each with the code range of a function and a program for its rows.

## Contents
- **Stretches.** `Extent`, the place of a program in an image.
- **Records.** `Flavour`, `Cie`, `Fde`, and the code range of a function with `Fde.covers`.
- **Record lists.** `FrameRecords`, the records of a module; function records name common ones by index.
-/

namespace Unwinder.Cfi

/-! ## Stretches -/

/-- A stretch of an image, from `start` to just before `finish`. -/
structure Extent where
  start : Nat
  finish : Nat
  deriving DecidableEq

/-- The bytes of a stretch, when it lies in the image. -/
def Extent.slice? (e : Extent) (bs : Bytes) : Option Bytes :=
  if e.start ≤ e.finish ∧ e.finish ≤ bs.length then some ((bs.drop e.start).take (e.finish - e.start)) else none

/-! ## Records -/

/-- The two kinds of frame section. They differ in how a common record is marked and in how a function record
    names it. -/
inductive Flavour where
  /-- Common records are marked by 0; function records point back from their id word. -/
  | ehFrame
  /-- Common records are marked by the largest id; function records hold section offsets. -/
  | debugFrame
  deriving DecidableEq

/-- The name of a frame section. -/
def Flavour.name : Flavour → String
  | .ehFrame => "eh_frame"
  | .debugFrame => "debug_frame"

/-- A common record. -/
structure Cie where
  flavour : Flavour
  /-- Offset of the record's length word in its section. -/
  offset : Nat
  version : UInt8
  /-- The augmentation string. Only a leading `z` changes the layout of records. -/
  augmentation : Bytes
  /-- What advances of the location are multiplied by. -/
  codeAlign : UInt64
  /-- What scaled offsets are multiplied by. -/
  dataAlign : Int64
  /-- The column of the return address, which need not be that of a machine register. -/
  returnColumn : UInt64
  /-- How function records store code addresses. -/
  encoding : PointerEncoding
  addressSize : UInt8
  /-- The initial instructions, which make the first row of every function. -/
  instructions : Extent
  deriving DecidableEq

/-- The letter `z`, which gives a record an augmentation block with its length in front. -/
def blockLetter : UInt8 := 0x7a

/-- Whether an augmentation string begins with the letter of augmentation blocks. -/
def hasBlock (augmentation : Bytes) : Bool := augmentation.head? = some blockLetter

/-- Whether the record and its function records have augmentation blocks. -/
def Cie.hasBlock (cie : Cie) : Bool := Cfi.hasBlock cie.augmentation

/-- A function record. -/
structure Fde where
  /-- Index of the common record. -/
  cie : Nat
  flavour : Flavour
  /-- Offset of the record's length word in its section. -/
  offset : Nat
  /-- The first address of the code covered. -/
  first : UInt64
  /-- The number of bytes of code covered. -/
  length : UInt64
  /-- The instructions that make the rows. -/
  instructions : Extent
  deriving DecidableEq

namespace Fde

/-- The address after the code covered, or the largest address for code that reaches past it. -/
def last (fde : Fde) : UInt64 :=
  if fde.first.toNat + fde.length.toNat < LittleEndian.wordLimit then fde.first + fde.length
  else 0xffffffffffffffff

/-- Whether the code of an address is covered. -/
def covers (fde : Fde) (pc : UInt64) : Bool := fde.first ≤ pc && pc < fde.last

end Fde

/-! ## Record lists -/

/-- The frame records of a module, in the order they were read. -/
structure FrameRecords where
  cies : List Cie
  fdes : List Fde
  deriving DecidableEq

/-- A frame record. -/
inductive Entry where
  | cie (record : Cie)
  | fde (record : Fde)
  deriving DecidableEq

namespace FrameRecords

/-- No records. -/
def empty : FrameRecords := ⟨[], []⟩

/-- Adds a record at the end. -/
def push (records : FrameRecords) : Entry → FrameRecords
  | .cie record => { records with cies := records.cies ++ [record] }
  | .fde record => { records with fdes := records.fdes ++ [record] }

/-- The index of the first common record that stands at an offset of a section. -/
def indexOf? (records : FrameRecords) (flavour : Flavour) (offset : Nat) : Option Nat :=
  records.cies.findIdx? fun cie => cie.flavour = flavour && cie.offset = offset

/-- The first function record that covers an address. -/
def covering? (records : FrameRecords) (pc : UInt64) : Option Fde := records.fdes.find? (·.covers pc)

/-- The common record of a function record. -/
def cieOf (records : FrameRecords) (fde : Fde) : Except Error Cie :=
  match records.cies[fde.cie]? with
  | some cie => .ok cie
  | none => .error (.malformed (.orphan fde.offset))

end FrameRecords

end Unwinder.Cfi
