import Unwinder.Image.Layout
import Unwinder.Text.Quoted

/-!
# `Unwinder.Image` — object files and the sections they hold

An image is accepted once its header is known to be sound: the section header table and the section names lie
in the file. After that a section is found by name, and only what has to be looked at can make that fail.

## Contents
- **Spans.** `SectionSpan`, a place in an image with the address it is linked at.
- **Acceptance.** `Image.ofBytes`.
- **Section headers.** `Image.header`, `Image.nameOf`, `Image.spanOf`.
- **Lookup.** `Image.section?`, and `Image.debugSections` for the three sections unwinding is about.
-/

namespace Unwinder

/-! ## Spans -/

/-- A stretch of an image, with the address it is linked at. -/
structure SectionSpan where
  offset : Nat
  length : Nat
  address : UInt64
  deriving DecidableEq

namespace SectionSpan

/-- The span of a section that is not there. -/
def empty : SectionSpan := ⟨0, 0, 0⟩

/-- A span of no bytes. -/
def isEmpty (span : SectionSpan) : Bool := span.length = 0

/-- The bytes of a span, when all of them lie in the image. -/
def slice? (span : SectionSpan) (bs : Bytes) : Option Bytes :=
  if span.offset + span.length ≤ bs.length then some ((bs.drop span.offset).take span.length) else none

end SectionSpan

/-- An accepted object file. -/
structure Image where
  path : Path
  bytes : Bytes
  fileClass : FileClass
  /-- Offset of the section header table. -/
  table : Nat
  entrySize : Nat
  count : Nat
  /-- The section that holds the section names. -/
  names : SectionSpan
  deriving DecidableEq

/-- What a section header says. -/
structure SectionHeader where
  /-- Offset of the section's name among the names. -/
  name : Nat
  address : UInt64
  offset : Nat
  length : Nat
  deriving DecidableEq

namespace SectionHeader

/-- The section header at a place of a file. -/
def ofBytes (fileClass : FileClass) (bs : Bytes) (place : Nat) : SectionHeader :=
  let layout := fileClass.layout
  { name := numberAt bs place 4
    address := UInt64.ofNat (numberAt bs (place + layout.address) layout.word)
    offset := numberAt bs (place + layout.offset) layout.word
    length := numberAt bs (place + layout.length) layout.word }

/-- The span of the section in a file of `size` bytes. -/
def span (h : SectionHeader) (size : Nat) : Except Error SectionSpan :=
  if h.offset + h.length ≤ size then .ok ⟨h.offset, h.length, h.address⟩
  else .error (.malformed (.sectionOutside h.offset h.length size))

end SectionHeader

namespace Image

/-! ## Acceptance -/

/-- The bytes every object file begins with. -/
def magic : Bytes := [0x7f, 0x45, 0x4c, 0x46]

/-- Number of identification bytes at the front of an object file. -/
def identification : Nat := 16

/-- The class that identification bytes name, of a little-endian file. -/
def classOf (bs : Bytes) : Except Error FileClass :=
  if bs.length < identification ∨ bs.take 4 ≠ magic then .error (.malformed .noMagic)
  else
    let order := bs[5]?.getD 0
    let mark := bs[4]?.getD 0
    if order ≠ 1 then .error (.malformed (.byteOrder order))
    else if mark = 1 then .ok .bits32
    else if mark = 2 then .ok .bits64
    else .error (.malformed (.fileClass mark))

/-- Accepts a file whose section header table and section names lie in it. -/
def ofBytes (path : Path) (bs : Bytes) : Except Error Image := do
  let fileClass ← classOf bs
  let layout := fileClass.layout
  if bs.length < layout.fileHeader then throw (.malformed .shortHeader)
  let table := numberAt bs layout.table layout.word
  let entrySize := numberAt bs layout.entrySize 2
  let count := numberAt bs layout.count 2
  let names := numberAt bs layout.names 2
  if table = 0 ∨ count = 0 then throw (.malformed .noSections)
  if entrySize < layout.sectionHeader then throw (.malformed (.smallEntries entrySize))
  let finish := entrySize * count + table
  if LittleEndian.wordLimit ≤ finish then throw (.malformed .tableOverflow)
  if bs.length < finish then throw (.malformed (.tableOutside finish bs.length))
  if count ≤ names then throw (.malformed (.nameTableIndex names count))
  let nameSpan ← (SectionHeader.ofBytes fileClass bs (table + names * entrySize)).span bs.length
  return ⟨path, bs, fileClass, table, entrySize, count, nameSpan⟩

/-- Number of bytes of an image. -/
def size (image : Image) : Nat := image.bytes.length

/-- An image as diagnostics show it. -/
def text (image : Image) : String :=
  "ElfImage \x7b path: " ++ Quoted.quote image.path.text ++ ", size: " ++ toString image.size ++ ", class: "
    ++ image.fileClass.text ++ ", shnum: " ++ toString image.count ++ " \x7d"

/-! ## Section headers -/

/-- The section header with an index. -/
def header (image : Image) (i : Nat) : SectionHeader :=
  SectionHeader.ofBytes image.fileClass image.bytes (image.table + i * image.entrySize)

/-- The bytes of a span of the image. -/
def slice (image : Image) (span : SectionSpan) : Bytes := (image.bytes.drop span.offset).take span.length

/-- The name of a section: from its offset among the names to the next zero byte. -/
def nameOf (image : Image) (h : SectionHeader) : Except Error Bytes :=
  let names := image.slice image.names
  if h.name < names.length then
    let tail := names.drop h.name
    if 0 ∈ tail then .ok (tail.takeWhile (· ≠ 0)) else .error (.malformed .nameOpen)
  else .error (.malformed (.nameOutside h.name))

/-- The span of a section. -/
def spanOf (image : Image) (h : SectionHeader) : Except Error SectionSpan := h.span image.size

/-! ## Lookup -/

/-- The span of the first section of a list that has the name sought. A header before it has to have a
    readable name. -/
def firstNamed (image : Image) (name : Bytes) : List SectionHeader → Except Error (Option SectionSpan)
  | [] => .ok none
  | h :: hs => do
      let found ← image.nameOf h
      if found = name then return some (← image.spanOf h)
      image.firstNamed name hs

/-- The first section with a name, or none. -/
def section? (image : Image) (name : Bytes) : Except Error (Option SectionSpan) :=
  image.firstNamed name ((List.range image.count).map image.header)

/-- The sections that unwinding is about. -/
structure DebugSections where
  info : SectionSpan
  debugFrame : SectionSpan
  ehFrame : SectionSpan
  deriving DecidableEq

/-- The bytes of a section name. -/
def nameBytes (name : String) : Bytes := name.toUTF8.data.toList

/-- The sections with debug information. A file without debug information is refused; frame sections that it
    does not have are empty. -/
def debugSections (image : Image) : Except Error DebugSections := do
  let info ← image.section? (nameBytes ".debug_info")
  match info with
  | none => throw (.noDebugData image.path)
  | some info =>
      let debugFrame ← image.section? (nameBytes ".debug_frame")
      let ehFrame ← image.section? (nameBytes ".eh_frame")
      return ⟨info, debugFrame.getD .empty, ehFrame.getD .empty⟩

end Image

end Unwinder
