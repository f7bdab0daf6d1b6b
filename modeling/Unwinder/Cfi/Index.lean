import Unwinder.Cfi.Section

/-!
# `Unwinder.Cfi.Index` — the call frame information of an image

The frame records of a module are read once, from `.eh_frame` and then from `.debug_frame`. An image whose
records cannot be used is indexed without any: only its sampled frames can then be described.
-/

namespace Unwinder.Cfi

/-- Reads a frame section, unless it is empty. -/
def FrameRecords.readIfPresent (records : FrameRecords) (image : Bytes) (input : SectionInput) :
    Except Error FrameRecords :=
  if input.span.isEmpty then .ok records
  else match records.readSection image input with
    | (.ok (), records) => .ok records
    | (.error e, _) => .error e

/-- The frame records of an image. An image without function records is refused. -/
def FrameRecords.ofImage (image : Image) (sections : Image.DebugSections) : Except Error FrameRecords := do
  let addressSize := image.fileClass.addressSize
  let records ← FrameRecords.empty.readIfPresent image.bytes ⟨sections.ehFrame, .ehFrame, addressSize⟩
  let records ← records.readIfPresent image.bytes ⟨sections.debugFrame, .debugFrame, addressSize⟩
  if records.fdes.isEmpty then throw (.noDebugData image.path) else return records

/-- The debug sections of an image and the frame records read from them. -/
structure FrameIndex where
  sections : Image.DebugSections
  records : FrameRecords
  deriving DecidableEq

namespace FrameIndex

/-- Indexes an image. Missing debug information is an error; frame records that are absent, malformed or not
    supported leave the index without any. -/
def ofImage (image : Image) : Except Error FrameIndex := do
  let sections ← image.debugSections
  match FrameRecords.ofImage image sections with
  | .ok records => return ⟨sections, records⟩
  | .error (.noDebugData _) => return ⟨sections, .empty⟩
  | .error (.malformed _) => return ⟨sections, .empty⟩
  | .error (.unsupported _) => return ⟨sections, .empty⟩
  | .error e => throw e

/-- Whether any function has a record. -/
def hasRecords (index : FrameIndex) : Bool := !index.records.fdes.isEmpty

end FrameIndex

end Unwinder.Cfi
