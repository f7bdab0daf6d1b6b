import Mathlib.Control.Monad.Basic
import Unwinder.Proofs.Faults
import Unwinder.Proofs.Images.Layouts

/-!
# `Proofs.Images.Acceptance` — an accepted file can be read without looking back

A file is accepted by a few inequalities about its headers, checked once. Whatever is read of it later on is read without
asking where the file ends or whether a sum still fits a machine word. Here the same reading is done with every step
checked. Of an accepted file no check ever fails, however the numbers in its headers were chosen.

## Contents
- **Checked reading.** `numberAt?`, `SectionHeader.ofBytes?` and `Image.header?`, next to the readers without checks.
- **Checks in sequence.** When computations that can fail succeed.
- **Files.** `Acceptable` says on the bytes alone which files are accepted, and `ofBytes_eq_ok` as which images.
- **Spans.** `SectionSpan.Readable`, a span whose bytes can be taken out of an image, and where the spans of a lookup lie.
- **Main statement.** `Image.Safe` of every accepted file (`accepted_files_are_safe`).
-/

namespace Unwinder

open LittleEndian (inWord? inWord?_of_lt wordLimit)

/-! ## Checked reading -/

/-- The number at a place, with every step checked: a machine word holds the place behind the number, and the number does
    not reach past the end. -/
def numberAt? (bs : Bytes) (place width : Nat) : Option Nat := do
  let finish ← inWord? (place + width)
  if finish ≤ bs.length then some (numberAt bs place width) else none

theorem numberAt?_of_le {bs : Bytes} {place width : Nat} (hinside : place + width ≤ bs.length)
    (hword : place + width < wordLimit) : numberAt? bs place width = some (numberAt bs place width) := by
  rw [numberAt?, inWord?_of_lt hword]
  exact if_pos hinside

/-- The section header at a place of a file, with every step checked. -/
def SectionHeader.ofBytes? (c : FileClass) (bs : Bytes) (place : Nat) : Option SectionHeader := do
  let name ← numberAt? bs place 4
  let address ← numberAt? bs (← inWord? (place + c.layout.address)) c.layout.word
  let offset ← numberAt? bs (← inWord? (place + c.layout.offset)) c.layout.word
  let length ← numberAt? bs (← inWord? (place + c.layout.length)) c.layout.word
  return ⟨name, UInt64.ofNat address, offset, length⟩

/-- The section header with an index, with every step checked. -/
def Image.header? (image : Image) (i : Nat) : Option SectionHeader := do
  let before ← inWord? (i * image.entrySize)
  let place ← inWord? (image.table + before)
  SectionHeader.ofBytes? image.fileClass image.bytes place

/-- **The fields of a section header** that are read lie in the least space that a header has. -/
theorem FileClass.fields_le (c : FileClass) :
    4 ≤ c.layout.sectionHeader ∧ c.layout.address + c.layout.word ≤ c.layout.sectionHeader ∧
      c.layout.offset + c.layout.word ≤ c.layout.sectionHeader ∧
      c.layout.length + c.layout.word ≤ c.layout.sectionHeader := by
  cases c <;> decide

/-- **A header that lies in a file is read with no check failing.** -/
theorem SectionHeader.ofBytes?_of_le {c : FileClass} {bs : Bytes} {place : Nat}
    (hinside : place + c.layout.sectionHeader ≤ bs.length) (hword : place + c.layout.sectionHeader < wordLimit) :
    SectionHeader.ofBytes? c bs place = some (SectionHeader.ofBytes c bs place) := by
  obtain ⟨hname, haddress, hoffset, hlength⟩ := c.fields_le
  have hfirst : numberAt? bs place 4 = some (numberAt bs place 4) := numberAt?_of_le (by omega) (by omega)
  have hfield : ∀ {offset : Nat}, offset + c.layout.word ≤ c.layout.sectionHeader →
      inWord? (place + offset) = some (place + offset) ∧
        numberAt? bs (place + offset) c.layout.word = some (numberAt bs (place + offset) c.layout.word) := by
    intro offset hfits
    exact ⟨inWord?_of_lt (by omega), numberAt?_of_le (by omega) (by omega)⟩
  simp only [ofBytes?, ofBytes, hfirst, hfield haddress, hfield hoffset, hfield hlength, Option.bind_eq_bind,
    Option.bind_some, Option.pure_def]

/-! ## Checks in sequence -/

namespace Checks

variable {α β : Type} {e : Error}

theorem bind_eq_ok {first : Except Error α} {next : α → Except Error β} {b : β} :
    first >>= next = .ok b ↔ ∃ a, first = .ok a ∧ next a = .ok b := by
  cases first <;> simp [bind, Except.bind]

/-- Nothing comes after a failure. -/
theorem error_bind {next : α → Except Error β} : Except.error e >>= next = .error e := rfl

/-- A check that fails ends a computation. -/
theorem check_eq_ok {p : Prop} [Decidable p] {rest : Except Error α} {a : α} :
    (if p then .error e else rest) = .ok a ↔ ¬ p ∧ rest = .ok a := by
  by_cases hp : p <;> simp [hp]

end Checks

/-! ## Files -/

namespace FileClass

/-- Offset of the section header table that a file of the class states. -/
def tableIn (c : FileClass) (bs : Bytes) : Nat := numberAt bs c.layout.table c.layout.word

/-- Size of an entry of the table. -/
def entrySizeIn (c : FileClass) (bs : Bytes) : Nat := numberAt bs c.layout.entrySize 2

/-- Number of entries of the table. -/
def countIn (c : FileClass) (bs : Bytes) : Nat := numberAt bs c.layout.count 2

/-- Index of the section that holds the names. -/
def namesIn (c : FileClass) (bs : Bytes) : Nat := numberAt bs c.layout.names 2

/-- The header of the section that holds the names. -/
def namesHeaderIn (c : FileClass) (bs : Bytes) : SectionHeader :=
  SectionHeader.ofBytes c bs (c.tableIn bs + c.namesIn bs * c.entrySizeIn bs)

/-- The image that a file of the class is accepted as. -/
def imageOf (c : FileClass) (path : Path) (bs : Bytes) : Image :=
  ⟨path, bs, c, c.tableIn bs, c.entrySizeIn bs, c.countIn bs,
    ⟨(c.namesHeaderIn bs).offset, (c.namesHeaderIn bs).length, (c.namesHeaderIn bs).address⟩⟩

/-- **The identification of a file**: sixteen bytes with the magic number in front, then the mark of the class and that of
    the byte order, which has to be lowest byte first. -/
structure Identifies (c : FileClass) (bs : Bytes) : Prop where
  identified : Image.identification ≤ bs.length
  magic : Image.magic <+: bs
  mark : bs[4]? = some (UInt8.ofNat c.mark)
  byteOrder : bs[5]? = some 1

end FileClass

/-- **A file that is accepted**, by its bytes alone: it is identified, its file header is there as a whole, and the section
    header table and the names lie in it. -/
structure Acceptable (bs : Bytes) (c : FileClass) : Prop where
  identifies : c.Identifies bs
  fileHeader : c.layout.fileHeader ≤ bs.length
  tablePlace : c.tableIn bs ≠ 0
  entries : c.countIn bs ≠ 0
  entryHolds : c.layout.sectionHeader ≤ c.entrySizeIn bs
  tableWord : c.entrySizeIn bs * c.countIn bs + c.tableIn bs < wordLimit
  tableInside : c.entrySizeIn bs * c.countIn bs + c.tableIn bs ≤ bs.length
  namesIndex : c.namesIn bs < c.countIn bs
  namesInside : (c.namesHeaderIn bs).offset + (c.namesHeaderIn bs).length ≤ bs.length

theorem SectionHeader.span_eq_ok {h : SectionHeader} {size : Nat} {span : SectionSpan} :
    h.span size = .ok span ↔ h.offset + h.length ≤ size ∧ span = ⟨h.offset, h.length, h.address⟩ := by
  rw [SectionHeader.span]
  split
  · rename_i hinside
    simp [hinside, eq_comm]
  · rename_i houtside
    simp [houtside]

namespace Image

theorem classOf_eq_ok {bs : Bytes} {c : FileClass} : classOf bs = .ok c ↔ c.Identifies bs := by
  unfold classOf
  simp only [Checks.check_eq_ok]
  constructor
  · rintro ⟨hfront, horder, hmark⟩
    obtain ⟨hlong, hmagic⟩ := not_or.mp hfront
    have hlength : identification ≤ bs.length := Nat.le_of_not_lt hlong
    have hprefix : magic <+: bs := List.prefix_iff_eq_take.mpr (Decidable.not_not.mp hmagic).symm
    -- a missing byte counts as zero, and no mark is zero
    have hbyte : ∀ {k : Nat} {b : UInt8}, b ≠ 0 → bs[k]?.getD 0 = b → bs[k]? = some b := by
      intro k b hne hb
      cases hk : bs[k]? with
      | none =>
          rw [hk] at hb
          exact absurd hb.symm hne
      | some a =>
          rw [hk] at hb
          exact congrArg some hb
    have hbyteOrder := hbyte (by decide) (Decidable.not_not.mp horder)
    split at hmark
    · rename_i hone
      cases hmark
      exact ⟨hlength, hprefix, hbyte (by decide) hone, hbyteOrder⟩
    · split at hmark
      · rename_i htwo
        cases hmark
        exact ⟨hlength, hprefix, hbyte (by decide) htwo, hbyteOrder⟩
      · cases hmark
  · rintro ⟨hlength, hmagic, hmark, horder⟩
    refine ⟨?_, ?_, ?_⟩
    · rintro (hshort | hother)
      · exact Nat.not_lt_of_le hlength hshort
      · exact hother (List.prefix_iff_eq_take.mp hmagic).symm
    · rw [horder]
      exact fun h => h rfl
    · rw [hmark]
      cases c <;> rfl

/-- **Which files are accepted, and as which images.** -/
theorem ofBytes_eq_ok {path : Path} {bs : Bytes} {image : Image} :
    ofBytes path bs = .ok image ↔ ∃ c, Acceptable bs c ∧ image = c.imageOf path bs := by
  unfold ofBytes
  simp only [throw, throwThe, MonadExceptOf.throw, Checks.error_bind, Checks.check_eq_ok, Checks.bind_eq_ok,
    classOf_eq_ok, SectionHeader.span_eq_ok, pure, Except.pure, Except.ok.injEq]
  constructor
  · rintro ⟨c, hidentifies, hheader, hsome, hholds, hword, hinside, hindex, _, ⟨hnames, rfl⟩, rfl⟩
    obtain ⟨hplace, hentries⟩ := not_or.mp hsome
    exact ⟨c, ⟨hidentifies, Nat.le_of_not_lt hheader, hplace, hentries, Nat.le_of_not_lt hholds,
      Nat.lt_of_not_le hword, Nat.le_of_not_lt hinside, Nat.lt_of_not_le hindex, hnames⟩, rfl⟩
  · rintro ⟨c, h, rfl⟩
    refine ⟨c, h.identifies, Nat.not_lt_of_le h.fileHeader, not_or.mpr ⟨h.tablePlace, h.entries⟩,
      Nat.not_lt_of_le h.entryHolds, Nat.not_le_of_lt h.tableWord, Nat.not_lt_of_le h.tableInside,
      Nat.not_le_of_lt h.namesIndex, _, ⟨h.namesInside, rfl⟩, rfl⟩

end Image

namespace Acceptable

variable {bs : Bytes} {c : FileClass}

/-- **Every entry of the table lies in the file.** -/
theorem entry_le (h : Acceptable bs c) {i : Nat} (hi : i < c.countIn bs) :
    c.tableIn bs + i * c.entrySizeIn bs + c.layout.sectionHeader ≤
      c.entrySizeIn bs * c.countIn bs + c.tableIn bs := by
  have hholds := h.entryHolds
  have hnext : (i + 1) * c.entrySizeIn bs ≤ c.entrySizeIn bs * c.countIn bs := by
    rw [Nat.mul_comm (c.entrySizeIn bs)]
    exact Nat.mul_le_mul_right _ hi
  rw [Nat.add_mul, Nat.one_mul] at hnext
  omega

/-- **No check fails when a header of an accepted file is read.** -/
theorem header? (h : Acceptable bs c) (path : Path) {i : Nat} (hi : i < c.countIn bs) :
    (c.imageOf path bs).header? i = some ((c.imageOf path bs).header i) := by
  have hentry := h.entry_le hi
  have hword := h.tableWord
  have hinside := h.tableInside
  have hplace : inWord? (c.tableIn bs + i * c.entrySizeIn bs) = some (c.tableIn bs + i * c.entrySizeIn bs) :=
    inWord?_of_lt (by omega)
  have hbefore : inWord? (i * c.entrySizeIn bs) = some (i * c.entrySizeIn bs) := inWord?_of_lt (by omega)
  have hheader : SectionHeader.ofBytes? c bs (c.tableIn bs + i * c.entrySizeIn bs) =
      some (SectionHeader.ofBytes c bs (c.tableIn bs + i * c.entrySizeIn bs)) :=
    SectionHeader.ofBytes?_of_le (by omega) (by omega)
  simp only [Image.header?, FileClass.imageOf, hbefore, hplace, hheader, Option.bind_eq_bind, Option.bind_some,
    Image.header]

end Acceptable

/-! ## Spans -/

/-- **A span whose bytes can be taken out of an image**: it lies in the image, in a file that memory holds a machine word
    holds its end, and as many bytes as it says are cut out, by a reader that looks where the image ends and by one that
    does not. -/
structure SectionSpan.Readable (span : SectionSpan) (image : Image) : Prop where
  inside : span.offset + span.length ≤ image.size
  finish : image.size < wordLimit → inWord? (span.offset + span.length) = some (span.offset + span.length)
  cut : span.slice? image.bytes = some (image.slice span)
  length : (image.slice span).length = span.length

theorem SectionSpan.readable_of_le {span : SectionSpan} {image : Image}
    (h : span.offset + span.length ≤ image.size) : span.Readable image := by
  refine ⟨h, fun hsize => inWord?_of_lt (Nat.lt_of_le_of_lt h hsize), if_pos h, ?_⟩
  have hsize : span.offset + span.length ≤ image.bytes.length := h
  rw [Image.slice, List.length_take, List.length_drop]
  omega

namespace Image

variable {image : Image}

/-- The span of a missing section can be read, of whatever image. -/
theorem readable_empty : SectionSpan.empty.Readable image := SectionSpan.readable_of_le (Nat.zero_le _)

/-- **A section that is found can be read.** -/
theorem readable_of_section? {name : Bytes} {span : SectionSpan} (h : image.section? name = .ok (some span)) :
    span.Readable image := by
  unfold section? at h
  generalize (List.range image.count).map image.header = headers at h
  -- along the headers: the search answers with the span of one of them, or goes on
  induction headers with
  | nil => cases h
  | cons header headers ih =>
      rw [firstNamed] at h
      obtain ⟨found, -, h⟩ := Checks.bind_eq_ok.mp h
      split at h
      · simp only [Checks.bind_eq_ok, pure, Except.pure, Except.ok.injEq, Option.some.injEq] at h
        obtain ⟨_, hspan, rfl⟩ := h
        obtain ⟨hinside, rfl⟩ := SectionHeader.span_eq_ok.mp hspan
        exact SectionSpan.readable_of_le hinside
      · exact ih h

/-- A section that need not be there can be read, as an empty one if it is not. -/
theorem readable_getD {name : Bytes} {found : Option SectionSpan} (h : image.section? name = .ok found) :
    (found.getD .empty).Readable image := by
  cases found with
  | none => exact readable_empty
  | some span => exact readable_of_section? h

/-- **The sections of a module's frame records can be read.** -/
theorem readable_of_debugSections {sections : DebugSections} (h : image.debugSections = .ok sections) :
    sections.info.Readable image ∧ sections.debugFrame.Readable image ∧ sections.ehFrame.Readable image := by
  unfold debugSections at h
  obtain ⟨info, hinfo, h⟩ := Checks.bind_eq_ok.mp h
  cases info with
  | none => cases h
  | some info =>
      simp only [Checks.bind_eq_ok, pure, Except.pure, Except.ok.injEq] at h
      obtain ⟨debugFrame, hdebugFrame, ehFrame, hehFrame, rfl⟩ := h
      exact ⟨readable_of_section? hinfo, readable_getD hdebugFrame, readable_getD hehFrame⟩

end Image

/-! ## Main statement -/

/-- **An image that is safe to query**: no check fails on any header, and the names and every section that is looked up can
    be read. -/
structure Image.Safe (image : Image) : Prop where
  headers : ∀ i < image.count, image.header? i = some (image.header i)
  names : image.names.Readable image
  sections : ∀ name span, image.section? name = .ok (some span) → span.Readable image
  debugSections : ∀ sections, image.debugSections = .ok sections →
    sections.info.Readable image ∧ sections.debugFrame.Readable image ∧ sections.ehFrame.Readable image

/-- **Accepted files are safe to query.** A file is accepted exactly when it is identified, its file header is there and
    its table and its names lie in it; every other file is refused as malformed. Of an accepted file every header is read
    with no check failing, and the names, every section found by its name and the sections of its frame records lie in it,
    so that their bytes can be taken out. -/
theorem accepted_files_are_safe (path : Path) (bs : Bytes) :
    (∀ image, Image.ofBytes path bs = .ok image → image.bytes = bs ∧ image.Safe) ∧
      (∀ c, Acceptable bs c → Image.ofBytes path bs = .ok (c.imageOf path bs)) ∧
      ((∀ c, ¬ Acceptable bs c) → ∃ e, Image.ofBytes path bs = .error e ∧ e.status = .badFormat) := by
  refine ⟨?_, fun c h => Image.ofBytes_eq_ok.mpr ⟨c, h, rfl⟩, ?_⟩
  · intro image himage
    obtain ⟨c, h, rfl⟩ := Image.ofBytes_eq_ok.mp himage
    exact ⟨rfl, fun i hi => h.header? path hi, SectionSpan.readable_of_le h.namesInside,
      fun _ _ => Image.readable_of_section?, fun _ => Image.readable_of_debugSections⟩
  · intro hnone
    cases himage : Image.ofBytes path bs with
    | ok image =>
        obtain ⟨c, h, -⟩ := Image.ofBytes_eq_ok.mp himage
        exact absurd h (hnone c)
    | error e =>
        obtain ⟨defect, rfl⟩ := Image.ofBytes_fails himage
        exact ⟨_, rfl, rfl⟩

/-- A file of 32 bits that ends with the last byte of its table. -/
def tightFile : Bytes :=
  let layout := ObjectLayout.sharedTailAt .bits32 63 44 [60, 61, 52]
  fieldBytes layout.header ++ [0] ++ Image.nameBytes ".rel.x" ++ [0, 7, 8, 9] ++ layout.tableBytes

/-- Its last header is read, and so is a section that is found; a byte shorter it is refused. -/
theorem accepted_files_are_safe_tight :
    let image := FileClass.bits32.imageOf ⟨"tight"⟩ tightFile
    let span : SectionSpan := ⟨61, 2, 0x2000⟩
    Image.ofBytes ⟨"tight"⟩ tightFile = .ok image ∧ image.header? 2 = some ⟨0, 0, 52, 8⟩ ∧
      image.section? (Image.nameBytes ".x") = .ok (some span) ∧ span.Readable image ∧ image.slice span = [8, 9] ∧
      ∃ e, Image.ofBytes ⟨"tight"⟩ tightFile.dropLast = .error e ∧ e.status = .badFormat := by
  intro image span
  have himage : Image.ofBytes ⟨"tight"⟩ tightFile = .ok image := by decide +kernel
  have hsection : image.section? (Image.nameBytes ".x") = .ok (some span) := by decide +kernel
  have hrefused : ∀ c, ¬ Acceptable tightFile.dropLast c := by
    intro c h
    cases c with
    | bits32 => exact absurd h.tableInside (by decide +kernel)
    | bits64 => exact absurd h.identifies.mark (by decide +kernel)
  obtain ⟨-, hsafe⟩ := (accepted_files_are_safe ⟨"tight"⟩ tightFile).1 image himage
  refine ⟨himage, (hsafe.headers 2 (by decide +kernel)).trans ?_, hsection, hsafe.sections _ _ hsection,
    by decide +kernel, (accepted_files_are_safe ⟨"tight"⟩ tightFile.dropLast).2.2 hrefused⟩
  exact congrArg some (by decide +kernel)

end Unwinder
