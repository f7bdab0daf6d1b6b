import Unwinder.Proofs.FrameRecords

/-!
# `Proofs.Indexing` — an index has all the frame records of an image or none

An image with debug information is indexed even if its frame sections cannot be used. This module says what indexing makes
of the two sections: the records of both where both can be read to their ends, and no record at all where either cannot,
however much was read before the fault.

## Contents
- **Sections of an image.** `debugSections_inside`: they lie in the file.
- **Reading both sections.** `firstRead` and `secondRead`; `ofImage_eq_read` puts the records of an image together from
  them.
- **Main statement.** `index_all_or_nothing`.
-/

namespace Unwinder

/-! ## Sections of an image -/

/-- The header of a section, as files of 64 bits have it. -/
def sectionHeader (name offset length : Nat) : Bytes :=
  LittleEndian.ofNat 16 name ++ LittleEndian.ofNat 8 0 ++ LittleEndian.ofNat 8 offset ++
    LittleEndian.ofNat 8 length ++ LittleEndian.ofNat 24 0

namespace Image

theorem span_inside {header : SectionHeader} {size : Nat} {span : SectionSpan} (h : header.span size = .ok span) :
    span.offset + span.length ≤ size := by
  unfold SectionHeader.span at h
  split at h
  · rename_i hinside
    cases h
    exact hinside
  · cases h

/-- A section that is found lies in its file. -/
theorem section?_inside {image : Image} {name : Bytes} {span : SectionSpan} (h : image.section? name = .ok (some span)) :
    span.offset + span.length ≤ image.size := by
  unfold section? at h
  generalize (List.range image.count).map image.header = headers at h
  induction headers with
  | nil => cases h
  | cons header headers ih =>
      rw [firstNamed] at h
      simp only [bind, Except.bind, pure, Except.pure] at h
      split at h
      · cases h
      · split at h
        · split at h
          · cases h
          · rename_i hspan
            cases h
            exact span_inside hspan
        · exact ih h

/-- **The frame sections of an image lie in its file**, those that it does not have being empty. -/
theorem debugSections_inside {image : Image} {sections : DebugSections} (h : image.debugSections = .ok sections) :
    sections.ehFrame.offset + sections.ehFrame.length ≤ image.size ∧
      sections.debugFrame.offset + sections.debugFrame.length ≤ image.size := by
  have hfound : ∀ {name : Bytes} {found : Option SectionSpan}, image.section? name = .ok found →
      (found.getD .empty).offset + (found.getD .empty).length ≤ image.size := by
    intro name found hname
    cases found with
    | none => exact Nat.zero_le _
    | some span => exact section?_inside hname
  unfold debugSections at h
  simp only [bind, Except.bind, pure, Except.pure, throw, throwThe, MonadExceptOf.throw] at h
  split at h
  · cases h
  split at h
  · cases h
  split at h
  · cases h
  rename_i hdebug
  split at h
  · cases h
  rename_i heh
  cases h
  exact ⟨hfound heh, hfound hdebug⟩

end Image

namespace Cfi

namespace FrameRecords

/-! ## Reading both sections -/

/-- An empty section can be read. -/
theorem readSection_of_nil {records : FrameRecords} {image : Bytes} {input : SectionInput}
    (h : input.span.slice? image = some []) : records.readSection image input = (.ok (), records) := by
  have hcut : Framing.cut [] = ⟨[], none⟩ := by
    unfold Framing.cut
    rw [Framing.cutFrom]
    rfl
  simp only [readSection, h, hcut, SectionInput.addRecords]

/-- Where a section lies in the image, it does not matter whether it is skipped when empty. -/
theorem readIfPresent_of_inside (records : FrameRecords) {image : Bytes} {input : SectionInput}
    (h : input.span.offset + input.span.length ≤ image.length) :
    records.readIfPresent image input =
      (records.readSection image input).1.map fun _ => (records.readSection image input).2 := by
  unfold readIfPresent
  split
  · rename_i hempty
    have hlength : input.span.length = 0 := by simpa [SectionSpan.isEmpty] using hempty
    have hslice : input.span.slice? image = some [] := by
      rw [SectionSpan.slice?, if_pos h, hlength, List.take_zero]
    rw [readSection_of_nil hslice]
    rfl
  · rcases records.readSection image input with ⟨_ | _, after⟩ <;> rfl

section Images

variable (image : Image) (sections : Image.DebugSections)

/-- What reading the section `.eh_frame` of an image gives. -/
def firstRead : Except Error Unit × FrameRecords :=
  FrameRecords.empty.readSection image.bytes ⟨sections.ehFrame, .ehFrame, image.fileClass.addressSize⟩

/-- What reading the section `.debug_frame` behind it gives. -/
def secondRead : Except Error Unit × FrameRecords :=
  (firstRead image sections).2.readSection image.bytes
    ⟨sections.debugFrame, .debugFrame, image.fileClass.addressSize⟩

variable {image sections}

/-- **The records of an image** are those of both sections, when both can be read and hold a function record. -/
theorem ofImage_eq_read (hsections : image.debugSections = .ok sections) :
    ofImage image sections =
      match (firstRead image sections).1, (secondRead image sections).1 with
      | .error e, _ => .error e
      | .ok (), .error e => .error e
      | .ok (), .ok () =>
          if (secondRead image sections).2.fdes.isEmpty then .error (.noDebugData image.path)
          else .ok (secondRead image sections).2 := by
  obtain ⟨hfirst, hsecond⟩ := Image.debugSections_inside hsections
  have hread : FrameRecords.empty.readIfPresent image.bytes ⟨sections.ehFrame, .ehFrame, image.fileClass.addressSize⟩ =
      (firstRead image sections).1.map fun _ => (firstRead image sections).2 := readIfPresent_of_inside _ hfirst
  have hread' : (firstRead image sections).2.readIfPresent image.bytes
      ⟨sections.debugFrame, .debugFrame, image.fileClass.addressSize⟩ =
      (secondRead image sections).1.map fun _ => (secondRead image sections).2 := readIfPresent_of_inside _ hsecond
  unfold ofImage
  simp only [hread, bind, Except.bind]
  cases (firstRead image sections).1 with
  | error e => rfl
  | ok =>
      simp only [Except.map, hread']
      cases (secondRead image sections).1 with
      | error e => rfl
      | ok => rfl

/-- An image has records when both sections can be read and hold a function record. -/
theorem ofImage_eq_ok_iff (hsections : image.debugSections = .ok sections) {records : FrameRecords} :
    ofImage image sections = .ok records ↔
      (firstRead image sections).1 = .ok () ∧ (secondRead image sections).1 = .ok () ∧
        (secondRead image sections).2.fdes ≠ [] ∧ (secondRead image sections).2 = records := by
  rw [ofImage_eq_read hsections]
  cases (firstRead image sections).1 with
  | error e' => simp
  | ok =>
      cases (secondRead image sections).1 with
      | error e' => simp
      | ok =>
          by_cases hfdes : (secondRead image sections).2.fdes = []
          · simp [hfdes]
          · simp [hfdes]

end Images

/-- What makes the frame records of an image unusable is that they are absent, malformed or not supported. -/
theorem status_of_ofImage {image : Image} {sections : Image.DebugSections} {e : Error}
    (h : ofImage image sections = .error e) :
    e.status = .noDebugData ∨ e.status = .badFormat ∨ e.status = .notImplemented := by
  rcases ofImage_fails h with hillegible | rfl
  · cases hillegible with
    | malformed => exact .inr (.inl rfl)
    | unsupported => exact .inr (.inr rfl)
  · exact .inl rfl

end FrameRecords

/-! ## Main statement -/

/-- **An index has all frame records of an image or none.** For every image:
    * it cannot be indexed exactly when its debug sections cannot be found, and for the same reason;
    * otherwise the index has these sections, and the records read from them if they can be used; if not, for the reason
      that they are absent, malformed or not supported, it has no record at all;
    * it has records exactly when they can be used, so that a fault anywhere in either section leaves none. -/
theorem index_all_or_nothing (image : Image) :
    (∀ e, FrameIndex.ofImage image = .error e ↔ image.debugSections = .error e) ∧
    ∀ sections, image.debugSections = .ok sections →
      ∃ index, FrameIndex.ofImage image = .ok index ∧ index.sections = sections ∧
        (∀ records, FrameRecords.ofImage image sections = .ok records → index.records = records) ∧
        (∀ e, FrameRecords.ofImage image sections = .error e →
          index.records = .empty ∧
            (e.status = .noDebugData ∨ e.status = .badFormat ∨ e.status = .notImplemented)) ∧
        (index.hasRecords = true ↔ ∃ records, FrameRecords.ofImage image sections = .ok records) ∧
        ∀ e, (FrameRecords.firstRead image sections).1 = .error e ∨
            (FrameRecords.secondRead image sections).1 = .error e →
          index.records = .empty := by
  rw [FrameIndex.ofImage_eq]
  constructor
  · intro e
    cases image.debugSections with
    | error e' => simp [Except.map]
    | ok sections => simp [Except.map]
  intro sections hsections
  have husable : ∀ records, FrameRecords.ofImage image sections = .ok records →
      FrameRecords.usable image sections = records := by
    intro records hrecords
    rw [FrameRecords.usable, hrecords]
  have hunusable : ∀ e, FrameRecords.ofImage image sections = .error e →
      FrameRecords.usable image sections = .empty := by
    intro e herror
    rw [FrameRecords.usable, herror]
  refine ⟨⟨sections, .usable image sections⟩, by rw [hsections]; rfl, rfl, husable, ?_, ?_, ?_⟩
  · exact fun e herror => ⟨hunusable e herror, FrameRecords.status_of_ofImage herror⟩
  · cases hread : FrameRecords.ofImage image sections with
    | error e =>
        simp only [FrameIndex.hasRecords, hunusable e hread, FrameRecords.empty]
        simp
    | ok records =>
        obtain ⟨-, -, hfdes, rfl⟩ := (FrameRecords.ofImage_eq_ok_iff hsections).mp hread
        simp only [FrameIndex.hasRecords, husable _ hread]
        simp [hfdes]
  · intro e hfault
    cases hread : FrameRecords.ofImage image sections with
    | error e' => exact hunusable e' hread
    | ok records =>
        -- both sections have been read to their ends
        obtain ⟨hfirst, hsecond, -⟩ := (FrameRecords.ofImage_eq_ok_iff hsections).mp hread
        rw [hfirst, hsecond] at hfault
        rcases hfault with hfault | hfault <;> cases hfault

/-! ## A file of two frame sections -/

open LittleEndian (ofNat)

/-- The names of the sections. -/
def frameNames : Bytes :=
  Image.nameBytes ".debug_info" ++ [0] ++ Image.nameBytes ".eh_frame" ++ [0] ++ Image.nameBytes ".debug_frame" ++ [0]

/-- A file of 64 bits with two frame sections, between empty debug information and the names. -/
def frameFile (ehFrame debugFrame : Bytes) : Bytes :=
  Image.magic ++ [2, 1, 1] ++ ofNat 33 0 ++ ofNat 8 64 ++ ofNat 10 0 ++ ofNat 2 64 ++ ofNat 2 4 ++ ofNat 2 3 ++
    sectionHeader 0 0 0 ++ sectionHeader 12 320 ehFrame.length ++
    sectionHeader 22 (320 + ehFrame.length) debugFrame.length ++
    sectionHeader 0 (320 + ehFrame.length + debugFrame.length) 35 ++ ehFrame ++ debugFrame ++ frameNames

/-- A common record of a flavour, and a function record of the code at an address, to be read as the first two records of
    a section. -/
def frames (mark named : Nat) (first length : Nat) : Bytes :=
  ofNat 4 14 ++ ofNat 4 mark ++ [1, 0, 1, 0x78, 16, 0x0c, 7, 8, 0x90, 1] ++
    ofNat 4 20 ++ ofNat 4 named ++ ofNat 8 first ++ ofNat 8 length

/-- A file with frame records in both sections, those of `.debug_frame` being followed by a length that overruns it. -/
def overrunFile : Bytes :=
  frameFile (frames 0 22 0x1000 0x100) (frames 0xffffffff 0 0x2000 0x100 ++ ofNat 4 0x40)

/-- Two records of each section are read before the fault, and none is kept. -/
theorem index_all_or_nothing_overrun :
    let image : Image := ⟨⟨"overrun"⟩, overrunFile, .bits64, 64, 64, 4, ⟨408, 35, 0⟩⟩
    let sections : Image.DebugSections := ⟨⟨0, 0, 0⟩, ⟨362, 46, 0⟩, ⟨320, 42, 0⟩⟩
    Image.ofBytes ⟨"overrun"⟩ overrunFile = .ok image ∧ image.debugSections = .ok sections ∧
      (FrameRecords.secondRead image sections).1 = .error (.malformed (.recordOverrun 42 0x40 46)) ∧
      (FrameRecords.secondRead image sections).2.fdes.length = 2 ∧
      ∃ index, FrameIndex.ofImage image = .ok index ∧ index.sections = sections ∧ index.records = .empty := by
  intro image sections
  have himage : Image.ofBytes ⟨"overrun"⟩ overrunFile = .ok image := by decide +kernel
  have hsections : image.debugSections = .ok sections := by decide +kernel
  have hfault : (FrameRecords.secondRead image sections).1 = .error (.malformed (.recordOverrun 42 0x40 46)) := by
    decide +kernel
  obtain ⟨index, hindex, hsame, -, -, -, hnone⟩ := (index_all_or_nothing image).2 sections hsections
  exact ⟨himage, hsections, hfault, by decide +kernel, index, hindex, hsame, hnone _ (.inr hfault)⟩

end Cfi

end Unwinder
