import Unwinder.Image

/-!
# `Proofs.Images.Layouts` — sections are found wherever a file lays them out

A linker may put the contents of sections, their headers and their names anywhere in a file, let them overlap, and let
one name be the tail of another. Here a file is described from the linker's side: the fields of the file header and of
the section headers in their order, each with its width, and the places that everything goes to. Files of both classes
have the same fields, and only the width of a word tells them apart, so that where a field stands is counted and not
looked up.

## Contents
- **Places.** `StandsAt`, a piece of a file at an offset, and `fieldBytes`, numbers in a row; `numberAt_field` reads one
  of them.
- **Layouts.** `LinkedSection` is a section without its place, `ObjectLayout` a file's layout of sections, and
  `ObjectLayout.LaidOut` says that a byte string follows it.
- **Reading back.** `LaidOut.ofBytes` accepts the file, `LaidOut.nameOf` reads a name, `LaidOut.firstNamed` searches the
  headers in order, `LaidOut.contentsOf` is what a lookup by name comes to.
- **Main statement.** `section?_undoes_layout`.
-/

namespace Unwinder

open LittleEndian (limit ofNat)

/-! ## Places -/

/-- **A piece of a file** at an offset. Nothing keeps pieces from overlapping. -/
def StandsAt (bs : Bytes) (place : Nat) (piece : Bytes) : Prop := place ≤ bs.length ∧ piece <+: bs.drop place

instance (bs : Bytes) (place : Nat) (piece : Bytes) : Decidable (StandsAt bs place piece) :=
  inferInstanceAs (Decidable (_ ∧ _))

namespace StandsAt

variable {bs piece front back : Bytes} {place : Nat}

/-- As many bytes as the piece has, from its place on, are the piece. -/
theorem take_drop (h : StandsAt bs place piece) : (bs.drop place).take piece.length = piece :=
  (List.prefix_iff_eq_take.mp h.2).symm

theorem inside (h : StandsAt bs place piece) : place + piece.length ≤ bs.length := by
  have hlength := h.2.length_le
  rw [List.length_drop] at hlength
  have hplace := h.1
  omega

/-- A part of a piece stands where it stands in the piece. -/
theorem part (h : StandsAt bs place (front ++ piece ++ back)) : StandsAt bs (place + front.length) piece := by
  have hinside := h.inside
  obtain ⟨hplace, rest, hrest⟩ := h
  simp only [List.length_append] at hinside
  refine ⟨by omega, back ++ rest, ?_⟩
  rw [← List.drop_drop, ← hrest]
  simp

end StandsAt

/-- Numbers in a row, each given with its width, lowest byte first. -/
def fieldBytes (fields : List (Nat × Nat)) : Bytes := fields.flatMap fun field => ofNat field.1 field.2

/-- The number of bytes of numbers in a row. -/
def fieldWidth : List (Nat × Nat) → Nat
  | [] => 0
  | field :: fields => field.1 + fieldWidth fields

theorem length_fieldBytes (fields : List (Nat × Nat)) : (fieldBytes fields).length = fieldWidth fields := by
  induction fields with
  | nil => rfl
  | cons field fields ih =>
    rw [fieldWidth, ← ih]
    simp [fieldBytes]

/-- **One of several numbers in a row** stands behind those before it. -/
theorem numberAt_field {bs : Bytes} {place k width n : Nat} {fields : List (Nat × Nat)}
    (h : StandsAt bs place (fieldBytes fields)) (hk : fields[k]? = some (width, n)) (hn : n < limit width) :
    numberAt bs (place + fieldWidth (fields.take k)) width = n := by
  obtain ⟨hlt, hfield⟩ := List.getElem?_eq_some_iff.mp hk
  have hsplit : fieldBytes fields =
      fieldBytes (fields.take k) ++ ofNat width n ++ fieldBytes (fields.drop (k + 1)) := by
    calc fieldBytes fields
        = fieldBytes (fields.take k ++ fields[k] :: fields.drop (k + 1)) := by
          rw [List.getElem_cons_drop, List.take_append_drop]
      _ = _ := by simp [fieldBytes, hfield]
  rw [hsplit] at h
  have hnumber := h.part.take_drop
  rw [length_fieldBytes, LittleEndian.length_ofNat] at hnumber
  rw [numberAt, hnumber, LittleEndian.toNat_ofNat, Nat.mod_eq_of_lt hn]

/-! ## Layouts -/

namespace FileClass

/-- The number of bytes of a word. -/
def wordSize : FileClass → Nat
  | .bits32 => 4
  | .bits64 => 8

/-- The identification byte of a class. -/
def mark : FileClass → Nat
  | .bits32 => 1
  | .bits64 => 2

end FileClass

/-- A section, apart from any file. -/
structure LinkedSection where
  name : Bytes
  /-- The byte that ends names is not one of a name. -/
  unbroken : 0 ∉ name
  address : Nat
  contents : Bytes

/-- A section with its place in a file, and with the fields of its header that it is not found by. -/
structure PlacedSection where
  linked : LinkedSection
  /-- Offset of the name among the names. -/
  nameOffset : Nat
  /-- Offset of the contents in the file. -/
  offset : Nat
  kind : Nat
  flags : Nat
  link : Nat
  info : Nat
  alignment : Nat
  unitSize : Nat

namespace PlacedSection

/-- **The fields of a section header**, in their order. -/
def fields (s : PlacedSection) (word : Nat) : List (Nat × Nat) :=
  [(4, s.nameOffset), (4, s.kind), (word, s.flags), (word, s.linked.address), (word, s.offset),
    (word, s.linked.contents.length), (4, s.link), (4, s.info), (word, s.alignment), (word, s.unitSize)]

/-- Every value of a header that matters for finding the section fits its field. -/
structure Fits (s : PlacedSection) (word : Nat) : Prop where
  name : s.nameOffset < limit 4
  address : s.linked.address < limit word
  offset : s.offset < limit word
  length : s.linked.contents.length < limit word

instance (s : PlacedSection) (word : Nat) : Decidable (s.Fits word) :=
  decidable_of_iff
    (s.nameOffset < limit 4 ∧ s.linked.address < limit word ∧ s.offset < limit word ∧
      s.linked.contents.length < limit word)
    ⟨fun ⟨hname, haddress, hoffset, hlength⟩ => ⟨hname, haddress, hoffset, hlength⟩,
      fun hfits => ⟨hfits.name, hfits.address, hfits.offset, hfits.length⟩⟩

/-- The span that should be found. -/
def span (s : PlacedSection) : SectionSpan :=
  ⟨s.offset, s.linked.contents.length, UInt64.ofNat s.linked.address⟩

end PlacedSection

/-- The layout of sections in a file, with the fields of the file header that do not matter for finding them. -/
structure ObjectLayout where
  fileClass : FileClass
  sections : List PlacedSection
  /-- Offset of the section header table. -/
  table : Nat
  entrySize : Nat
  /-- Index of the section whose contents are the names. -/
  names : Nat
  reserved : Nat
  kind : Nat
  machine : Nat
  version : Nat
  entry : Nat
  segments : Nat
  flags : Nat
  headerSize : Nat
  segmentSize : Nat
  segmentCount : Nat

namespace ObjectLayout

/-- **The fields of the file header**, in their order: the sixteen identification bytes, then the numbers. -/
def header (l : ObjectLayout) : List (Nat × Nat) :=
  let word := l.fileClass.wordSize
  [(1, 0x7f), (1, 0x45), (1, 0x4c), (1, 0x46), (1, l.fileClass.mark), (1, 1), (10, l.reserved), (2, l.kind),
    (2, l.machine), (4, l.version), (word, l.entry), (word, l.segments), (word, l.table), (4, l.flags),
    (2, l.headerSize), (2, l.segmentSize), (2, l.segmentCount), (2, l.entrySize), (2, l.sections.length), (2, l.names)]

/-- **A file that follows a layout.** Entries of the header table may be longer than a header, and the names are
    pieces of one section's contents, each with a zero byte behind it. -/
structure LaidOut (l : ObjectLayout) (bs : Bytes) : Prop where
  size : bs.length < LittleEndian.wordLimit
  header : StandsAt bs 0 (fieldBytes l.header)
  tablePlace : l.table ≠ 0
  tableFits : l.table < limit l.fileClass.wordSize
  entryHolds : 16 + 6 * l.fileClass.wordSize ≤ l.entrySize
  entryFits : l.entrySize < limit 2
  countFits : l.sections.length < limit 2
  tableInside : l.table + l.entrySize * l.sections.length ≤ bs.length
  entries : ∀ i (hi : i < l.sections.length),
    StandsAt bs (l.table + i * l.entrySize) (fieldBytes (l.sections[i].fields l.fileClass.wordSize))
  fits : ∀ s ∈ l.sections, s.Fits l.fileClass.wordSize
  contents : ∀ s ∈ l.sections, StandsAt bs s.offset s.linked.contents
  namesAt : l.names < l.sections.length
  named : ∀ s ∈ l.sections, StandsAt l.sections[l.names].linked.contents s.nameOffset (s.linked.name ++ [0])

/-- The sections that are laid out, in the order of their headers. -/
def linked (l : ObjectLayout) : List LinkedSection := l.sections.map (·.linked)

/-! ## Reading back -/

/-- The image that an accepted file gives. -/
def image (l : ObjectLayout) (path : Path) (bs : Bytes) (hnames : l.names < l.sections.length) : Image :=
  ⟨path, bs, l.fileClass, l.table, l.entrySize, l.sections.length, l.sections[l.names].span⟩

/-- **Counting the fields of the file header** gives the places of its class. -/
theorem header_places (l : ObjectLayout) :
    fieldWidth (l.header.take 12) = l.fileClass.layout.table ∧
      fieldWidth (l.header.take 17) = l.fileClass.layout.entrySize ∧
      fieldWidth (l.header.take 18) = l.fileClass.layout.count ∧
      fieldWidth (l.header.take 19) = l.fileClass.layout.names ∧
      fieldWidth l.header = l.fileClass.layout.fileHeader := by
  simp only [header]
  cases l.fileClass <;> simp [fieldWidth, FileClass.wordSize, FileClass.layout]

end ObjectLayout

namespace FileClass

theorem word_eq (c : FileClass) : c.layout.word = c.wordSize := by cases c <;> rfl

/-- No entry is shorter than the fields of a header. -/
theorem sectionHeader_eq (c : FileClass) : c.layout.sectionHeader = 16 + 6 * c.wordSize := by cases c <;> rfl

theorem limit_wordSize_le (c : FileClass) : limit c.wordSize ≤ LittleEndian.wordLimit := by cases c <;> decide

end FileClass

namespace PlacedSection

/-- **Counting the fields of a section header** gives the places of the class. -/
theorem fields_places (s : PlacedSection) (c : FileClass) :
    fieldWidth ((s.fields c.wordSize).take 3) = c.layout.address ∧
      fieldWidth ((s.fields c.wordSize).take 4) = c.layout.offset ∧
      fieldWidth ((s.fields c.wordSize).take 5) = c.layout.length := by
  cases c <;> exact ⟨rfl, rfl, rfl⟩

/-- What the header of the section says. -/
def header (s : PlacedSection) : SectionHeader :=
  ⟨s.nameOffset, UInt64.ofNat s.linked.address, s.offset, s.linked.contents.length⟩

variable {s : PlacedSection} {bs : Bytes} {place : Nat} {c : FileClass}

/-- **The header is read back** from where its fields stand. -/
theorem ofBytes_fields (h : StandsAt bs place (fieldBytes (s.fields c.wordSize))) (hfits : s.Fits c.wordSize) :
    SectionHeader.ofBytes c bs place = s.header := by
  obtain ⟨haddress, hoffset, hlength⟩ := s.fields_places c
  have hname := numberAt_field (k := 0) h rfl hfits.name
  have haddressAt := numberAt_field (k := 3) h rfl hfits.address
  have hoffsetAt := numberAt_field (k := 4) h rfl hfits.offset
  have hlengthAt := numberAt_field (k := 5) h rfl hfits.length
  rw [haddress] at haddressAt
  rw [hoffset] at hoffsetAt
  rw [hlength] at hlengthAt
  have hfront : fieldWidth ((s.fields c.wordSize).take 0) = 0 := rfl
  rw [hfront, Nat.add_zero] at hname
  simp only [SectionHeader.ofBytes, c.word_eq, hname, haddressAt, hoffsetAt, hlengthAt, header]

/-- The span of a section whose contents stand in the file. -/
theorem span_header (h : StandsAt bs s.offset s.linked.contents) : s.header.span bs.length = .ok s.span := by
  have hinside : s.header.offset + s.header.length ≤ bs.length := h.inside
  rw [SectionHeader.span, if_pos hinside]
  rfl

/-- An address that fits its field is exact. -/
theorem toNat_address (hfits : s.Fits c.wordSize) : s.span.address.toNat = s.linked.address := by
  have haddress : s.linked.address < LittleEndian.wordLimit := Nat.lt_of_lt_of_le hfits.address c.limit_wordSize_le
  exact Nat.mod_eq_of_lt haddress

end PlacedSection

namespace ObjectLayout.LaidOut

variable {l : ObjectLayout} {bs : Bytes} (h : l.LaidOut bs)

include h

theorem fileHeader_le : l.fileClass.layout.fileHeader ≤ bs.length := by
  have hinside := h.header.inside
  rw [length_fieldBytes, l.header_places.2.2.2.2] at hinside
  omega

/-- The identification bytes name the class. -/
theorem classOf : Image.classOf bs = .ok l.fileClass := by
  have hlength := h.fileHeader_le
  obtain ⟨rest, hrest⟩ := h.header.2
  have hident : ∃ more, bs = [0x7f, 0x45, 0x4c, 0x46, UInt8.ofNat l.fileClass.mark, 1] ++ more :=
    ⟨_, hrest.symm⟩
  have hsize : Image.identification ≤ l.fileClass.layout.fileHeader := by
    cases l.fileClass <;> decide
  have hlong : ¬ (bs.length < Image.identification ∨ bs.take 4 ≠ Image.magic) := by
    obtain ⟨more, rfl⟩ := hident
    rintro (hshort | hmagic)
    · omega
    · exact hmagic rfl
  rw [Image.classOf, if_neg hlong]
  obtain ⟨more, rfl⟩ := hident
  cases l.fileClass <;> rfl

/-- The number in the `k`th field of the file header. -/
theorem numberAt_header {k width n : Nat} (hk : l.header[k]? = some (width, n)) (hn : n < limit width) :
    numberAt bs (fieldWidth (l.header.take k)) width = n := by
  have hnumber := numberAt_field h.header hk hn
  rwa [Nat.zero_add] at hnumber

/-- **The numbers of the file header** are read back. -/
theorem header_numbers :
    numberAt bs l.fileClass.layout.table l.fileClass.layout.word = l.table ∧
      numberAt bs l.fileClass.layout.entrySize 2 = l.entrySize ∧
      numberAt bs l.fileClass.layout.count 2 = l.sections.length ∧
      numberAt bs l.fileClass.layout.names 2 = l.names := by
  obtain ⟨htable, hentry, hcount, hnamesAt, -⟩ := l.header_places
  rw [← htable, ← hentry, ← hcount, ← hnamesAt, l.fileClass.word_eq]
  exact ⟨h.numberAt_header rfl h.tableFits, h.numberAt_header rfl h.entryFits,
    h.numberAt_header rfl h.countFits, h.numberAt_header rfl (Nat.lt_trans h.namesAt h.countFits)⟩

/-- The header with an index. -/
theorem ofBytes_entry {i : Nat} (hi : i < l.sections.length) :
    SectionHeader.ofBytes l.fileClass bs (l.table + i * l.entrySize) = l.sections[i].header :=
  PlacedSection.ofBytes_fields (h.entries i hi) (h.fits _ (List.getElem_mem hi))

/-- **A file that follows a layout is accepted.** -/
theorem ofBytes (path : Path) : Image.ofBytes path bs = .ok (l.image path bs h.namesAt) := by
  obtain ⟨htable, hentry, hcount, hnames⟩ := h.header_numbers
  have hnamesAt := h.namesAt
  have hspan : (SectionHeader.ofBytes l.fileClass bs (l.table + l.names * l.entrySize)).span bs.length =
      .ok l.sections[l.names].span := by
    rw [h.ofBytes_entry hnamesAt]
    exact PlacedSection.span_header (h.contents _ (List.getElem_mem hnamesAt))
  have hheader : ¬ bs.length < l.fileClass.layout.fileHeader := Nat.not_lt.mpr h.fileHeader_le
  have hsome : ¬ (l.table = 0 ∨ l.sections.length = 0) := by
    rintro (hzero | hzero)
    · exact h.tablePlace hzero
    · omega
  have hsmall : ¬ l.entrySize < l.fileClass.layout.sectionHeader := by
    rw [l.fileClass.sectionHeader_eq]
    exact Nat.not_lt.mpr h.entryHolds
  have hinside : l.entrySize * l.sections.length + l.table ≤ bs.length := by
    rw [Nat.add_comm]
    exact h.tableInside
  have hrange : ¬ LittleEndian.wordLimit ≤ l.entrySize * l.sections.length + l.table := by
    have hsize := h.size
    omega
  simp only [Image.ofBytes, h.classOf, bind, Except.bind, htable, hentry, hcount, hnames, if_neg hheader,
    if_neg hsome, if_neg hsmall, if_neg hrange, if_neg (Nat.not_lt.mpr hinside),
    if_neg (Nat.not_le.mpr hnamesAt), hspan, pure, Except.pure, image]

/-- The image reads its headers off the layout. -/
theorem map_header (path : Path) :
    (List.range (l.image path bs h.namesAt).count).map (l.image path bs h.namesAt).header =
      l.sections.map (·.header) := by
  apply List.ext_getElem
  · simp [image]
  · intro i hleft hright
    have hi : i < l.sections.length := by simpa using hright
    simpa [Image.header, image] using h.ofBytes_entry hi

/-- The bytes of a section are its contents. -/
theorem slice_span (path : Path) {s : PlacedSection} (hs : s ∈ l.sections) :
    (l.image path bs h.namesAt).slice s.span = s.linked.contents :=
  (h.contents s hs).take_drop

/-- **A name ends at the first zero byte**, although longer names may end there too. -/
theorem nameOf (path : Path) {s : PlacedSection} (hs : s ∈ l.sections) :
    (l.image path bs h.namesAt).nameOf s.header = .ok s.linked.name := by
  have hnamesAt := h.namesAt
  have hstrings : (l.image path bs hnamesAt).slice (l.image path bs hnamesAt).names =
      l.sections[l.names].linked.contents := h.slice_span path (List.getElem_mem hnamesAt)
  have hname := h.named s hs
  have hplace : s.header.name < l.sections[l.names].linked.contents.length := by
    have hinside := hname.inside
    simp only [List.length_append, List.length_singleton] at hinside
    show s.nameOffset < _
    omega
  obtain ⟨rest, hrest⟩ := hname.2
  have htail : l.sections[l.names].linked.contents.drop s.header.name = s.linked.name ++ 0 :: rest := by
    simpa [PlacedSection.header] using hrest.symm
  have hunbroken : ∀ b ∈ s.linked.name, (decide (b ≠ 0)) = true := by
    intro b hb
    have hne : b ≠ 0 := fun hzero => s.linked.unbroken (hzero ▸ hb)
    simpa using hne
  rw [Image.nameOf]
  simp only [hstrings, if_pos hplace, htail]
  rw [if_pos (by simp), List.takeWhile_append_of_pos hunbroken]
  simp

/-- A search goes by the order of the headers. -/
theorem firstNamed (path : Path) (name : Bytes) {placed : List PlacedSection} (hplaced : placed ⊆ l.sections) :
    (l.image path bs h.namesAt).firstNamed name (placed.map (·.header)) =
      .ok ((placed.find? fun s => s.linked.name = name).map (·.span)) := by
  induction placed with
  | nil => rfl
  | cons s rest ih =>
    obtain ⟨hs, hrest⟩ := List.cons_subset.mp hplaced
    have hspan : (l.image path bs h.namesAt).spanOf s.header = .ok s.span :=
      PlacedSection.span_header (h.contents s hs)
    simp only [List.map_cons, Image.firstNamed, h.nameOf path hs, bind, Except.bind]
    by_cases hname : s.linked.name = name
    · simp [hname, hspan, pure, Except.pure]
    · rw [if_neg hname, List.find?_cons_of_neg (by simpa using hname)]
      exact ih hrest

/-- **The first section with a name** is found, when there is one. -/
theorem section?_eq (path : Path) (name : Bytes) :
    (l.image path bs h.namesAt).section? name =
      .ok ((l.sections.find? fun s => s.linked.name = name).map (·.span)) := by
  rw [Image.section?, h.map_header path]
  exact h.firstNamed path name (List.Subset.refl _)

end ObjectLayout.LaidOut

/-! ## Main statement -/

namespace Image

/-- The address and the bytes of the first section with a name. -/
def contentsOf (image : Image) (name : Bytes) : Except Error (Option (Nat × Bytes)) :=
  (image.section? name).map fun found => found.map fun span => (span.address.toNat, image.slice span)

end Image

namespace ObjectLayout

/-- **Sections are found by the sections alone**: what is found under a name does not depend on where a layout puts it,
    nor on the class. -/
theorem LaidOut.contentsOf {l : ObjectLayout} {bs : Bytes} (h : l.LaidOut bs) (path : Path) (name : Bytes) :
    (l.image path bs h.namesAt).contentsOf name =
      .ok ((l.linked.find? fun s => s.name = name).map fun s => (s.address, s.contents)) := by
  have hlinked : (l.linked.find? fun s => s.name = name) =
      (l.sections.find? fun s => s.linked.name = name).map (·.linked) := by
    rw [linked, List.find?_map]
    rfl
  rw [Image.contentsOf, h.section?_eq path name, hlinked]
  cases hfound : l.sections.find? fun s => s.linked.name = name with
  | none => rfl
  | some s =>
    have hs : s ∈ l.sections := List.mem_of_find?_eq_some hfound
    simp [Except.map, h.slice_span path hs, PlacedSection.toNat_address (h.fits s hs)]

/-- **Looking up sections undoes a layout.** A file that follows a layout of either class is accepted. Under every name
    the first section in the order of the headers is found, with its address and its contents, and nothing is found
    under a name that no header carries. A file that follows another layout of the same sections, of whatever class,
    gives the same. -/
theorem section?_undoes_layout {l : ObjectLayout} {bs : Bytes} (h : l.LaidOut bs) (path : Path) :
    ∃ image, Image.ofBytes path bs = .ok image ∧ image.fileClass = l.fileClass ∧
      (∀ name, image.section? name = .ok ((l.sections.find? fun s => s.linked.name = name).map (·.span))) ∧
      (∀ s ∈ l.sections, s.span.address.toNat = s.linked.address ∧ image.slice s.span = s.linked.contents) ∧
      (∀ name, (∀ s ∈ l.sections, s.linked.name ≠ name) → image.section? name = .ok none) ∧
      ∀ (l' : ObjectLayout) (bs' : Bytes) (path' : Path), l'.LaidOut bs' → l'.linked = l.linked →
        ∃ image', Image.ofBytes path' bs' = .ok image' ∧
          ∀ name, image'.contentsOf name = image.contentsOf name := by
  refine ⟨_, h.ofBytes path, rfl, h.section?_eq path, ?_, ?_, ?_⟩
  · intro s hs
    exact ⟨PlacedSection.toNat_address (h.fits s hs), h.slice_span path hs⟩
  · intro name hnone
    have hfound : (l.sections.find? fun s => s.linked.name = name) = none := by
      simpa using hnone
    rw [h.section?_eq path, hfound]
    rfl
  · intro l' bs' path' h' hlinked
    refine ⟨_, h'.ofBytes path', ?_⟩
    intro name
    rw [h'.contentsOf path' name, h.contentsOf path name, hlinked]

/-- Three sections of which the second one's name is the tail of the first one's, and the third one holds the names. -/
def sharedTail : List LinkedSection :=
  [⟨Image.nameBytes ".rel.x", by decide, 0x1000, [7, 8, 9]⟩, ⟨Image.nameBytes ".x", by decide, 0x2000, [8, 9]⟩,
    ⟨[], by decide, 0, [0] ++ Image.nameBytes ".rel.x" ++ [0]⟩]

/-- A layout of the three sections at given offsets, with everything else zero. -/
def sharedTailAt (fileClass : FileClass) (table entrySize : Nat) (offsets : List Nat) : ObjectLayout where
  fileClass := fileClass
  sections := (sharedTail.zip [1, 5, 0]).zip offsets |>.map fun s => ⟨s.1.1, s.1.2, s.2, 0, 0, 0, 0, 0, 0⟩
  table := table
  entrySize := entrySize
  names := 2
  reserved := 0
  kind := 0
  machine := 0
  version := 0
  entry := 0
  segments := 0
  flags := 0
  headerSize := 0
  segmentSize := 0
  segmentCount := 0

/-- The header table of a layout, its entries filled up with zero bytes. -/
def tableBytes (l : ObjectLayout) : Bytes :=
  l.sections.flatMap fun s => (fieldBytes (s.fields l.fileClass.wordSize)).rightpad l.entrySize 0

/-- A file of 64 bits with the contents behind the table, and one of 32 bits with the contents before a table of longer
    entries. In both the contents of one section are a piece of another's. -/
theorem section?_undoes_layout_shared_tail :
    let wide := sharedTailAt .bits64 64 64 [256, 257, 259]
    let wideFile := fieldBytes wide.header ++ tableBytes wide ++ [7, 8, 9] ++ [0] ++ Image.nameBytes ".rel.x" ++ [0]
    let narrow := sharedTailAt .bits32 63 44 [60, 61, 52]
    let narrowFile :=
      fieldBytes narrow.header ++ [0] ++ Image.nameBytes ".rel.x" ++ [0, 7, 8, 9] ++ tableBytes narrow
    wide.LaidOut wideFile ∧ narrow.LaidOut narrowFile ∧
      ∃ image image', Image.ofBytes ⟨"wide"⟩ wideFile = .ok image ∧
        Image.ofBytes ⟨"narrow"⟩ narrowFile = .ok image' ∧
        image.contentsOf (Image.nameBytes ".x") = .ok (some (0x2000, [8, 9])) ∧
        image.contentsOf (Image.nameBytes ".rel") = .ok none ∧
        ∀ name, image'.contentsOf name = image.contentsOf name := by
  intro wide wideFile narrow narrowFile
  have hwide : wide.LaidOut wideFile := by
    refine ⟨?_, ?_, ?_, ?_, ?_, ?_, ?_, ?_, ?_, ?_, ?_, by decide, ?_⟩ <;> decide +kernel
  have hnarrow : narrow.LaidOut narrowFile := by
    refine ⟨?_, ?_, ?_, ?_, ?_, ?_, ?_, ?_, ?_, ?_, ?_, by decide, ?_⟩ <;> decide +kernel
  obtain ⟨image, himage, -, -, -, -, hother⟩ := section?_undoes_layout hwide ⟨"wide"⟩
  obtain ⟨image', himage', hsame⟩ := hother narrow narrowFile ⟨"narrow"⟩ hnarrow rfl
  have hcontents := hwide.contentsOf ⟨"wide"⟩
  obtain rfl : wide.image ⟨"wide"⟩ wideFile hwide.namesAt = image :=
    Except.ok.inj ((hwide.ofBytes ⟨"wide"⟩).symm.trans himage)
  refine ⟨hwide, hnarrow, _, image', himage, himage', ?_, ?_, hsame⟩
  · rw [hcontents]
    exact congrArg Except.ok (by decide +kernel)
  · rw [hcontents]
    exact congrArg Except.ok (by decide +kernel)

end ObjectLayout

end Unwinder
