import Mathlib.Data.Nat.Find
import Unwinder.Proofs.Images.Acceptance

/-!
# `Proofs.Images.Lookups` — a lookup looks no further than it has to

The headers of a file are searched in order, and a search can end in three ways: with the section, without one, or with
the file found to be malformed. One header decides which, the first whose name cannot be read or is the one sought. What
comes after it is not looked at, and of what comes before it only the names are.

## Contents
- **Names.** `Image.Nameless` and `Image.Carries`, the two ways in which a header can decide a lookup.
- **Lookups.** `Image.StopsAt`, the header that decides, and `section?_of_stopsAt`, what it decides.
- **Files that differ.** `Image.Consulted` lists the bytes that a lookup looks at; by `Acceptable.section?_of_consulted`
  no others matter.
- **Main statement.** `section?_looks_no_further`.
-/

namespace Unwinder

namespace Image

variable {image image' : Image} {name : Bytes}

/-! ## Names -/

/-- The bytes that hold the names of the sections. -/
def strings (image : Image) : Bytes := image.slice image.names

/-- **A header whose name cannot be read**: its name begins behind all names, or no zero byte ends it. -/
def Nameless (image : Image) (h : SectionHeader) : Prop :=
  image.strings.length ≤ h.name ∨ 0 ∉ image.strings.drop h.name

/-- **A header that carries a name**: the name stands at its offset among the names, up to the next zero byte. -/
def Carries (image : Image) (h : SectionHeader) (name : Bytes) : Prop :=
  0 ∉ name ∧ StandsAt image.strings h.name (name ++ [0])

/-- A header that decides a lookup. -/
def Decides (image : Image) (name : Bytes) (h : SectionHeader) : Prop := image.Nameless h ∨ image.Carries h name

instance (h : SectionHeader) : Decidable (image.Nameless h) := inferInstanceAs (Decidable (_ ∨ _))

instance (h : SectionHeader) : Decidable (image.Carries h name) := inferInstanceAs (Decidable (_ ∧ _))

instance (h : SectionHeader) : Decidable (image.Decides name h) := inferInstanceAs (Decidable (_ ∨ _))

/-- A name ends at the first zero byte. -/
theorem takeWhile_terminated {back : Bytes} (h : 0 ∉ name) :
    (name ++ 0 :: back).takeWhile (fun b => decide (b ≠ 0)) = name := by
  have hall : ∀ b ∈ name, (decide (b ≠ 0)) = true := by
    intro b hb
    have hne : b ≠ 0 := fun hzero => h (hzero ▸ hb)
    simpa using hne
  rw [List.takeWhile_append_of_pos hall]
  simp

/-- **The name that is read is the one that is carried.** -/
theorem nameOf_eq_ok {h : SectionHeader} : image.nameOf h = .ok name ↔ image.Carries h name := by
  constructor
  · intro hread
    unfold nameOf at hread
    dsimp only at hread
    split at hread
    · rename_i hplace
      split at hread
      · rename_i hzero
        cases hread
        obtain ⟨front, back, htail, hfront⟩ := List.eq_append_cons_of_mem hzero
        rw [htail, takeWhile_terminated hfront]
        refine ⟨hfront, Nat.le_of_lt hplace, back, ?_⟩
        show front ++ [0] ++ back = (image.slice image.names).drop h.name
        rw [htail, List.append_assoc]
        rfl
      · cases hread
    · cases hread
  · rintro ⟨hunbroken, hstands⟩
    have hinside := hstands.inside
    obtain ⟨-, back, hback⟩ := hstands
    rw [List.length_append, List.length_singleton] at hinside
    have hplace : h.name < image.strings.length := by omega
    have htail : image.strings.drop h.name = name ++ 0 :: back := by
      rw [← hback, List.append_assoc]
      rfl
    have hzero : 0 ∈ image.strings.drop h.name := by simp [htail]
    unfold nameOf
    dsimp only
    rw [show image.slice image.names = image.strings from rfl, if_pos hplace, if_pos hzero, htail,
      takeWhile_terminated hunbroken]

/-- **No name is read of a header that has none.** -/
theorem nameOf_of_nameless {h : SectionHeader} (hnone : image.Nameless h) :
    ∃ defect, image.nameOf h = .error (.malformed defect) := by
  cases hread : image.nameOf h with
  | error e =>
      obtain ⟨defect, rfl⟩ := nameOf_fails hread
      exact ⟨defect, rfl⟩
  | ok found =>
      obtain ⟨-, hstands⟩ := nameOf_eq_ok.mp hread
      have hinside := hstands.inside
      obtain ⟨-, back, hback⟩ := hstands
      rw [List.length_append, List.length_singleton] at hinside
      rcases hnone with hpast | hopen
      · omega
      · exact absurd (by simp [← hback]) hopen

theorem not_nameless_of_carries {h : SectionHeader} (hcarries : image.Carries h name) : ¬ image.Nameless h := by
  intro hnone
  obtain ⟨defect, hread⟩ := nameOf_of_nameless hnone
  rw [nameOf_eq_ok.mpr hcarries] at hread
  cases hread

/-- A header has a name, or none can be read. -/
theorem carries_of_not_nameless {h : SectionHeader} (hsome : ¬ image.Nameless h) : ∃ found, image.Carries h found := by
  obtain ⟨hplace, hzero⟩ := not_or.mp hsome
  have hread : image.nameOf h = .ok ((image.strings.drop h.name).takeWhile (· ≠ 0)) := by
    unfold nameOf
    exact (if_pos (Nat.lt_of_not_le hplace)).trans (if_pos (Decidable.not_not.mp hzero))
  exact ⟨_, nameOf_eq_ok.mp hread⟩

/-! ## Lookups -/

/-- **The header at which a lookup stops**: the first that decides it, or the end of the table. -/
structure StopsAt (image : Image) (name : Bytes) (i : Nat) : Prop where
  le : i ≤ image.count
  before : ∀ j < i, ¬ image.Decides name (image.header j)
  decides : i < image.count → image.Decides name (image.header i)

theorem exists_stopsAt (image : Image) (name : Bytes) : ∃ i, image.StopsAt name i := by
  have hend : ∃ i, image.count ≤ i ∨ image.Decides name (image.header i) := ⟨image.count, .inl (Nat.le_refl _)⟩
  refine ⟨Nat.find hend, Nat.find_min' hend (.inl (Nat.le_refl _)), ?_, ?_⟩
  · intro j hj hdecides
    exact Nat.find_min hend hj (.inr hdecides)
  · intro hlt
    exact (Nat.find_spec hend).resolve_left (Nat.not_le_of_lt hlt)

theorem StopsAt.eq {i j : Nat} (hi : image.StopsAt name i) (hj : image.StopsAt name j) : i = j := by
  rcases Nat.lt_trichotomy i j with hlt | heq | hlt
  · exact absurd (hi.decides (Nat.lt_of_lt_of_le hlt hj.le)) (hj.before i hlt)
  · exact heq
  · exact absurd (hj.decides (Nat.lt_of_lt_of_le hlt hi.le)) (hi.before j hlt)

/-- **Headers that do not decide a lookup are passed over.** -/
theorem firstNamed_append {front back : List SectionHeader} (h : ∀ x ∈ front, ¬ image.Decides name x) :
    image.firstNamed name (front ++ back) = image.firstNamed name back := by
  induction front with
  | nil => rfl
  | cons x front ih =>
      obtain ⟨hx, hfront⟩ := List.forall_mem_cons.mp h
      obtain ⟨hnamed, hother⟩ := not_or.mp hx
      obtain ⟨found, hfound⟩ := carries_of_not_nameless hnamed
      have hne : found ≠ name := fun heq => hother (heq ▸ hfound)
      rw [List.cons_append, firstNamed, nameOf_eq_ok.mpr hfound]
      show (if found = name then _ else image.firstNamed name (front ++ back)) = _
      rw [if_neg hne, ih hfront]

/-- What a header decides: the lookup fails with its name, or it gives the header's span. -/
def decision (image : Image) (h : SectionHeader) : Except Error (Option SectionSpan) := do
  let _ ← image.nameOf h
  return some (← image.spanOf h)

/-- **The first header that decides a lookup ends it.** -/
theorem firstNamed_of_decides {h : SectionHeader} {back : List SectionHeader} (hdecides : image.Decides name h) :
    image.firstNamed name (h :: back) = image.decision h := by
  rw [firstNamed, decision]
  rcases hdecides with hnone | hcarries
  · obtain ⟨defect, hread⟩ := nameOf_of_nameless hnone
    rw [hread]
    rfl
  · rw [nameOf_eq_ok.mpr hcarries]
    exact if_pos rfl

/-- **What a lookup comes to.** -/
theorem section?_of_stopsAt {i : Nat} (h : image.StopsAt name i) :
    image.section? name = if i < image.count then image.decision (image.header i) else .ok none := by
  have hbefore : ∀ x ∈ (List.range i).map image.header, ¬ image.Decides name x := by
    intro x hx
    obtain ⟨j, hj, rfl⟩ := List.mem_map.mp hx
    exact h.before j (List.mem_range.mp hj)
  obtain ⟨rest, hrest⟩ := Nat.exists_eq_add_of_le h.le
  have hsplit : (List.range image.count).map image.header =
      (List.range i).map image.header ++ (List.range' i rest).map image.header := by
    have hrange := List.range'_append_1 (s := 0) (m := i) (n := rest)
    rw [Nat.zero_add] at hrange
    rw [hrest, List.range_eq_range', List.range_eq_range', ← hrange, List.map_append]
  rw [section?, hsplit, firstNamed_append hbefore]
  split
  · rename_i hlt
    cases rest with
    | zero => omega
    | succ rest =>
        rw [List.range'_succ, List.map_cons]
        exact firstNamed_of_decides (h.decides hlt)
  · obtain rfl : rest = 0 := by omega
    rfl

/-- **The ways a lookup can end** that stops at the header with an index. -/
inductive Ends (image : Image) (name : Bytes) (i : Nat) : Except Error (Option SectionSpan) → Prop where
  | absent (h : i = image.count) : Ends image name i (.ok none)
  | nameless {defect : Defect} (hlt : i < image.count) (h : image.Nameless (image.header i)) :
      Ends image name i (.error (.malformed defect))
  | outside {defect : Defect} (hlt : i < image.count) (hcarries : image.Carries (image.header i) name)
      (h : image.size < (image.header i).offset + (image.header i).length) :
      Ends image name i (.error (.malformed defect))
  | found (hlt : i < image.count) (hcarries : image.Carries (image.header i) name)
      (h : (image.header i).offset + (image.header i).length ≤ image.size) :
      Ends image name i (.ok (some ⟨(image.header i).offset, (image.header i).length, (image.header i).address⟩))

theorem ends_of_stopsAt {i : Nat} (h : image.StopsAt name i) : image.Ends name i (image.section? name) := by
  rw [section?_of_stopsAt h]
  split
  · rename_i hlt
    rw [decision]
    rcases h.decides hlt with hnone | hcarries
    · obtain ⟨defect, hread⟩ := nameOf_of_nameless hnone
      rw [hread]
      exact .nameless hlt hnone
    · rw [nameOf_eq_ok.mpr hcarries]
      cases hspan : image.spanOf (image.header i) with
      | ok span =>
          obtain ⟨hfits, rfl⟩ := SectionHeader.span_eq_ok.mp hspan
          exact .found hlt hcarries hfits
      | error e =>
          obtain ⟨defect, rfl⟩ := span_fails hspan
          refine .outside hlt hcarries (Nat.lt_of_not_le fun hfits => ?_)
          rw [spanOf, SectionHeader.span_eq_ok.mpr ⟨hfits, rfl⟩] at hspan
          cases hspan
  · rename_i hend
    exact .absent (Nat.le_antisymm h.le (Nat.le_of_not_lt hend))

namespace Ends

variable {i : Nat} {result : Except Error (Option SectionSpan)}

theorem absent_iff (h : image.Ends name i result) : result = .ok none ↔ i = image.count := by
  cases h with
  | absent hend => simp [hend]
  | nameless hlt => simp [Nat.ne_of_lt hlt]
  | outside hlt => simp [Nat.ne_of_lt hlt]
  | found hlt => simp [Nat.ne_of_lt hlt]

theorem fails_iff (h : image.Ends name i result) :
    (∃ e, result = .error e ∧ e.status = .badFormat) ↔
      i < image.count ∧ (image.Nameless (image.header i) ∨
        image.Carries (image.header i) name ∧ image.size < (image.header i).offset + (image.header i).length) := by
  cases h with
  | absent hend => simp [hend]
  | nameless hlt hnone => simp [hlt, hnone, Error.status]
  | outside hlt hcarries houtside => simp [hlt, hcarries, houtside, Error.status]
  | found hlt hcarries hinside => simp [not_nameless_of_carries hcarries, Nat.not_lt_of_le hinside]

theorem found_iff (h : image.Ends name i result) {span : SectionSpan} :
    result = .ok (some span) ↔
      i < image.count ∧ image.Carries (image.header i) name ∧
        (image.header i).offset + (image.header i).length ≤ image.size ∧
        span = ⟨(image.header i).offset, (image.header i).length, (image.header i).address⟩ := by
  cases h with
  | absent hend => simp [hend]
  | nameless hlt hnone =>
      have hother : ¬ image.Carries (image.header i) name := fun hcarries => not_nameless_of_carries hcarries hnone
      simp [hother]
  | outside hlt hcarries houtside => simp [Nat.not_le_of_lt houtside]
  | found hlt hcarries hinside => simp [hlt, hcarries, hinside, eq_comm]

end Ends

/-! ## Files that differ -/

/-- **Only the names up to the header that decides, and that header, make a difference** to images of one size with the
    same names. -/
theorem section?_congr {i : Nat} (hstops : image.StopsAt name i) (hsize : image'.size = image.size)
    (hcount : image'.count = image.count) (hstrings : image'.strings = image.strings)
    (hnames : ∀ j ≤ i, j < image.count → (image'.header j).name = (image.header j).name)
    (hheader : i < image.count → image'.header i = image.header i) :
    image'.section? name = image.section? name := by
  have hdecides : ∀ j ≤ i, j < image.count →
      (image'.Decides name (image'.header j) ↔ image.Decides name (image.header j)) := by
    intro j hj hlt
    rw [Decides, Decides, Nameless, Nameless, Carries, Carries, hstrings, hnames j hj hlt]
  have hstops' : image'.StopsAt name i := by
    refine ⟨hcount ▸ hstops.le, ?_, ?_⟩
    · intro j hj hfound
      exact hstops.before j hj ((hdecides j (Nat.le_of_lt hj) (Nat.lt_of_lt_of_le hj hstops.le)).mp hfound)
    · intro hlt
      rw [hcount] at hlt
      exact (hdecides i (Nat.le_refl i) hlt).mpr (hstops.decides hlt)
  rw [section?_of_stopsAt hstops, section?_of_stopsAt hstops', hcount]
  split
  · rename_i hlt
    have hstrings' : image'.slice image'.names = image.slice image.names := hstrings
    simp only [decision, nameOf, spanOf, hheader hlt, hstrings', hsize]
  · rfl

end Image

/-- A place in a stretch of so many bytes. -/
def Covers (start width p : Nat) : Prop := start ≤ p ∧ p < start + width

/-- **The fields of a section header that are read.** -/
inductive FileClass.HeaderCovers (c : FileClass) (start p : Nat) : Prop where
  | name (h : Covers start 4 p)
  | address (h : Covers (start + c.layout.address) c.layout.word p)
  | offset (h : Covers (start + c.layout.offset) c.layout.word p)
  | length (h : Covers (start + c.layout.length) c.layout.word p)

theorem FileClass.HeaderCovers.covers {c : FileClass} {start p : Nat} (h : c.HeaderCovers start p) :
    Covers start c.layout.sectionHeader p := by
  obtain ⟨hname, haddress, hoffset, hlength⟩ := c.fields_le
  rcases h with ⟨hlow, hhigh⟩ | ⟨hlow, hhigh⟩ | ⟨hlow, hhigh⟩ | ⟨hlow, hhigh⟩
  all_goals exact ⟨by omega, by omega⟩

/-- A section header depends on the bytes of these fields only. -/
theorem SectionHeader.ofBytes_congr {c : FileClass} {bs bs' : Bytes} {start : Nat}
    (h : ∀ p, c.HeaderCovers start p → bs'[p]? = bs[p]?) :
    SectionHeader.ofBytes c bs' start = SectionHeader.ofBytes c bs start := by
  have hname : numberAt bs' start 4 = numberAt bs start 4 :=
    numberAt_congr fun p hlow hhigh => h p (.name ⟨hlow, hhigh⟩)
  have haddress : numberAt bs' (start + c.layout.address) c.layout.word =
      numberAt bs (start + c.layout.address) c.layout.word :=
    numberAt_congr fun p hlow hhigh => h p (.address ⟨hlow, hhigh⟩)
  have hoffset : numberAt bs' (start + c.layout.offset) c.layout.word =
      numberAt bs (start + c.layout.offset) c.layout.word :=
    numberAt_congr fun p hlow hhigh => h p (.offset ⟨hlow, hhigh⟩)
  have hlength : numberAt bs' (start + c.layout.length) c.layout.word =
      numberAt bs (start + c.layout.length) c.layout.word :=
    numberAt_congr fun p hlow hhigh => h p (.length ⟨hlow, hhigh⟩)
  simp only [ofBytes, hname, haddress, hoffset, hlength]

namespace Image

/-- Where the header with an index begins. -/
def place (image : Image) (i : Nat) : Nat := image.table + i * image.entrySize

/-- **The bytes that a lookup looks at** when it stops at the header with an index: to accept the file, the file header,
    the header of the section that holds the names, and the names; to search it, where the names of the headers up to
    that one begin; and then that header itself. -/
inductive Consulted (image : Image) (i p : Nat) : Prop where
  | fileHeader (h : p < image.fileClass.layout.fileHeader)
  | namesHeader (h : image.fileClass.HeaderCovers (image.place (image.fileClass.namesIn image.bytes)) p)
  | strings (h : Covers image.names.offset image.names.length p)
  | name {j : Nat} (hj : j ≤ i) (hcount : j < image.count) (h : Covers (image.place j) 4 p)
  | header (hcount : i < image.count) (h : image.fileClass.HeaderCovers (image.place i) p)

end Image

/-- **The fields of a file header** that are read lie in it. -/
theorem FileClass.fileHeader_fields_le (c : FileClass) :
    Image.identification ≤ c.layout.fileHeader ∧ c.layout.table + c.layout.word ≤ c.layout.fileHeader ∧
      c.layout.entrySize + 2 ≤ c.layout.fileHeader ∧ c.layout.count + 2 ≤ c.layout.fileHeader ∧
      c.layout.names + 2 ≤ c.layout.fileHeader := by
  cases c <;> decide

namespace Acceptable

variable {bs bs' : Bytes} {c : FileClass} {path : Path} {i : Nat}

/-- **A file that is the same where it is looked at is accepted, too**, and as the same image but for its bytes. -/
theorem of_consulted (h : Acceptable bs c) (hlength : bs'.length = bs.length)
    (hsame : ∀ p, (c.imageOf path bs).Consulted i p → bs'[p]? = bs[p]?) :
    Acceptable bs' c ∧ c.imageOf path bs' = { c.imageOf path bs with bytes := bs' } := by
  obtain ⟨hidentification, htableIn, hentryIn, hcountIn, hnamesIn⟩ := c.fileHeader_fields_le
  have hfront : ∀ p, p < c.layout.fileHeader → bs'[p]? = bs[p]? := fun p hp => hsame p (.fileHeader hp)
  have hfield : ∀ {offset width : Nat}, offset + width ≤ c.layout.fileHeader →
      numberAt bs' offset width = numberAt bs offset width := by
    intro offset width hfits
    exact numberAt_congr fun p _ hhigh => hfront p (by omega)
  have htable : c.tableIn bs' = c.tableIn bs := hfield htableIn
  have hentry : c.entrySizeIn bs' = c.entrySizeIn bs := hfield hentryIn
  have hcount : c.countIn bs' = c.countIn bs := hfield hcountIn
  have hnames : c.namesIn bs' = c.namesIn bs := hfield hnamesIn
  have hheader : c.namesHeaderIn bs' = c.namesHeaderIn bs := by
    rw [FileClass.namesHeaderIn, FileClass.namesHeaderIn, htable, hentry, hnames]
    exact SectionHeader.ofBytes_congr fun p hp => hsame p (.namesHeader hp)
  have hsixteen : 16 ≤ c.layout.fileHeader := hidentification
  have hmagic : Image.magic <+: bs' := by
    have htake : (bs'.drop 0).take 4 = (bs.drop 0).take 4 :=
      stretch_congr fun p _ hhigh => hfront p (by omega)
    rw [List.prefix_iff_eq_take]
    exact (List.prefix_iff_eq_take.mp h.identifies.magic).trans htake.symm
  constructor
  · constructor
    · refine ⟨hlength ▸ h.identifies.identified, hmagic, ?_, ?_⟩
      · exact (hfront 4 (by omega)).trans h.identifies.mark
      · exact (hfront 5 (by omega)).trans h.identifies.byteOrder
    · exact hlength ▸ h.fileHeader
    · exact htable ▸ h.tablePlace
    · exact hcount ▸ h.entries
    · exact hentry ▸ h.entryHolds
    · rw [hentry, hcount, htable]
      exact h.tableWord
    · rw [hentry, hcount, htable, hlength]
      exact h.tableInside
    · rw [hnames, hcount]
      exact h.namesIndex
    · rw [hheader, hlength]
      exact h.namesInside
  · simp only [FileClass.imageOf, htable, hentry, hcount, hheader]

/-- **Bytes that are not looked at make no difference** to a lookup. -/
theorem section?_of_consulted (h : Acceptable bs c) (hlength : bs'.length = bs.length) {name : Bytes}
    (hstops : (c.imageOf path bs).StopsAt name i)
    (hsame : ∀ p, (c.imageOf path bs).Consulted i p → bs'[p]? = bs[p]?) :
    ∃ image', Image.ofBytes path bs' = .ok image' ∧ image'.section? name = (c.imageOf path bs).section? name := by
  obtain ⟨h', himage⟩ := h.of_consulted hlength hsame
  refine ⟨c.imageOf path bs', Image.ofBytes_eq_ok.mpr ⟨c, h', rfl⟩, ?_⟩
  rw [himage]
  refine Image.section?_congr hstops hlength rfl ?_ ?_ ?_
  · exact stretch_congr fun p hlow hhigh => hsame p (.strings ⟨hlow, hhigh⟩)
  · intro j hj hlt
    exact numberAt_congr fun p hlow hhigh => hsame p (.name hj hlt ⟨hlow, hhigh⟩)
  · intro hlt
    exact SectionHeader.ofBytes_congr fun p hp => hsame p (.header hlt hp)

end Acceptable

/-! ## Main statement -/

/-- **A lookup fails only for what it has to look at.** Take any accepted file and any name. The lookup stops at the first
    header whose name cannot be read or is the one sought, or at the end of the table:
    * it finds no section exactly if it comes to the end;
    * it fails, as malformed, exactly if the header it stops at has no name or a section that does not fit the file;
    * it gives a section exactly if that header carries the name and its section fits, and then this section.

    Every file of the same length that is the same where the lookup looks, which is at no header behind that one and at no
    section before it, is accepted and gives the same. -/
theorem section?_looks_no_further {path : Path} {bs : Bytes} {image : Image} (h : Image.ofBytes path bs = .ok image)
    (name : Bytes) :
    ∃ i, image.StopsAt name i ∧
      (image.section? name = .ok none ↔ i = image.count) ∧
      ((∃ e, image.section? name = .error e ∧ e.status = .badFormat) ↔
        i < image.count ∧ (image.Nameless (image.header i) ∨
          image.Carries (image.header i) name ∧ bs.length < (image.header i).offset + (image.header i).length)) ∧
      (∀ span, image.section? name = .ok (some span) ↔
        i < image.count ∧ image.Carries (image.header i) name ∧
          (image.header i).offset + (image.header i).length ≤ bs.length ∧
          span = ⟨(image.header i).offset, (image.header i).length, (image.header i).address⟩) ∧
      ∀ bs' : Bytes, bs'.length = bs.length → (∀ p, image.Consulted i p → bs'[p]? = bs[p]?) →
        ∃ image', Image.ofBytes path bs' = .ok image' ∧ image'.section? name = image.section? name := by
  obtain ⟨c, haccepted, rfl⟩ := Image.ofBytes_eq_ok.mp h
  obtain ⟨i, hstops⟩ := (c.imageOf path bs).exists_stopsAt name
  have hends := Image.ends_of_stopsAt hstops
  refine ⟨i, hstops, ?_, ?_, ?_, fun bs' hlength hsame => haccepted.section?_of_consulted hlength hstops hsame⟩
  · exact hends.absent_iff
  · exact hends.fails_iff
  · exact fun span => hends.found_iff

/-- The header of a section, with nothing in the fields that are not read. -/
def plainHeader (nameOffset address offset length : Nat) : Bytes :=
  fieldBytes [(4, nameOffset), (4, 0), (4, 0), (4, address), (4, offset), (4, length), (16, 0)]

/-- A file of four sections, the third of which holds the names. The length of the first section and the name of the last
    one are given. -/
def scarredFile (length nameOffset : Nat) : Bytes :=
  fieldBytes [(4, 0x464c457f), (1, 1), (1, 1), (26, 0), (4, 52), (10, 0), (2, 40), (2, 4), (2, 2)] ++
    plainHeader 1 0x1000 220 length ++ plainHeader 5 0x2000 221 2 ++ plainHeader 0 0 212 8 ++
    plainHeader nameOffset 0 220 0 ++ [0] ++ Image.nameBytes ".rel.x" ++ [0, 7, 8, 9]

/-- The second section is found although the first one does not fit the file and the last one has no name, and mending both
    makes no difference. A lookup that comes to one of them fails. -/
theorem section?_looks_no_further_scarred :
    let image := FileClass.bits32.imageOf ⟨"scarred"⟩ (scarredFile 4 8)
    Image.ofBytes ⟨"scarred"⟩ (scarredFile 4 8) = .ok image ∧
      image.section? (Image.nameBytes ".x") = .ok (some ⟨221, 2, 0x2000⟩) ∧
      (∃ image', Image.ofBytes ⟨"scarred"⟩ (scarredFile 3 0) = .ok image' ∧
        image'.section? (Image.nameBytes ".x") = image.section? (Image.nameBytes ".x")) ∧
      (∃ e, image.section? (Image.nameBytes ".rel.x") = .error e ∧ e.status = .badFormat) ∧
      ∃ e, image.section? (Image.nameBytes ".rel") = .error e ∧ e.status = .badFormat := by
  intro image
  have himage : Image.ofBytes ⟨"scarred"⟩ (scarredFile 4 8) = .ok image := by decide +kernel
  have hstop : image.StopsAt (Image.nameBytes ".x") 1 := ⟨by decide +kernel, by decide +kernel, by decide +kernel⟩
  have hfirst : image.StopsAt (Image.nameBytes ".rel.x") 0 := ⟨by decide +kernel, by decide +kernel, by decide +kernel⟩
  have hlast : image.StopsAt (Image.nameBytes ".rel") 3 := ⟨by decide +kernel, by decide +kernel, by decide +kernel⟩
  obtain ⟨i, hi, -, -, hfound, hsame⟩ := section?_looks_no_further himage (Image.nameBytes ".x")
  obtain ⟨j, hj, -, hfails, -⟩ := section?_looks_no_further himage (Image.nameBytes ".rel.x")
  obtain ⟨k, hk, -, hfails', -⟩ := section?_looks_no_further himage (Image.nameBytes ".rel")
  obtain rfl := hi.eq hstop
  obtain rfl := hj.eq hfirst
  obtain rfl := hk.eq hlast
  refine ⟨himage, (hfound _).mpr ?_, hsame _ (by decide +kernel) ?_, hfails.mpr ?_, hfails'.mpr ?_⟩
  · exact ⟨by decide +kernel, by decide +kernel, by decide +kernel, by decide +kernel⟩
  · have hmended : scarredFile 3 0 = ((scarredFile 4 8).set 72 3).set 172 0 := by decide +kernel
    intro p hp
    have hother : p ≠ 72 ∧ p ≠ 172 := by
      have hnames : image.place (image.fileClass.namesIn image.bytes) = 132 := by decide +kernel
      have hplace : ∀ l ≤ 1, image.place l = 52 + l * 40 := by decide +kernel
      cases hp with
      | fileHeader h =>
          have hfront : p < 52 := h
          omega
      | namesHeader h =>
          have hcovers : 132 ≤ p ∧ p < 132 + 40 := hnames ▸ h.covers
          omega
      | strings h =>
          have hcovers : 212 ≤ p ∧ p < 212 + 8 := h
          omega
      | name hl _ h =>
          have hcovers := h
          rw [Covers, hplace _ hl] at hcovers
          omega
      | header _ h =>
          have hcovers : 52 + 1 * 40 ≤ p ∧ p < 52 + 1 * 40 + 40 := hplace 1 (Nat.le_refl 1) ▸ h.covers
          omega
    rw [hmended, List.getElem?_set_ne hother.2.symm, List.getElem?_set_ne hother.1.symm]
  · exact ⟨by decide +kernel, .inr ⟨by decide +kernel, by decide +kernel⟩⟩
  · exact ⟨by decide +kernel, .inl (by decide +kernel)⟩

end Unwinder
