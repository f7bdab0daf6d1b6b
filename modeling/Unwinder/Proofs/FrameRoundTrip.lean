import Unwinder.Proofs.FrameWriting
import Unwinder.Proofs.RecordFraming

/-!
# `Proofs.FrameRoundTrip` — reading a frame section undoes writing it

Every field of a record stands behind fields of varying length, so that a single field read in the wrong way would
shift all that follow. The proof goes along the layout: each field is a spelling of its value, whatever follows it;
joined they are a spelling of the record; and the lengths cut the section into its records.

## Contents
- **Pointers.** `PointerForm.reads_value`, `Followed.reads_first` and `Followed.reads_length`.
- **Records.** `Writer.cie_read`, `Writer.fde_read` and, for either kind, `Writer.entry_body`.
- **Sections.** `Writer.cutFrom_write` cuts a section into what was written, `Writer.addRecords_layout` reads it.
- **Main statement.** `readSection_write`.
-/

namespace Unwinder.Cfi

/-! ## Pointers -/

namespace PointerForm

variable {addressSize : UInt8} {more : Nat} {v : UInt64}

/-- A value in two's complement of a width is extended to what it was. -/
theorem signExtend_of_fits {width : Nat} (hword : LittleEndian.limit width ∣ LittleEndian.limit 8)
    (h : Leb128.HoldsSigned (LittleEndian.limit width) v.toInt64.toInt) :
    PointerEncoding.signExtend width (v.toNat % LittleEndian.limit width) = v := by
  obtain ⟨hlow, hhigh⟩ := h
  have hword : LittleEndian.limit width ∣ 2 ^ 64 := hword
  -- the limit divides a word, so that nothing is lost by reducing to a word first
  have hbmod : v.toInt64.toInt = Int.bmod v.toNat (2 ^ 64) := BitVec.toInt_eq_toNat_bmod v.toBitVec
  have hresidue : Int.bmod (v.toNat % LittleEndian.limit width : Nat) (LittleEndian.limit width) = v.toInt64.toInt := by
    rw [Int.natCast_emod, Int.emod_bmod, ← Int.bmod_bmod_of_dvd hword, ← hbmod]
    exact Int.bmod_eq_of_le_mul_two (by omega) (by omega)
  have hmod : Int.bmod v.toNat (2 ^ 64) % 2 ^ 64 = v.toNat := by
    have hlt := v.toNat_lt
    have hemod := @Int.bmod_emod v.toNat (2 ^ 64)
    omega
  rw [PointerEncoding.signExtend, hresidue, hbmod, UInt64.ofInt, hmod, Int.toNat_natCast, UInt64.ofNat_toNat]

/-- The low bytes of a number are read as its residue. -/
theorem reads_residue (width n : Nat) :
    Field.Reads (Field.number width) (LittleEndian.ofNat width n) (n % LittleEndian.limit width) := by
  intro rest
  have htake := Field.take_append (LittleEndian.ofNat width n) rest
  rw [LittleEndian.length_ofNat] at htake
  rw [Field.number, Field.bind_of_ok htake, LittleEndian.toNat_ofNat, Field.pure_apply]

/-- **A value that a form holds is read back.** -/
theorem reads_value {form : PointerForm} (h : form.Fits addressSize more v) :
    Field.Reads (PointerEncoding.value addressSize form) (form.spell addressSize more v) v := by
  cases form with
  | absolute =>
      obtain ⟨hsize, hfits⟩ := h
      have hread := (Field.reads_number hfits).map UInt64.ofNat
      rw [UInt64.ofNat_toNat] at hread
      rw [PointerEncoding.value, Field.address, if_pos hsize]
      exact hread
  | unsignedLeb =>
      obtain ⟨hmore, hfits⟩ := h
      exact (Leb128.Unsigned.mk v more hmore hfits).reads
  | unsigned2 =>
      have hread := (Field.reads_number h).map UInt64.ofNat
      rwa [UInt64.ofNat_toNat] at hread
  | unsigned4 =>
      have hread := (Field.reads_number h).map UInt64.ofNat
      rwa [UInt64.ofNat_toNat] at hread
  | unsigned8 => exact Field.reads_u64 v
  | signedLeb =>
      obtain ⟨hmore, hfits⟩ := h
      exact (Leb128.Signed.mk v.toInt64 more hmore hfits).reads.map (·.toUInt64)
  | signed2 =>
      have hread := (reads_residue 2 v.toNat).map (PointerEncoding.signExtend 2)
      rwa [signExtend_of_fits (by decide) h] at hread
  | signed4 =>
      have hread := (reads_residue 4 v.toNat).map (PointerEncoding.signExtend 4)
      rwa [signExtend_of_fits (by decide) h] at hread
  | signed8 => exact Field.reads_u64 v

/-- The number of a form is read back as the form, whatever the upper bits of the byte. -/
theorem form?_code (form : PointerForm) : (PointerEncoding.mk form.code).form? = .ok form := by
  cases form <;> rfl

/-- Only the low four bits of an encoding byte say how values are stored. -/
theorem formOnly_code (form : PointerForm) (upper : UInt8) :
    (PointerEncoding.mk (form.code ||| (upper &&& 0xf0))).formOnly = ⟨form.code⟩ := by
  -- bit by bit, since a case for every byte and every form would be too many
  have hupper : (upper &&& 0xf0) &&& 0x0f = 0 := by
    rw [UInt8.and_assoc]
    exact UInt8.and_zero
  have hdistrib : (form.code ||| (upper &&& 0xf0)) &&& 0x0f = (form.code &&& 0x0f) ||| ((upper &&& 0xf0) &&& 0x0f) := by
    apply UInt8.toBitVec_inj.mp
    exact BitVec.and_or_distrib_right
  rw [PointerEncoding.formOnly, hdistrib, hupper]
  cases form <;> rfl

end PointerForm

/-- Reading a pointer, when both halves of its encoding are known. -/
theorem PointerEncoding.reads_read {encoding : PointerEncoding} {form : PointerForm} {base : PointerBase}
    {addressSize : UInt8} {more : Nat} {place stored v : UInt64} (hform : encoding.form? = .ok form)
    (hbase : encoding.base? = .ok base) (hfits : form.Fits addressSize more stored)
    (hresolve : resolve place stored base = .ok v) :
    Field.Reads (encoding.read addressSize place) (form.spell addressSize more stored) v := by
  -- the two checks read nothing, which leaves the value and the base it is counted from
  have hread : encoding.read addressSize place
      = (value addressSize form >>= fun value => Field.check (resolve place value base)) := by
    rw [read, hform, hbase, Field.check_ok, Field.check_ok, pure_bind]
    simp only [pure_bind]
  have hchecked : Field.Reads (Field.check (resolve place stored base)) [] v := by
    rw [hresolve, Field.check_ok]
    exact Field.Reads.pure v
  rw [hread, ← List.append_nil (form.spell addressSize more stored)]
  exact (PointerForm.reads_value hfits).bind hchecked

/-- A value under a bare form is read back. -/
theorem PointerForm.reads_bare {addressSize : UInt8} {more : Nat} {v : UInt64} {form : PointerForm}
    (h : form.Fits addressSize more v) :
    Field.Reads ((PointerEncoding.mk form.code).read addressSize 0) (form.spell addressSize more v) v := by
  have hbase : (PointerEncoding.mk form.code).base? = .ok .absolute := by cases form <;> rfl
  exact PointerEncoding.reads_read form.form?_code hbase h rfl

namespace Followed

variable {addressSize : UInt8} {more : Nat}

theorem form?_encoding (e : Followed) : e.encoding.form? = .ok e.form := by
  obtain ⟨form, relative⟩ := e
  cases form <;> cases relative <;> rfl

theorem base?_encoding (e : Followed) : e.encoding.base? = .ok e.base := by
  obtain ⟨form, relative⟩ := e
  cases form <;> cases relative <;> rfl

theorem formOnly_encoding (e : Followed) : e.encoding.formOnly = ⟨e.form.code⟩ := by
  obtain ⟨form, relative⟩ := e
  cases form <;> cases relative <;> rfl

/-- **The first pointer of a function record**: what is stored leads back to it. -/
theorem reads_first (e : Followed) {place v : UInt64} (h : e.form.Fits addressSize more (e.stored place v)) :
    Field.Reads (e.encoding.read addressSize place) (e.form.spell addressSize more (e.stored place v)) v := by
  refine PointerEncoding.reads_read e.form?_encoding e.base?_encoding h ?_
  obtain ⟨form, relative⟩ := e
  cases relative with
  | false => rfl
  | true =>
      -- also when the difference wraps, the pointer lying before its field
      show Except.ok (place + (v - place)) = .ok v
      rw [UInt64.add_comm, UInt64.sub_add_cancel]

/-- **The second pointer**, which is never counted from anything. -/
theorem reads_length (e : Followed) {v : UInt64} (h : e.form.Fits addressSize more v) :
    Field.Reads (e.encoding.formOnly.read addressSize 0) (e.form.spell addressSize more v) v := by
  rw [e.formOnly_encoding]
  exact PointerForm.reads_bare h

end Followed

/-! ## Records -/

/-- **The walk over an augmentation block** ends with the encoding of the last letter that states one. -/
theorem Augmentation.reads_walk (addressSize : UInt8) (letters : List Letter)
    (hfits : ∀ letter ∈ letters, letter.Fits addressSize) (found : Option PointerEncoding) :
    Field.Reads (walk addressSize found (letters.map (·.char))) (letters.flatMap (·.bytes addressSize))
      (((letters.filterMap (·.stated?)).getLast?.map (·.encoding)).or found) := by
  -- over the letters, for every encoding found so far: what a later letter states replaces it
  induction letters generalizing found with
  | nil => exact Field.Reads.pure found
  | cons letter letters ih =>
      have ih := ih fun l hl => hfits l (List.mem_cons_of_mem letter hl)
      have hletter := hfits letter List.mem_cons_self
      rw [List.map_cons, List.flatMap_cons]
      cases letter with
      | lsda e =>
          rw [List.filterMap_cons_none rfl]
          exact (Field.reads_u8 e).bind (ih found)
      | personality form upper pointer more =>
          rw [List.filterMap_cons_none rfl]
          have hbare : form.Fits addressSize more pointer := hletter
          have hpointer := PointerForm.reads_bare hbare
          rw [← form.formOnly_code upper] at hpointer
          show Field.Reads _ (([form.code ||| (upper &&& 0xf0)] ++ form.spell addressSize more pointer) ++ _) _
          rw [List.append_assoc]
          exact (Field.reads_u8 _).bind (hpointer.bind (ih found))
      | addresses e =>
          have hlast : (((letters.filterMap (·.stated?)).getLast?.map (·.encoding)).or (some e.encoding))
              = ((((Letter.addresses e) :: letters).filterMap (·.stated?)).getLast?.map (·.encoding)).or found := by
            have hstated : (Letter.addresses e).stated? = some e := rfl
            rw [List.filterMap_cons_some hstated, List.getLast?_cons]
            cases (letters.filterMap (·.stated?)).getLast? <;> rfl
          rw [← hlast]
          exact (Field.reads_u8 e.encoding.byte).bind (ih (some e.encoding))
      | signal =>
          rw [List.filterMap_cons_none rfl]
          exact ih found

/-- An augmentation string is plain text, and says whether there is a block. -/
theorem CommonRecord.augmentation_text (c : CommonRecord) :
    (∀ b ∈ c.augmentation, b ≠ 0) ∧ Utf8.fault? c.augmentation = none ∧
      hasBlock c.augmentation = c.block.isSome := by
  have hletters : ∀ b ∈ c.augmentation, b ≠ 0 ∧ b < 0x80 := by
    intro b hb
    unfold augmentation at hb
    cases hblock : c.block with
    | none =>
        rw [hblock] at hb
        cases hb
    | some block =>
        rw [hblock] at hb
        rcases List.mem_cons.mp hb with rfl | hletter
        · decide
        · obtain ⟨letter, -, rfl⟩ := List.mem_map.mp hletter
          cases letter <;> rw [Letter.char] <;> decide
  refine ⟨fun b hb => (hletters b hb).1, Utf8.fault?_of_ascii fun b hb => (hletters b hb).2, ?_⟩
  unfold augmentation
  cases c.block <;> rfl

namespace Writer

variable (w : Writer)

theorem reads_addressSize (c : CommonRecord) :
    Field.Reads (statedAddressSize w.flavour c.version w.addressSize) (w.sizeBytes c) (w.sizeUnder c) := by
  by_cases hstates : w.StatesSizes c
  · have hboth : w.flavour = .debugFrame ∧ 3 ≤ c.version := hstates
    rw [statedAddressSize, sizeBytes, sizeUnder, if_pos hboth, if_pos hstates, if_pos hstates]
    exact (Field.reads_u8 c.sizes.1).bind ((Field.reads_u8 c.sizes.2).map fun _ => c.sizes.1)
  · have hnot : ¬ (w.flavour = .debugFrame ∧ 3 ≤ c.version) := hstates
    rw [statedAddressSize, sizeBytes, sizeUnder, if_neg hnot, if_neg hstates, if_neg hstates]
    exact Field.Reads.pure _

/-- **The encoding of a common record** is what its block states, unless addresses are never encoded. -/
theorem reads_encoding (c : CommonRecord) (hfits : ∀ b ∈ c.block, b.Fits (w.sizeUnder c))
    (hword : ∀ b ∈ c.block, (b.content (w.sizeUnder c)).length < LittleEndian.wordLimit) :
    Field.Reads (statedEncoding w.flavour c.augmentation (w.sizeUnder c)) (w.blockBytes c)
      (w.encodingUnder c).encoding := by
  obtain ⟨-, -, hhas⟩ := c.augmentation_text
  unfold statedEncoding encodingUnder blockBytes
  cases hblock : c.block with
  | none =>
      rw [hblock] at hhas
      rw [hhas]
      simp only [Option.isSome_none, Bool.false_eq_true, if_false, Option.bind_none, Option.getD_none, ite_self]
      exact Field.Reads.pure _
  | some b =>
      rw [hblock] at hhas
      obtain ⟨hletters, hmore, hlength⟩ := hfits b hblock
      have hwalk := Augmentation.reads_walk (w.sizeUnder c) b.letters hletters none b.padding
      have htail : c.augmentation.tail = b.letters.map (·.char) := by rw [CommonRecord.augmentation, hblock]; rfl
      have hencoding : Augmentation.encoding c.augmentation (w.sizeUnder c) (b.content (w.sizeUnder c))
          = .ok (b.stated?.map (·.encoding)) := by
        rw [Augmentation.encoding, htail, AugmentationBlock.content, hwalk, Option.or_none]
        rfl
      have hcheck : Field.Reads (Field.check (Augmentation.encoding c.augmentation (w.sizeUnder c)
          (b.content (w.sizeUnder c)))) [] (b.stated?.map (·.encoding)) := by
        rw [hencoding, Field.check_ok]
        exact Field.Reads.pure _
      -- the block is read in either flavour, and what it states is used in one of them
      have hvalue : (if w.flavour = .debugFrame then PointerEncoding.absolute
          else (b.stated?.map (·.encoding)).getD .absolute)
            = (if w.flavour = .debugFrame then Followed.plain else b.stated?.getD .plain).encoding := by
        split
        · rfl
        · cases b.stated? <;> rfl
      rw [hhas, Option.isSome_some, if_pos rfl]
      show Field.Reads _ (framed b.more (b.content (w.sizeUnder c))) _
      rw [Option.bind_some, ← hvalue, ← List.append_nil (framed _ _)]
      exact (reads_block hmore hlength (hword b hblock)).bind (hcheck.map fun stated =>
        if w.flavour = .debugFrame then PointerEncoding.absolute else stated.getD .absolute)

/-- Reading text in front of something. -/
theorem reads_augmentation (c : CommonRecord) : Field.Reads Field.text (c.augmentation ++ [0]) c.augmentation :=
  Field.reads_text c.augmentation_text.1 c.augmentation_text.2.1

/-- A block is no longer than the record it stands in. -/
theorem content_le (c : CommonRecord) :
    ∀ b ∈ c.block, (b.content (w.sizeUnder c)).length ≤ (w.commonFields c).length := by
  intro b hb
  have hblock : c.block = some b := hb
  simp only [commonFields, blockBytes, hblock, framed, List.length_append]
  omega

/-- **A common record is read back**, with the stretch of its instructions. -/
theorem cie_read (c : CommonRecord) (hfits : ∀ b ∈ c.block, b.Fits (w.sizeUnder c))
    (hword : (w.commonFields c).length < LittleEndian.wordLimit) (offset finish : Nat) :
    Cie.read w.flavour w.addressSize offset finish (w.commonFields c ++ c.instructions) =
      .ok ({ flavour := w.flavour, offset := offset, version := c.version, augmentation := c.augmentation,
             codeAlign := c.codeAlign.value, dataAlign := c.dataAlign.value, returnColumn := c.returnColumn.value,
             encoding := (w.encodingUnder c).encoding, addressSize := w.sizeUnder c,
             instructions := ⟨finish - c.instructions.length, finish⟩ }, c.instructions) := by
  have hcontent : ∀ b ∈ c.block, (b.content (w.sizeUnder c)).length < LittleEndian.wordLimit :=
    fun b hb => Nat.lt_of_le_of_lt (w.content_le c b hb) hword
  have hencoding := w.reads_encoding c hfits hcontent
  unfold commonFields
  -- the fields in order, each in front of those after it
  rw [Cie.read, List.append_assoc, Field.bind_of_ok (Field.reads_u8 c.version _), if_pos (knownVersion_iff.mpr c.known)]
  rw [List.append_assoc, Field.bind_of_ok (reads_augmentation c _)]
  rw [List.append_assoc, Field.bind_of_ok (c.codeAlign.reads _)]
  rw [List.append_assoc, Field.bind_of_ok (c.dataAlign.reads _)]
  rw [List.append_assoc, Field.bind_of_ok (c.returnColumn.reads _)]
  rw [List.append_assoc, Field.bind_of_ok (w.reads_addressSize c _)]
  rw [Field.bind_of_ok (hencoding _)]
  rfl

/-- The block of a function record is passed over. -/
theorem skip_functionBlock {β : Type} {c : CommonRecord} {f : FunctionRecord} {start commonOffset : Nat}
    (hfits : c.block.isSome → f.blockMore < Leb128.maxGroups ∧ f.block.length < Leb128.groupLimit (f.blockMore + 1))
    (hword : c.block.isSome → f.block.length < LittleEndian.wordLimit) (next : Field β) (rest : Bytes) :
    (if (w.cieOf start commonOffset c).hasBlock then block >>= fun _ => next else pure [] >>= fun _ : Bytes => next)
      ((if c.block.isSome then framed f.blockMore f.block else []) ++ rest) = next rest := by
  have hhas : (w.cieOf start commonOffset c).hasBlock = c.block.isSome := c.augmentation_text.2.2
  rw [hhas]
  by_cases hsome : c.block.isSome = true
  · obtain ⟨hmore, hlength⟩ := hfits hsome
    rw [if_pos hsome, if_pos hsome, Field.bind_of_ok (reads_block hmore hlength (hword hsome) rest)]
  · rw [if_neg hsome, if_neg hsome]
    rfl

/-- **A function record is read back**, with the stretch of its instructions. -/
theorem fde_read {c : CommonRecord} {f : FunctionRecord} {offset commonOffset : Nat}
    (hfits : w.Fits (.function offset (some (commonOffset, c)) f))
    (hword : (w.functionFields offset c f).length < LittleEndian.wordLimit) (start finish : Nat) :
    Fde.read (w.cieOf start commonOffset c) f.cie offset
        (offset + 8 + (w.functionFields offset c f ++ f.instructions).length) finish w.address
        (w.functionFields offset c f ++ f.instructions) =
      .ok ({ cie := f.cie, flavour := w.flavour, offset := offset, first := f.first, length := f.length,
             instructions := ⟨finish - f.instructions.length, finish⟩ }, f.instructions) := by
  obtain ⟨hfirst, hlength, hblock⟩ := hfits
  have hblockWord : c.block.isSome → f.block.length < LittleEndian.wordLimit := by
    intro hsome
    simp only [functionFields, if_pos hsome, framed, List.length_append] at hword
    omega
  -- the first pointer stands right behind the length word and the id word
  have hplace : w.address + UInt64.ofNat (offset + 8 + (w.functionFields offset c f ++ f.instructions).length
      - (w.functionFields offset c f ++ f.instructions).length) = w.placeOf offset := by
    rw [Nat.add_sub_cancel]
    rfl
  have hleft : Field.left (w.functionFields offset c f ++ f.instructions)
      = .ok ((w.functionFields offset c f ++ f.instructions).length,
        w.functionFields offset c f ++ f.instructions) := rfl
  rw [Fde.read, Field.bind_of_ok hleft, hplace]
  unfold functionFields
  simp only [List.append_assoc]
  have hencoding : (w.cieOf start commonOffset c).encoding = (w.encodingUnder c).encoding := rfl
  have hsize : (w.cieOf start commonOffset c).addressSize = w.sizeUnder c := rfl
  rw [hencoding, hsize]
  rw [Field.bind_of_ok ((w.encodingUnder c).reads_first hfirst _)]
  rw [Field.bind_of_ok ((w.encodingUnder c).reads_length hlength _)]
  rw [w.skip_functionBlock hblock hblockWord]
  rfl

theorem length_bytes (p : Placed) : (w.bytes p).length = 4 + (w.body p).length := by
  rw [bytes, List.length_append, LittleEndian.length_ofNat]

/-- **Ids.** The id word of a function record is not a mark, and leads back to its common record. -/
theorem target_idOf {offset commonOffset : Nat} (hbefore : commonOffset < offset)
    (hsize : offset + 4 < Framing.wideMark) :
    w.idOf offset commonOffset < LittleEndian.limit 4 ∧
      UInt32.ofNat (w.idOf offset commonOffset) ≠ w.flavour.mark ∧
        w.flavour.target? (offset + 4) (UInt32.ofNat (w.idOf offset commonOffset)) = some commonOffset := by
  have hwide : Framing.wideMark = 4294967295 := rfl
  have hlimit : LittleEndian.limit 4 = 4294967296 := rfl
  -- both flavours count less than the section has bytes, and never nothing back
  have hidOf : w.idOf offset commonOffset < 4294967296 := by
    unfold idOf
    split <;> omega
  have hid : (UInt32.ofNat (w.idOf offset commonOffset)).toNat = w.idOf offset commonOffset :=
    UInt32.toNat_ofNat_of_lt' hidOf
  refine ⟨by rw [hlimit]; exact hidOf, ?_, ?_⟩
  · intro hmark
    have hnumber := congrArg UInt32.toNat hmark
    rw [hid] at hnumber
    unfold idOf at hnumber
    cases hflavour : w.flavour with
    | ehFrame =>
        have hzero : Flavour.ehFrame.mark.toNat = 0 := rfl
        rw [hflavour, hzero] at hnumber
        simp only at hnumber
        omega
    | debugFrame =>
        have hall : Flavour.debugFrame.mark.toNat = 4294967295 := rfl
        rw [hflavour, hall] at hnumber
        simp only at hnumber
        omega
  · unfold Flavour.target?
    rw [hid]
    unfold idOf
    cases hflavour : w.flavour with
    | ehFrame =>
        simp only
        rw [if_pos (by omega)]
        congr 1
        omega
    | debugFrame => rfl

/-- **What has been read** up to an offset: the common records that stand before it, in the order of their offsets. -/
structure Reached (start offset : Nat) (commons : List (Nat × CommonRecord)) (records : FrameRecords) : Prop where
  cies : records.cies = commons.map fun q => w.cieOf start q.1 q.2
  ordered : commons.Pairwise fun a b => a.1 < b.1
  earlier : ∀ q ∈ commons, q.1 < offset

/-- Common records stand at different offsets, so that an offset leads to the record that stands there. -/
theorem Reached.indexOf? {start offset : Nat} {commons : List (Nat × CommonRecord)} {records : FrameRecords}
    (h : w.Reached start offset commons records) {i commonOffset : Nat} {c : CommonRecord}
    (hi : commons[i]? = some (commonOffset, c)) :
    records.indexOf? w.flavour commonOffset = some i ∧ records.cies[i]? = some (w.cieOf start commonOffset c) := by
  obtain ⟨hlength, hat⟩ := List.getElem?_eq_some_iff.mp hi
  constructor
  · rw [FrameRecords.indexOf?, h.cies, List.findIdx?_map, List.findIdx?_eq_some_iff_getElem]
    refine ⟨hlength, ?_, ?_⟩
    · simp [hat, cieOf]
    · -- the search stops at the first record with the offset, and those before have lower ones
      intro j hj
      have hless : commons[j].1 < commons[i].1 := List.pairwise_iff_getElem.mp h.ordered j i _ hlength hj
      rw [hat] at hless
      simp only [Function.comp_apply, cieOf, Bool.and_eq_true, decide_eq_true_eq, not_and]
      intro _
      omega
  · rw [h.cies, List.getElem?_map, hi]
    rfl

/-- **The entry of a common record.** -/
theorem entry_common {offset : Nat} {c : CommonRecord} (hfits : w.Fits (.common offset c))
    (hsize : (w.body (.common offset c)).length < LittleEndian.wordLimit) (start length : Nat)
    (records : FrameRecords) :
    (w.input start length).entry records ⟨offset, w.body (.common offset c)⟩ (w.body (.common offset c)) =
      .ok (w.entryOf start (.common offset c), c.instructions) := by
  have hmark : w.flavour.mark.toNat < LittleEndian.limit 4 := w.flavour.mark.toNat_lt
  have hread := Field.reads_u32 hmark (w.commonFields c ++ c.instructions)
  rw [UInt32.ofNat_toNat] at hread
  have hfields : (w.commonFields c).length < LittleEndian.wordLimit := by
    simp only [body, List.length_append] at hsize
    omega
  have hcie := w.cie_read c hfits hfields offset (start + offset + (w.bytes (.common offset c)).length)
  have hfinish : start + (offset + 4 + (w.body (.common offset c)).length)
      = start + offset + (w.bytes (.common offset c)).length := by
    rw [w.length_bytes]
    omega
  rw [← hfinish] at hcie
  -- the mark in place of an id says that the record is a common one
  rw [SectionInput.entry, body, Field.bind_of_ok hread]
  show (if w.flavour.mark = w.flavour.mark then _ else _ : Field Entry) _ = _
  rw [if_pos rfl]
  show (Cie.read w.flavour w.addressSize offset (start + (offset + 4 + (w.body (.common offset c)).length)) >>=
    fun cie => pure (Entry.cie cie)) _ = _
  rw [Field.bind_of_ok hcie, hfinish]
  rfl

/-- **The entry of a function record**, after the common records that stand before it. -/
theorem entry_function {offset commonOffset start : Nat} {c : CommonRecord} {f : FunctionRecord}
    {commons : List (Nat × CommonRecord)} {records : FrameRecords}
    (hfits : w.Fits (.function offset (some (commonOffset, c)) f))
    (hsize : offset + 4 + (w.body (.function offset (some (commonOffset, c)) f)).length < Framing.wideMark)
    (hreached : w.Reached start offset commons records) (hat : commons[f.cie]? = some (commonOffset, c))
    (length : Nat) :
    (w.input start length).entry records ⟨offset, w.body (.function offset (some (commonOffset, c)) f)⟩
        (w.body (.function offset (some (commonOffset, c)) f)) =
      .ok (w.entryOf start (.function offset (some (commonOffset, c)) f), f.instructions) := by
  have hearlier : commonOffset < offset := hreached.earlier _ (List.mem_of_getElem? hat)
  obtain ⟨hid, hmark, htarget⟩ := w.target_idOf hearlier (by omega)
  obtain ⟨hindex, hcie⟩ := hreached.indexOf? w hat
  have hread := Field.reads_u32 hid (w.functionFields offset c f ++ f.instructions)
  have hnamed : (w.input start length).named? records (offset + 4) (UInt32.ofNat (w.idOf offset commonOffset))
      = some (f.cie, w.cieOf start commonOffset c) := by
    show (w.flavour.target? (offset + 4) (UInt32.ofNat (w.idOf offset commonOffset)) >>= fun o =>
      records.indexOf? w.flavour o >>= fun i => records.cies[i]? >>= fun cie => pure (i, cie)) = _
    rw [htarget, Option.bind_eq_bind, Option.bind_some, hindex]
    simp only [Option.bind_eq_bind, Option.bind_some, hcie]
    rfl
  have hlength : (w.body (.function offset (some (commonOffset, c)) f)).length
      = 4 + (w.functionFields offset c f ++ f.instructions).length := by
    rw [body, List.length_append, LittleEndian.length_ofNat]
  have hfields : (w.functionFields offset c f).length < LittleEndian.wordLimit := by
    have hwide : Framing.wideMark < LittleEndian.wordLimit := by decide
    rw [hlength, List.length_append] at hsize
    omega
  have hfde := w.fde_read hfits hfields start
    (start + offset + (w.bytes (.function offset (some (commonOffset, c)) f)).length)
  have hfinish : offset + 8 + (w.functionFields offset c f ++ f.instructions).length
      = offset + 4 + (w.body (.function offset (some (commonOffset, c)) f)).length := by omega
  have himage : start + offset + (w.bytes (.function offset (some (commonOffset, c)) f)).length
      = start + (offset + 4 + (w.body (.function offset (some (commonOffset, c)) f)).length) := by
    rw [w.length_bytes]
    omega
  rw [hfinish, himage] at hfde
  rw [SectionInput.entry, body, Field.bind_of_ok hread]
  show (if UInt32.ofNat (w.idOf offset commonOffset) = w.flavour.mark then _ else _ : Field Entry) _ = _
  rw [if_neg hmark]
  simp only [hnamed]
  show (Fde.read (w.cieOf start commonOffset c) f.cie offset
    (offset + 4 + (w.body (.function offset (some (commonOffset, c)) f)).length)
    (start + (offset + 4 + (w.body (.function offset (some (commonOffset, c)) f)).length)) w.address >>=
    fun fde => pure (Entry.fde fde)) _ = _
  rw [Field.bind_of_ok hfde, ← himage]
  rfl

end Writer

/-! ## Sections -/

namespace Framing

/-- A record is cut off the front of what follows it. -/
theorem cutFrom_record (size offset : Nat) {body : Bytes} (rest : Bytes) (hbody : 0 < body.length)
    (hsize : body.length < wideMark) :
    cutFrom size offset (LittleEndian.ofNat 4 body.length ++ body ++ rest) =
      ⟨⟨offset, body⟩ :: (cutFrom size (offset + 4 + body.length) rest).records,
        (cutFrom size (offset + 4 + body.length) rest).fault⟩ := by
  have hlimit : wideMark < LittleEndian.limit 4 := by decide
  have htake : (LittleEndian.ofNat 4 body.length ++ body ++ rest).take 4 = LittleEndian.ofNat 4 body.length := by
    rw [List.append_assoc, List.take_left' (LittleEndian.length_ofNat _ _)]
  have hdrop : (LittleEndian.ofNat 4 body.length ++ body ++ rest).drop 4 = body ++ rest := by
    rw [List.append_assoc, List.drop_left' (LittleEndian.length_ofNat _ _)]
  have hlength : LittleEndian.toNat (LittleEndian.ofNat 4 body.length) = body.length := by
    rw [LittleEndian.toNat_ofNat, Nat.mod_eq_of_lt (by omega)]
  have hlong : ¬ (LittleEndian.ofNat 4 body.length ++ body ++ rest).length < 4 := by
    simp only [List.length_append, LittleEndian.length_ofNat]
    omega
  rw [cutFrom, if_neg hlong]
  simp only [htake, hdrop, hlength]
  have hroom : ¬ (body ++ rest).length < body.length := by
    rw [List.length_append]
    omega
  rw [if_neg (by omega), if_neg (by omega), if_neg hroom, List.take_left, List.drop_left]

/-- A rest too short for a length word ends the section, and so does a length of zero. -/
theorem cutFrom_end (size offset : Nat) {tail : Bytes}
    (h : tail.length < 4 ∨ ∃ rest, tail = LittleEndian.ofNat 4 0 ++ rest) :
    cutFrom size offset tail = ⟨[], none⟩ := by
  refine cutFrom_ended size offset (h.imp id ?_)
  rintro ⟨rest, rfl⟩
  rw [numberAt, List.drop_zero, List.take_left' (LittleEndian.length_ofNat _ _), LittleEndian.toNat_ofNat, Nat.zero_mod]

end Framing

namespace Writer

variable (w : Writer)

/-- A record that can be written has an id word at least. -/
theorem body_pos {p : Placed} (hfits : w.Fits p) : 0 < (w.body p).length := by
  cases p with
  | common offset c =>
      rw [body, List.length_append, LittleEndian.length_ofNat]
      omega
  | function offset named f =>
      cases named with
      | none => exact hfits.elim
      | some named =>
          rw [body, List.length_append, LittleEndian.length_ofNat]
          omega

theorem offset_place (offset : Nat) (commons : List (Nat × CommonRecord)) (r : FrameRecord) :
    (place offset commons r).offset = offset := by
  cases r <;> rfl

/-- Every record keeps its place in the order, and nothing else of it changes. -/
theorem map_record_layoutFrom (records : List FrameRecord) (offset : Nat) (commons : List (Nat × CommonRecord)) :
    (w.layoutFrom offset commons records).map (·.record) = records := by
  induction records generalizing offset commons with
  | nil => rfl
  | cons r rs ih =>
      rw [layoutFrom, List.map_cons, ih]
      cases r <;> rfl

/-- **Cutting undoes joining.** The records of a section are cut where they were joined. -/
theorem cutFrom_write (size : Nat) {tail : Bytes}
    (htail : tail.length < 4 ∨ ∃ rest, tail = LittleEndian.ofNat 4 0 ++ rest) (records : List FrameRecord)
    (offset : Nat) (commons : List (Nat × CommonRecord))
    (hfits : ∀ p ∈ w.layoutFrom offset commons records, w.Fits p)
    (hsize : (w.write (w.layoutFrom offset commons records)).length < Framing.wideMark) :
    Framing.cutFrom size offset (w.write (w.layoutFrom offset commons records) ++ tail) =
      ⟨(w.layoutFrom offset commons records).map fun p => ⟨p.offset, w.body p⟩, none⟩ := by
  induction records generalizing offset commons with
  | nil => exact Framing.cutFrom_end size offset htail
  | cons r rs ih =>
      -- the first record is cut off, and what follows it is laid out from the next offset on
      obtain ⟨hhead, hlater⟩ := List.forall_mem_cons.mp hfits
      rw [layoutFrom, write, List.flatMap_cons, List.length_append] at hsize
      have hrest := ih _ _ hlater (Nat.lt_of_le_of_lt (Nat.le_add_left _ _) hsize)
      rw [w.length_bytes] at hsize
      have hcut := Framing.cutFrom_record size offset
        (w.write (w.layoutFrom (offset + (w.bytes (place offset commons r)).length) (commonsAfter offset commons r) rs)
          ++ tail) (w.body_pos hhead) (by omega)
      have hnext : offset + 4 + (w.body (place offset commons r)).length
          = offset + (w.bytes (place offset commons r)).length := by
        rw [w.length_bytes, Nat.add_assoc]
      rw [hnext, hrest] at hcut
      rw [layoutFrom, write, List.flatMap_cons, List.append_assoc, List.map_cons, offset_place]
      exact hcut

/-- **One record further.** The record at the offset that was reached is read, and what was read goes on behind it. -/
theorem Reached.entry {start offset : Nat} {commons : List (Nat × CommonRecord)} {records : FrameRecords}
    (h : w.Reached start offset commons records) {r : FrameRecord} (hfits : w.Fits (place offset commons r))
    (hsize : offset + (w.bytes (place offset commons r)).length < Framing.wideMark) (length : Nat) :
    (w.input start length).entry records ⟨offset, w.body (place offset commons r)⟩ (w.body (place offset commons r)) =
        .ok (w.entryOf start (place offset commons r), (place offset commons r).instructions) ∧
      w.Reached start (offset + (w.bytes (place offset commons r)).length) (commonsAfter offset commons r)
        (records.push (w.entryOf start (place offset commons r))) := by
  have hwide : Framing.wideMark < LittleEndian.wordLimit := by decide
  rw [w.length_bytes] at hsize ⊢
  cases r with
  | common c =>
      have hword : (w.body (.common offset c)).length < LittleEndian.wordLimit := by
        simp only [place] at hsize
        omega
      refine ⟨w.entry_common hfits hword start length records, ?_, ?_, ?_⟩
      · simp [FrameRecords.push, place, entryOf, commonsAfter, h.cies]
      · rw [commonsAfter, List.pairwise_append]
        refine ⟨h.ordered, List.pairwise_singleton _ _, ?_⟩
        intro q hq last hlast
        rw [List.mem_singleton.mp hlast]
        exact h.earlier q hq
      · intro q hq
        rcases List.mem_append.mp hq with hold | hnew
        · exact Nat.lt_of_lt_of_le (h.earlier q hold) (Nat.le_add_right _ _)
        · rw [List.mem_singleton.mp hnew]
          omega
  | function f =>
      cases hat : commons[f.cie]? with
      | none =>
          -- a record that names none before it cannot be written
          rw [place, hat] at hfits
          exact hfits.elim
      | some named =>
          obtain ⟨commonOffset, c⟩ := named
          simp only [place, hat] at hfits hsize ⊢
          refine ⟨w.entry_function hfits (by omega) h hat length, h.cies, h.ordered, ?_⟩
          exact fun q hq => Nat.lt_of_lt_of_le (h.earlier q hq) (Nat.le_add_right _ _)

/-- **Reading undoes writing, record by record.** -/
theorem addRecords_layout (start length : Nat) (records : List FrameRecord) (offset : Nat)
    (commons : List (Nat × CommonRecord)) (before : FrameRecords)
    (hfits : ∀ p ∈ w.layoutFrom offset commons records, w.Fits p)
    (hsize : offset + (w.write (w.layoutFrom offset commons records)).length < Framing.wideMark)
    (hreached : w.Reached start offset commons before) :
    (w.input start length).addRecords
        ((w.layoutFrom offset commons records).map fun p => ⟨p.offset, w.body p⟩) before =
      (.ok (), ⟨before.cies ++ w.cies start (w.layoutFrom offset commons records),
        before.fdes ++ w.fdes start (w.layoutFrom offset commons records)⟩) := by
  induction records generalizing offset commons before with
  | nil => simp [layoutFrom, SectionInput.addRecords, cies, fdes]
  | cons r rs ih =>
      obtain ⟨hhead, hlater⟩ := List.forall_mem_cons.mp hfits
      rw [layoutFrom, write, List.flatMap_cons, List.length_append, ← Nat.add_assoc] at hsize
      obtain ⟨hentry, hnext⟩ := hreached.entry w hhead (Nat.lt_of_le_of_lt (Nat.le_add_right _ _) hsize) length
      have hrest := ih _ _ _ hlater hsize hnext
      rw [layoutFrom, List.map_cons, SectionInput.addRecords, offset_place]
      simp only [hentry, hrest]
      cases r <;> simp [FrameRecords.push, place, entryOf, cies, fdes]

/-- Every record of a section stands at its offset. -/
theorem write_split (records : List FrameRecord) (offset : Nat) (commons : List (Nat × CommonRecord)) :
    ∀ p ∈ w.layoutFrom offset commons records, ∃ before after,
      w.write (w.layoutFrom offset commons records) = before ++ w.bytes p ++ after ∧
        offset + before.length = p.offset := by
  induction records generalizing offset commons with
  | nil => exact fun p hp => by cases hp
  | cons r rs ih =>
      rw [layoutFrom, List.forall_mem_cons]
      constructor
      · exact ⟨[], w.write (w.layoutFrom _ _ rs), rfl, (offset_place offset commons r).symm⟩
      · intro p hp
        obtain ⟨before, after, hwrite, hoffset⟩ := ih _ _ p hp
        refine ⟨w.bytes (place offset commons r) ++ before, after, ?_, ?_⟩
        · rw [write, List.flatMap_cons, ← write, hwrite]
          simp only [List.append_assoc]
        · rw [List.length_append, ← Nat.add_assoc, hoffset]

/-- The instructions end a record. -/
theorem body_split {p : Placed} (hfits : w.Fits p) : ∃ fields, w.body p = fields ++ p.instructions := by
  cases p with
  | common offset c =>
      refine ⟨LittleEndian.ofNat 4 w.flavour.mark.toNat ++ w.commonFields c, ?_⟩
      rw [body, List.append_assoc]
      rfl
  | function offset named f =>
      cases named with
      | none => exact hfits.elim
      | some named =>
          refine ⟨LittleEndian.ofNat 4 (w.idOf offset named.1) ++ w.functionFields offset named.2 f, ?_⟩
          rw [body, List.append_assoc]
          rfl

end Writer

/-- A stretch between two others is what stands there. -/
theorem Extent.slice?_append (front mid back : Bytes) {e : Extent} (hstart : e.start = front.length)
    (hfinish : e.finish = front.length + mid.length) : e.slice? (front ++ mid ++ back) = some mid := by
  have hwithin : e.start ≤ e.finish ∧ e.finish ≤ (front ++ mid ++ back).length := by
    rw [hstart, hfinish]
    simp only [List.length_append]
    omega
  have hwidth : e.finish - e.start = mid.length := by omega
  rw [slice?, if_pos hwithin, hwidth, hstart, List.append_assoc, List.drop_left, List.take_left]

/-- The instructions of a record lie where they should be read from. -/
theorem Writer.slice?_extent (w : Writer) {records : List FrameRecord} {p : Placed} (hp : p ∈ w.layout records)
    (hfits : w.Fits p) (front tail back : Bytes) :
    (w.extent front.length p).slice? (front ++ (w.write (w.layout records) ++ tail) ++ back) = some p.instructions := by
  obtain ⟨before, after, hwrite, hoffset⟩ := w.write_split records 0 [] p hp
  obtain ⟨fields, hbody⟩ := w.body_split hfits
  have hbytes : w.bytes p = LittleEndian.ofNat 4 (w.body p).length ++ fields ++ p.instructions := by
    rw [bytes, hbody, List.append_assoc]
  -- everything before the instructions, they, and everything behind them
  have himage : front ++ (w.write (w.layout records) ++ tail) ++ back
      = (front ++ before ++ (LittleEndian.ofNat 4 (w.body p).length ++ fields)) ++ p.instructions ++
        (after ++ tail ++ back) := by
    rw [layout, hwrite, hbytes]
    simp only [List.append_assoc]
  rw [himage]
  refine Extent.slice?_append _ _ _ ?_ ?_
  · simp only [extent, hbytes, List.length_append]
    omega
  · simp only [extent, hbytes, List.length_append]
    omega

/-! ## Main statement -/

/-- **Reading a frame section undoes writing it.** Take any records that can be written: common records with or without
    an augmentation block, and function records that name one before them, numerals in any length a reader accepts,
    addresses in any form that holds them. Laid out as a section below the size where lengths and ids stop fitting
    their words, standing anywhere in an image, linked at any address, and followed by fewer bytes than a length word
    or by a length of zero, they are read with exactly their values and in their order, and the stretch given for the
    instructions of each holds these instructions. -/
theorem readSection_write (w : Writer) (records : List FrameRecord) (hfits : ∀ p ∈ w.layout records, w.Fits p)
    (hsize : (w.write (w.layout records)).length < Framing.wideMark) (front tail back : Bytes)
    (htail : tail.length < 4 ∨ ∃ rest, tail = LittleEndian.ofNat 4 0 ++ rest) :
    FrameRecords.empty.readSection (front ++ (w.write (w.layout records) ++ tail) ++ back)
        (w.input front.length (w.write (w.layout records) ++ tail).length) =
      (.ok (), ⟨w.cies front.length (w.layout records), w.fdes front.length (w.layout records)⟩) ∧
    (w.layout records).map (·.record) = records ∧
    ∀ p ∈ w.layout records,
      (w.extent front.length p).slice? (front ++ (w.write (w.layout records) ++ tail) ++ back) =
        some p.instructions := by
  refine ⟨?_, w.map_record_layoutFrom records 0 [], fun p hp => w.slice?_extent hp (hfits p hp) front tail back⟩
  have hslice : (w.input front.length (w.write (w.layout records) ++ tail).length).span.slice?
      (front ++ (w.write (w.layout records) ++ tail) ++ back) = some (w.write (w.layout records) ++ tail) := by
    have hwithin : front.length + (w.write (w.layout records) ++ tail).length
        ≤ (front ++ (w.write (w.layout records) ++ tail) ++ back).length := by
      simp only [List.length_append]
      omega
    rw [SectionSpan.slice?, Writer.input, if_pos hwithin, List.append_assoc, List.drop_left, List.take_left]
  have hcut := w.cutFrom_write (w.write (w.layout records) ++ tail).length htail records 0 [] hfits hsize
  have hread := w.addRecords_layout front.length (w.write (w.layout records) ++ tail).length records 0 [] .empty hfits
    (by rw [Nat.zero_add]; exact hsize) ⟨rfl, .nil, by simp⟩
  rw [FrameRecords.readSection, hslice]
  simp only [Framing.cut]
  rw [← Writer.layout] at hcut
  rw [← Writer.layout] at hread
  rw [hcut, hread]
  simp [FrameRecords.empty]

/-- A writer of sections linked at 0x2000 whose function records point back. -/
def backwards : Writer := ⟨.ehFrame, 8, 0x2000⟩

/-- A common record whose function records count addresses from their fields, and a function record of it. -/
def relative : List FrameRecord :=
  [.common
      { version := 1, known := .inl rfl, block := some ⟨[.addresses ⟨.signed4, true⟩], [], 0⟩
        codeAlign := ⟨1, 0, by decide, by decide⟩, dataAlign := ⟨-8, 0, by decide, by decide⟩
        returnColumn := ⟨16, 0, by decide, by decide⟩, sizes := (0, 0), instructions := [0xc, 7, 8, 0x90, 1, 0, 0] },
    .function
      { cie := 0, first := 0x1000, firstMore := 0, length := 0x40, lengthMore := 0, block := [], blockMore := 0
        instructions := [0x41, 0x0e, 0x10, 0, 0, 0, 0] }]

/-- The bytes of these records with a length of zero behind them, and what is read from them. -/
theorem readSection_write_relative :
    FrameRecords.empty.readSection
        [0x14, 0, 0, 0, 0, 0, 0, 0, 1, 0x7a, 0x52, 0, 1, 0x78, 0x10, 1, 0x1b, 0xc, 7, 8, 0x90, 1, 0, 0,
          0x14, 0, 0, 0, 0x1c, 0, 0, 0, 0xe0, 0xef, 0xff, 0xff, 0x40, 0, 0, 0, 0, 0x41, 0x0e, 0x10, 0, 0, 0, 0,
          0, 0, 0, 0]
        ⟨⟨0, 52, 0x2000⟩, .ehFrame, 8⟩ =
      (.ok (), ⟨[⟨.ehFrame, 0, 1, [0x7a, 0x52], 1, -8, 16, ⟨0x1b⟩, 8, ⟨17, 24⟩⟩],
        [⟨0, .ehFrame, 24, 0x1000, 0x40, ⟨41, 48⟩⟩]⟩) := by
  have hread := (readSection_write backwards relative (by decide) (by decide) [] (LittleEndian.ofNat 4 0) []
    (.inr ⟨[], rfl⟩)).1
  have hcies : backwards.cies 0 (backwards.layout relative)
      = [⟨.ehFrame, 0, 1, [0x7a, 0x52], 1, -8, 16, ⟨0x1b⟩, 8, ⟨17, 24⟩⟩] := by decide
  have hfdes : backwards.fdes 0 (backwards.layout relative)
      = [⟨0, .ehFrame, 24, 0x1000, 0x40, ⟨41, 48⟩⟩] := by decide
  have hwrite : backwards.write (backwards.layout relative)
      = [0x14, 0, 0, 0, 0, 0, 0, 0, 1, 0x7a, 0x52, 0, 1, 0x78, 0x10, 1, 0x1b, 0xc, 7, 8, 0x90, 1, 0, 0,
          0x14, 0, 0, 0, 0x1c, 0, 0, 0, 0xe0, 0xef, 0xff, 0xff, 0x40, 0, 0, 0, 0, 0x41, 0x0e, 0x10, 0, 0, 0, 0] := by
    decide
  rw [List.length_nil, hcies, hfdes, hwrite] at hread
  exact hread

end Unwinder.Cfi
