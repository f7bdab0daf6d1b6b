import Mathlib.Data.List.Forall2
import Unwinder.Proofs.FrameRecords

/-!
# `Proofs.Relocation` — a frame section read in another place

Three places meet where a record is read: that of its bytes in the section, that of the section in the image, and the
address that the section is linked at. This module moves a section, in the image and in memory, and says what becomes of
its records: stretches of instructions follow the image, first addresses that are counted from their fields follow the
memory, and nothing else changes.

## Contents
- **Readers.** `Field.Becomes` relates two readers that take the same bytes; it composes along `>>=`.
- **Records.** `Cie.read_becomes` and `Fde.read_becomes`; `Relocation` with what it makes of a record.
- **Sections.** `FrameRecords.Relocated`, kept by every record that is read (`Relocated.entry`) and so by a section.
- **Main statement.** `readSection_commutes_with_relocation`.
-/

namespace Unwinder

/-! ## Readers -/

namespace Field

section Changes

variable {α β γ : Type} {change : β × Bytes → γ × Bytes}

/-- **What becomes of a reader.** On every input the second reader gives what `change` makes of the first one's value and
    of what it leaves, and fails as it fails. -/
def Becomes (change : β × Bytes → γ × Bytes) (field : Field β) (field' : Field γ) : Prop :=
  ∀ bs, field' bs = (field bs).map change

/-- A change of the value that the first of two readers gives is passed on to the second. -/
theorem Becomes.bind {first first' : Field α} {next : α → Field β} {next' : α → Field γ} {f : α → α}
    (hfirst : Becomes (fun p => (f p.1, p.2)) first first') (hnext : ∀ a, Becomes change (next a) (next' (f a))) :
    Becomes change (first >>= next) (first' >>= next') := by
  intro bs
  have hread := hfirst bs
  cases h : first bs with
  | error e =>
      rw [h] at hread
      rw [bind_of_error h, bind_of_error hread]
      rfl
  | ok pair =>
      obtain ⟨a, rest⟩ := pair
      rw [h] at hread
      rw [bind_of_ok h, bind_of_ok hread]
      exact hnext a rest

/-- What comes after a reader may become something else. -/
theorem Becomes.after (first : Field α) {next : α → Field β} {next' : α → Field γ}
    (h : ∀ a, Becomes change (next a) (next' a)) : Becomes change (first >>= next) (first >>= next') := by
  have hsame : Becomes (fun p => (id p.1, p.2)) first first := fun bs => (congrFun Except.map_id (first bs)).symm
  exact hsame.bind h

theorem becomes_refuse (e : Error) : Becomes change (refuse e) (refuse e) := fun _ => rfl

theorem becomes_check (result : Except Error β) (f : β → γ) :
    Becomes (fun p => (f p.1, p.2)) (check result) (check (result.map f)) := by
  intro bs
  cases result <;> rfl

end Changes

end Field

namespace Cfi

/-! ## Pointers -/

namespace PointerEncoding

/-- Whether pointers are counted from their own field. -/
def IsRelative (encoding : PointerEncoding) : Prop := encoding.base? = .ok .field

instance (encoding : PointerEncoding) : Decidable encoding.IsRelative :=
  inferInstanceAs (Decidable (encoding.base? = .ok .field))

/-- A sum whose first term slides. -/
theorem add_slide (place slide v : UInt64) : place + slide + v = place + v + slide := by
  rw [UInt64.add_assoc, UInt64.add_comm slide, ← UInt64.add_assoc]

/-- A pointer whose field has been moved along the addresses. -/
def slid (encoding : PointerEncoding) (slide v : UInt64) : UInt64 := if encoding.IsRelative then v + slide else v

/-- **A pointer follows its field** when it is counted from it, and stays otherwise. -/
theorem read_becomes (encoding : PointerEncoding) (addressSize : UInt8) (place slide : UInt64) :
    Field.Becomes (fun p => (encoding.slid slide p.1, p.2)) (encoding.read addressSize place)
      (encoding.read addressSize (place + slide)) := by
  refine .after _ fun form => .after _ fun v => ?_
  cases hbase : encoding.base? with
  | error e => exact fun _ => rfl
  | ok base =>
      -- the value is resolved by its base, which only for one counted from its field looks at the place
      have hresolve : resolve (place + slide) v base = (resolve place v base).map (encoding.slid slide) := by
        cases base with
        | absolute =>
            have hnot : ¬ encoding.IsRelative := by simp [IsRelative, hbase]
            show Except.ok v = Except.ok (encoding.slid slide v)
            rw [slid, if_neg hnot]
        | field =>
            have hrelative : encoding.IsRelative := hbase
            show Except.ok (place + slide + v) = Except.ok (encoding.slid slide (place + v))
            rw [slid, if_pos hrelative, add_slide]
        | text | data | function | aligned => rfl
      rw [Field.check_ok, pure_bind, pure_bind, hresolve]
      exact Field.becomes_check _ _

end PointerEncoding

/-! ## Records -/

/-- **A common record in another image** has another stretch of instructions, of the same bytes. -/
theorem Cie.read_becomes (flavour : Flavour) (given : UInt8) (offset imageFinish imageFinish' : Nat) :
    Field.Becomes (fun p => ({ p.1 with instructions := ⟨imageFinish' - p.2.length, imageFinish'⟩ }, p.2))
      (Cie.read flavour given offset imageFinish) (Cie.read flavour given offset imageFinish') := by
  refine .after _ fun version => ?_
  split
  · refine .after _ fun augmentation => .after _ fun codeAlign => .after _ fun dataAlign => ?_
    refine .after _ fun returnColumn => .after _ fun addressSize => .after _ fun encoding => ?_
    exact fun _ => rfl
  · exact Field.becomes_refuse _

/-- **A function record in another image and at another address** has another stretch of instructions, and another first
    address if that is counted from its field. -/
theorem Fde.read_becomes (cie : Cie) (index offset finish imageFinish imageFinish' : Nat) (address slide : UInt64) :
    Field.Becomes
      (fun p => ({ p.1 with first := cie.encoding.slid slide p.1.first
                            instructions := ⟨imageFinish' - p.2.length, imageFinish'⟩ }, p.2))
      (Fde.read cie index offset finish imageFinish address)
      (Fde.read cie index offset finish imageFinish' (address + slide)) := by
  refine .after _ fun before => ?_
  rw [PointerEncoding.add_slide]
  refine (PointerEncoding.read_becomes _ _ _ _).bind fun first => .after _ fun length => ?_
  split
  · exact .after _ fun _ _ => rfl
  · exact fun _ => rfl

/-- **A move of a section**: from one offset of an image to an offset of an image, and along the addresses. -/
structure Relocation where
  oldOffset : Nat
  newOffset : Nat
  slide : UInt64

namespace Relocation

variable (move : Relocation)

/-- A stretch that stands where another one stood, from the beginning of the section. -/
structure Shifts (old new : Extent) : Prop where
  start : new.start + move.oldOffset = old.start + move.newOffset
  finish : new.finish + move.oldOffset = old.finish + move.newOffset

/-- What a move makes of a common record: its instructions move, and all else stays. -/
def CarriesCommon (old new : Cie) : Prop :=
  ∃ stretch, move.Shifts old.instructions stretch ∧ new = { old with instructions := stretch }

/-- What a move makes of a function record among common ones: its instructions move, its first address slides if it is
    counted from its field, and all else stays. -/
def CarriesFunction (cies : List Cie) (old new : Fde) : Prop :=
  ∃ cie stretch, cies[old.cie]? = some cie ∧ move.Shifts old.instructions stretch ∧
    new = { old with first := cie.encoding.slid move.slide old.first, instructions := stretch }

/-- What a move makes of an entry. -/
def CarriesEntry (cies : List Cie) : Entry → Entry → Prop
  | .cie old, .cie new => move.CarriesCommon old new
  | .fde old, .fde new => move.CarriesFunction cies old new
  | _, _ => False

/-- The section after the move. -/
def input (old : SectionInput) : SectionInput :=
  { old with span := { old.span with offset := move.newOffset, address := old.span.address + move.slide } }

/-- The stretch at the end of a record. -/
theorem shifts_left {finish left : Nat} (h : left ≤ finish) :
    move.Shifts ⟨move.oldOffset + finish - left, move.oldOffset + finish⟩
      ⟨move.newOffset + finish - left, move.newOffset + finish⟩ := by
  constructor
  · show move.newOffset + finish - left + move.oldOffset = move.oldOffset + finish - left + move.newOffset
    omega
  · show move.newOffset + finish + move.oldOffset = move.oldOffset + finish + move.newOffset
    omega

end Relocation

/-! ## Sections -/

namespace FrameRecords

/-- **Records after a move of their section**: the same ones in the same order, each carried along. -/
structure Relocated (move : Relocation) (old new : FrameRecords) : Prop where
  cies : List.Forall₂ move.CarriesCommon old.cies new.cies
  fdes : List.Forall₂ (move.CarriesFunction old.cies) old.fdes new.fdes

section Moves

variable {move : Relocation} {old new : FrameRecords}

theorem Relocated.empty (move : Relocation) : Relocated move .empty .empty := ⟨.nil, .nil⟩

/-- The common record that stands at an offset of its section has the same index. -/
theorem Relocated.indexOf? (h : Relocated move old new) (flavour : Flavour) (offset : Nat) :
    new.indexOf? flavour offset = old.indexOf? flavour offset := by
  unfold FrameRecords.indexOf?
  have hsame : ∀ {before after : List Cie}, List.Forall₂ move.CarriesCommon before after →
      (after.findIdx? fun cie => cie.flavour = flavour && cie.offset = offset) =
        before.findIdx? fun cie => cie.flavour = flavour && cie.offset = offset := by
    intro before after hcarried
    induction hcarried with
    | nil => rfl
    | cons hcarries _ ih =>
        obtain ⟨stretch, -, rfl⟩ := hcarries
        rw [List.findIdx?_cons, List.findIdx?_cons, ih]
  exact hsame h.cies

/-- The common record with an index has been carried along. -/
theorem Relocated.getElem? (h : Relocated move old new) (index : Nat) :
    (old.cies[index]? = none ∧ new.cies[index]? = none) ∨
      ∃ cie cie', old.cies[index]? = some cie ∧ new.cies[index]? = some cie' ∧ move.CarriesCommon cie cie' := by
  by_cases hindex : index < old.cies.length
  · have hindex' : index < new.cies.length := h.cies.length_eq ▸ hindex
    refine .inr ⟨_, _, List.getElem?_eq_getElem hindex, List.getElem?_eq_getElem hindex', ?_⟩
    exact (List.forall₂_iff_get.mp h.cies).2 index hindex hindex'
  · have hindex' : ¬ index < new.cies.length := h.cies.length_eq ▸ hindex
    exact .inl ⟨List.getElem?_eq_none (Nat.le_of_not_lt hindex), List.getElem?_eq_none (Nat.le_of_not_lt hindex')⟩

/-- **Ids lead to the same records.** -/
theorem Relocated.named? (h : Relocated move old new) (input : SectionInput) (place : Nat) (id : UInt32) :
    (input.named? old place id = none ∧ (move.input input).named? new place id = none) ∨
      ∃ index cie cie', input.named? old place id = some (index, cie) ∧
        (move.input input).named? new place id = some (index, cie') ∧ move.CarriesCommon cie cie' := by
  have hflavour : (move.input input).flavour = input.flavour := rfl
  unfold SectionInput.named?
  rw [hflavour]
  cases input.flavour.target? place id with
  | none => exact .inl ⟨rfl, rfl⟩
  | some offset =>
      simp only [bind, Option.bind_some, h.indexOf?]
      cases old.indexOf? input.flavour offset with
      | none => exact .inl ⟨rfl, rfl⟩
      | some index =>
          rcases h.getElem? index with ⟨hold, hnew⟩ | ⟨cie, cie', hold, hnew, hcarries⟩
          · simp [hold, hnew]
          · exact .inr ⟨index, cie, cie', by simp [hold], by simp [hnew], hcarries⟩

/-- Common records stay where they are, and with them what a move makes of a function record. -/
theorem Extends.carries (h : old.Extends new) {fde fde' : Fde} (hcarries : move.CarriesFunction old.cies fde fde') :
    move.CarriesFunction new.cies fde fde' := by
  obtain ⟨cie, stretch, hcie, hrest⟩ := hcarries
  exact ⟨cie, stretch, h.getElem? hcie, hrest⟩

/-- An entry that is added moves with the others. -/
theorem Relocated.push (h : Relocated move old new) {e e' : Entry} (he : move.CarriesEntry old.cies e e') :
    Relocated move (old.push e) (new.push e') := by
  have hextends := old.push_extends e
  have hkept : List.Forall₂ (move.CarriesFunction (old.push e).cies) old.fdes new.fdes :=
    h.fdes.imp fun _ _ => hextends.carries
  cases e with
  | cie cie =>
      cases e' with
      | cie cie' => exact ⟨List.rel_append h.cies (.cons he .nil), hkept⟩
      | fde fde' => exact he.elim
  | fde fde =>
      cases e' with
      | cie cie' => exact he.elim
      | fde fde' => exact ⟨h.cies, List.rel_append hkept (.cons he .nil)⟩

/-- **Reading a record commutes with a move** of its section: it is refused for the same cause, or gives the entry that the
    move makes of the one it gave. -/
theorem Relocated.entry (h : Relocated move old new) {input : SectionInput} (hoffset : move.oldOffset = input.span.offset)
    (r : RawRecord) :
    (∃ e, input.entry old r r.body = .error e ∧ (move.input input).entry new r r.body = .error e) ∨
      ∃ e e' rest, input.entry old r r.body = .ok (e, rest) ∧ (move.input input).entry new r r.body = .ok (e', rest) ∧
        move.CarriesEntry old.cies e e' := by
  unfold SectionInput.entry
  cases hid : Field.u32 r.body with
  | error e => exact .inl ⟨e, Field.bind_of_error hid, Field.bind_of_error hid⟩
  | ok pair =>
      obtain ⟨id, fields⟩ := pair
      rw [Field.bind_of_ok hid, Field.bind_of_ok hid]
      have hfields : fields.length ≤ r.finish := by
        have hle := (Field.u32_consumes _ _ _ hid).length_le
        unfold RawRecord.finish
        omega
      rw [show (move.input input).flavour = input.flavour from rfl, ← hoffset]
      by_cases hmark : id = input.flavour.mark
      · rw [if_pos hmark, if_pos hmark]
        have hbecomes := Cie.read_becomes input.flavour input.addressSize r.offset (move.oldOffset + r.finish)
          (move.newOffset + r.finish) fields
        cases hread : Cie.read input.flavour input.addressSize r.offset (move.oldOffset + r.finish) fields with
        | error e =>
            rw [hread] at hbecomes
            exact .inl ⟨e, Field.bind_of_error hread, Field.bind_of_error hbecomes⟩
        | ok pair =>
            obtain ⟨cie, rest⟩ := pair
            rw [hread] at hbecomes
            obtain ⟨-, -, hextent⟩ := Cie.read_eq_ok hread
            have hrest := (Cie.read_consumes _ _ _ _ _ _ _ hread).length_le
            refine .inr ⟨.cie cie, _, rest, Field.bind_of_ok hread, Field.bind_of_ok hbecomes, _, ?_, rfl⟩
            rw [hextent]
            exact move.shifts_left (Nat.le_trans hrest hfields)
      · rw [if_neg hmark, if_neg hmark]
        rcases h.named? input (r.offset + 4) id with ⟨hold, hnew⟩ | ⟨index, cie, cie', hold, hnew, hcommon⟩
        · rw [hold, hnew]
          exact .inl ⟨_, rfl, rfl⟩
        · rw [hold, hnew]
          -- the stretch of the common record's instructions plays no part in the reading of a function record
          obtain ⟨stretch, -, rfl⟩ := hcommon
          have hbecomes := Fde.read_becomes cie index r.offset r.finish (move.oldOffset + r.finish)
            (move.newOffset + r.finish) input.span.address move.slide fields
          cases hread : Fde.read cie index r.offset r.finish (move.oldOffset + r.finish) input.span.address fields with
          | error e =>
              rw [hread] at hbecomes
              exact .inl ⟨e, Field.bind_of_error hread, Field.bind_of_error hbecomes⟩
          | ok pair =>
              obtain ⟨fde, rest⟩ := pair
              rw [hread] at hbecomes
              obtain ⟨hindex, -, -, hextent, -⟩ := Fde.read_eq_ok hread
              have hrest := (Fde.read_consumes _ _ _ _ _ _ _ _ _ hread).length_le
              obtain ⟨hcie, -, -⟩ := SectionInput.named?_eq_some hold
              refine .inr ⟨.fde fde, _, rest, Field.bind_of_ok hread, Field.bind_of_ok hbecomes, cie, _, ?_, ?_, rfl⟩
              · rw [hindex]
                exact hcie
              · rw [hextent]
                exact move.shifts_left (Nat.le_trans hrest hfields)

/-- **Reading records commutes with a move** of their section, up to the first that cannot be read. -/
theorem Relocated.addRecords (h : Relocated move old new) {input : SectionInput}
    (hoffset : move.oldOffset = input.span.offset) (rs : List RawRecord) :
    ((move.input input).addRecords rs new).1 = (input.addRecords rs old).1 ∧
      Relocated move (input.addRecords rs old).2 ((move.input input).addRecords rs new).2 := by
  induction rs generalizing old new with
  | nil => exact ⟨rfl, h⟩
  | cons r rs ih =>
      rw [SectionInput.addRecords, SectionInput.addRecords]
      rcases h.entry hoffset r with ⟨e, hold, hnew⟩ | ⟨e, e', rest, hold, hnew, hcarries⟩
      · simp only [hold, hnew]
        exact ⟨trivial, h⟩
      · simp only [hold, hnew]
        exact ih (h.push hcarries)

/-- **Reading a section commutes with moving it**, when its bytes are those of the old place. -/
theorem Relocated.readSection (h : Relocated move old new) (input : SectionInput) (image image' : Bytes)
    (hoffset : move.oldOffset = input.span.offset)
    (hbytes : (move.input input).span.slice? image' = input.span.slice? image) :
    (new.readSection image' (move.input input)).1 = (old.readSection image input).1 ∧
      Relocated move (old.readSection image input).2 (new.readSection image' (move.input input)).2 := by
  unfold FrameRecords.readSection
  rw [hbytes]
  cases input.span.slice? image with
  | none => exact ⟨rfl, h⟩
  | some bs =>
      obtain ⟨houtcome, hrecords⟩ := h.addRecords hoffset (Framing.cut bs).records
      dsimp only
      rcases hold : input.addRecords (Framing.cut bs).records old with ⟨outcome, after⟩
      rcases hnew : (move.input input).addRecords (Framing.cut bs).records new with ⟨outcome', after'⟩
      rw [hold, hnew] at houtcome hrecords
      obtain rfl : outcome' = outcome := houtcome
      rcases outcome' with e | _ <;> exact ⟨rfl, hrecords⟩

end Moves

end FrameRecords

/-! ## Addresses that are never encoded -/

/-- Common records of the debug flavour have no relative pointers. -/
theorem Cie.not_relative_of_read {given : UInt8} {offset imageFinish : Nat} {bs rest : Bytes} {cie : Cie}
    (h : Cie.read .debugFrame given offset imageFinish bs = .ok (cie, rest)) : ¬ cie.encoding.IsRelative := by
  have habsolute : ∀ (augmentation : Bytes) (addressSize : UInt8) (bs : Bytes) (encoding : PointerEncoding) (rest : Bytes),
      statedEncoding .debugFrame augmentation addressSize bs = .ok (encoding, rest) → encoding = .absolute := by
    intro augmentation addressSize bs encoding rest hstated
    unfold statedEncoding at hstated
    split at hstated
    · obtain ⟨_, _, -, hstated⟩ := Field.bind_eq_ok.mp hstated
      obtain ⟨_, _, -, hstated⟩ := Field.bind_eq_ok.mp hstated
      cases hstated
      rfl
    · cases hstated
      rfl
  unfold Cie.read at h
  obtain ⟨version, _, -, h⟩ := Field.bind_eq_ok.mp h
  split at h
  · obtain ⟨augmentation, _, -, h⟩ := Field.bind_eq_ok.mp h
    obtain ⟨codeAlign, _, -, h⟩ := Field.bind_eq_ok.mp h
    obtain ⟨dataAlign, _, -, h⟩ := Field.bind_eq_ok.mp h
    obtain ⟨returnColumn, _, -, h⟩ := Field.bind_eq_ok.mp h
    obtain ⟨addressSize, _, -, h⟩ := Field.bind_eq_ok.mp h
    obtain ⟨encoding, _, hencoding, h⟩ := Field.bind_eq_ok.mp h
    obtain ⟨left, _, -, h⟩ := Field.bind_eq_ok.mp h
    cases h
    have hplain : ¬ PointerEncoding.absolute.IsRelative := by decide
    exact habsolute _ _ _ _ _ hencoding ▸ hplain
  · cases h

/-- No common record of a section of the debug flavour has relative pointers. -/
theorem SectionInput.not_relative_of_addRecords {input : SectionInput} (hflavour : input.flavour = .debugFrame)
    (rs : List RawRecord) {records : FrameRecords} (h : ∀ cie ∈ records.cies, ¬ cie.encoding.IsRelative) :
    ∀ cie ∈ (input.addRecords rs records).2.cies, ¬ cie.encoding.IsRelative := by
  induction rs generalizing records with
  | nil => exact h
  | cons r rs ih =>
      rw [SectionInput.addRecords]
      split
      · rename_i e rest hread
        refine ih ?_
        obtain ⟨id, fields, -, hkind⟩ := SectionInput.entry_eq_ok hread
        rcases hkind with ⟨-, new, rfl, hcie⟩ | ⟨-, index, common, fde, rfl, -, -⟩
        · rw [hflavour] at hcie
          intro cie hmem
          rcases List.mem_append.mp hmem with hbefore | hnew
          · exact h cie hbefore
          · rw [List.mem_singleton.mp hnew]
            exact Cie.not_relative_of_read hcie
        · exact h
      · exact h

theorem FrameRecords.not_relative_of_readSection {image : Bytes} {input : SectionInput}
    (hflavour : input.flavour = .debugFrame) :
    ∀ cie ∈ (FrameRecords.empty.readSection image input).2.cies, ¬ cie.encoding.IsRelative := by
  have hempty : ∀ cie ∈ FrameRecords.empty.cies, ¬ cie.encoding.IsRelative := fun _ hcie => nomatch hcie
  rw [FrameRecords.readSection_eq]
  split
  · exact hempty
  · exact SectionInput.not_relative_of_addRecords hflavour _ hempty

/-! ## Main statement -/

namespace FrameRecords

/-- **Records of a section linked further on**: the same ones, but for the first addresses of function records that are
    counted from their fields. -/
structure Slid (slide : UInt64) (old new : FrameRecords) : Prop where
  cies : new.cies = old.cies
  fdes : List.Forall₂
    (fun f f' => ∃ cie, old.cies[f.cie]? = some cie ∧
      f' = { f with first := if cie.encoding.IsRelative then f.first + slide else f.first }) old.fdes new.fdes

/-- **Records of a section that stands elsewhere in an image**: the same ones, but for the stretches of instructions. -/
structure Shifted (oldOffset newOffset : Nat) (old new : FrameRecords) : Prop where
  cies : List.Forall₂
    (fun c c' => ∃ start finish, start + oldOffset = c.instructions.start + newOffset ∧
      finish + oldOffset = c.instructions.finish + newOffset ∧ c' = { c with instructions := ⟨start, finish⟩ })
    old.cies new.cies
  fdes : List.Forall₂
    (fun f f' => ∃ start finish, start + oldOffset = f.instructions.start + newOffset ∧
      finish + oldOffset = f.instructions.finish + newOffset ∧ f' = { f with instructions := ⟨start, finish⟩ })
    old.fdes new.fdes

variable {old new : FrameRecords}

/-- A stretch that has not been moved is the same stretch. -/
theorem eq_of_shifts {offset : Nat} {slide : UInt64} {e e' : Extent} (h : Relocation.Shifts ⟨offset, offset, slide⟩ e e') :
    e' = e := by
  obtain ⟨hstart, hfinish⟩ := h
  cases e
  cases e'
  simp only at hstart hfinish
  congr 1 <;> omega

/-- A move along the addresses alone. -/
theorem Relocated.slid {offset : Nat} {slide : UInt64} (h : Relocated ⟨offset, offset, slide⟩ old new) :
    Slid slide old new := by
  constructor
  · have hsame : List.Forall₂ (fun c c' => c = c') old.cies new.cies :=
      h.cies.imp fun c c' ⟨stretch, hshifts, hc'⟩ => by rw [hc', eq_of_shifts hshifts]
    exact (List.forall₂_eq_eq_eq ▸ hsame).symm
  · refine h.fdes.imp fun f f' ⟨cie, stretch, hcie, hshifts, hf'⟩ => ⟨cie, hcie, ?_⟩
    rw [hf', eq_of_shifts hshifts]
    rfl

/-- A move in an image alone. -/
theorem Relocated.shifted {oldOffset newOffset : Nat} (h : Relocated ⟨oldOffset, newOffset, 0⟩ old new) :
    Shifted oldOffset newOffset old new := by
  constructor
  · exact h.cies.imp fun c c' ⟨stretch, hshifts, hc'⟩ => ⟨_, _, hshifts.start, hshifts.finish, hc'⟩
  · refine h.fdes.imp fun f f' ⟨cie, stretch, _, hshifts, hf'⟩ => ⟨_, _, hshifts.start, hshifts.finish, ?_⟩
    have hzero : cie.encoding.slid 0 f.first = f.first := by
      unfold PointerEncoding.slid
      rw [UInt64.add_zero, ite_self]
    rw [hf', hzero]

/-- Without relative pointers nothing slides. -/
theorem Slid.eq_of_not_relative {slide : UInt64} (h : Slid slide old new)
    (hplain : ∀ cie ∈ old.cies, ¬ cie.encoding.IsRelative) : new = old := by
  have hsame : List.Forall₂ (fun f f' => f = f') old.fdes new.fdes := by
    refine h.fdes.imp fun f f' ⟨cie, hcie, hf'⟩ => ?_
    rw [hf', if_neg (hplain cie (List.mem_of_getElem? hcie))]
  have hfdes : old.fdes = new.fdes := List.forall₂_eq_eq_eq ▸ hsame
  cases old
  cases new
  rw [FrameRecords.mk.injEq]
  exact ⟨h.cies, hfdes.symm⟩

end FrameRecords

/-- **Reading a frame section commutes with moving it.** For every section, whatever its bytes:
    * linked at an address `slide` further on, it is read with the same outcome and to the same records, but for the first
      addresses of those function records whose common record has pointers counted from their field: each of these is
      `slide` more. In the debug flavour there are none;
    * standing at another offset of another image, it is read with the same outcome and to the same records, but for the
      stretches of instructions: each of them is shifted by the difference of the offsets. -/
theorem readSection_commutes_with_relocation (image : Bytes) (input : SectionInput) :
    let here := FrameRecords.empty.readSection image input
    (∀ slide : UInt64,
      let linked := { input with span := { input.span with address := input.span.address + slide } }
      let there := FrameRecords.empty.readSection image linked
      there.1 = here.1 ∧ here.2.Slid slide there.2 ∧ (input.flavour = .debugFrame → there = here)) ∧
    ∀ (image' : Bytes) (offset' : Nat),
      let moved := { input with span := { input.span with offset := offset' } }
      moved.span.slice? image' = input.span.slice? image →
      let there := FrameRecords.empty.readSection image' moved
      there.1 = here.1 ∧ here.2.Shifted input.span.offset offset' there.2 := by
  intro here
  constructor
  · intro slide linked there
    obtain ⟨houtcome, hrecords⟩ :=
      (FrameRecords.Relocated.empty ⟨input.span.offset, input.span.offset, slide⟩).readSection input image image rfl rfl
    refine ⟨houtcome, hrecords.slid, ?_⟩
    intro hflavour
    exact Prod.ext houtcome (hrecords.slid.eq_of_not_relative (FrameRecords.not_relative_of_readSection hflavour))
  · intro image' offset' moved hbytes there
    have hmoved : (Relocation.mk input.span.offset offset' 0).input input = moved := by
      rw [Relocation.input, UInt64.add_zero]
    have hread :=
      (FrameRecords.Relocated.empty ⟨input.span.offset, offset', 0⟩).readSection input image image' rfl (hmoved ▸ hbytes)
    rw [hmoved] at hread
    exact ⟨hread.1, hread.2.shifted⟩

/-- A common record whose function records count addresses from their fields, a function record of it, and a length of
    zero. -/
def relativeFrames : Bytes :=
  [0x14, 0, 0, 0, 0, 0, 0, 0, 1, 0x7a, 0x52, 0, 1, 0x78, 0x10, 1, 0x1b, 0xc, 7, 8, 0x90, 1, 0, 0,
    0x14, 0, 0, 0, 0x1c, 0, 0, 0, 0xe0, 0xef, 0xff, 0xff, 0x40, 0, 0, 0, 0, 0x41, 0x0e, 0x10, 0, 0, 0, 0,
    0, 0, 0, 0]

/-- Linked further on the function begins further on, and three bytes into another image its instructions stand three
    bytes further on. -/
theorem readSection_commutes_with_relocation_relative :
    let image' := [1, 2, 3] ++ relativeFrames ++ [4]
    let input : SectionInput := ⟨⟨0, 52, 0x2000⟩, .ehFrame, 8⟩
    let linked : SectionInput := ⟨⟨0, 52, 0x2100⟩, .ehFrame, 8⟩
    let moved : SectionInput := ⟨⟨3, 52, 0x2000⟩, .ehFrame, 8⟩
    let here := FrameRecords.empty.readSection relativeFrames input
    here.1 = .ok () ∧ here.2.fdes = [⟨0, .ehFrame, 24, 0x1000, 0x40, ⟨41, 48⟩⟩] ∧
      here.2.Slid 0x100 (FrameRecords.empty.readSection relativeFrames linked).2 ∧
      (FrameRecords.empty.readSection relativeFrames linked).2.fdes = [⟨0, .ehFrame, 24, 0x1100, 0x40, ⟨41, 48⟩⟩] ∧
      moved.span.slice? image' = input.span.slice? relativeFrames ∧
      here.2.Shifted 0 3 (FrameRecords.empty.readSection image' moved).2 ∧
      (FrameRecords.empty.readSection image' moved).2.fdes = [⟨0, .ehFrame, 24, 0x1000, 0x40, ⟨44, 51⟩⟩] := by
  intro image' input linked moved here
  obtain ⟨hlinked, hmoved⟩ := readSection_commutes_with_relocation relativeFrames input
  have hbytes : moved.span.slice? image' = input.span.slice? relativeFrames := by decide
  exact ⟨by decide +kernel, by decide +kernel, (hlinked 0x100).2.1, by decide +kernel, hbytes, (hmoved image' 3 hbytes).2,
    by decide +kernel⟩

end Cfi

end Unwinder
