import Mathlib.Data.List.Forall2
import Unwinder.Proofs.FrameRecords
import Unwinder.Proofs.FrameRoundTrip

/-!
# `Proofs.SectionCuts` — a section gives one entry for each of its records

The bytes of a section cut themselves into records: each length word says where the next one stands. This module states
that cut on its own, as a relation between the bytes and the records, and shows that reading a section follows it: what is
added are the entries of the records in a row, up to the end of the section or to the first record that is at fault, and
nothing behind that place has any influence.

## Contents
- **Cuts.** `Framing.Chain`, records in a row. `Chain.prefix_of_ended`: a section has one cut.
- **Entries.** `Entry.IsOf` ties an entry to its record; `SectionInput.addRecords_eq_ok` gives one entry for each.
- **Faults.** `SectionInput.Offends`, what can be wrong with the record at a place.
- **Reading along a cut.** `SectionInput.Follows`, shown for every section by `readSection_follows`; `Chain.cutFrom` shows
  that only the records in the row matter.
- **Main statement.** `readSection_follows_cut`.
-/

namespace Unwinder.Cfi

/-! ## Cuts -/

/-- Where a record stands, the records have not ended. -/
theorem RawRecord.StandsIn.not_ended {bs : Bytes} {r : RawRecord} (h : r.StandsIn bs) (hlong : 4 ≤ r.body.length) :
    ¬ Framing.Ended bs r.offset := by
  have hfinish : r.finish = r.offset + 4 + r.body.length := rfl
  have hfits := h.fits
  have hword := h.length
  rintro (hshort | hzero) <;> omega

/-- A record is determined by its place. -/
theorem RawRecord.StandsIn.unique {bs : Bytes} {r s : RawRecord} (hr : r.StandsIn bs) (hs : s.StandsIn bs)
    (hoffset : r.offset = s.offset) : r = s := by
  have hlength : r.body.length = s.body.length := by rw [← hr.length, ← hs.length, hoffset]
  have hbody : r.body = s.body := by rw [hr.body, hs.body, hlength, hoffset]
  cases r
  cases s
  cases hoffset
  cases hbody
  rfl

namespace Framing

/-- **Records in a row.** From one offset of a section to another there is nothing but these records, each right behind the
    one before it and of a length between 4 and 0xfffffffe. -/
inductive Chain (bs : Bytes) : Nat → List RawRecord → Nat → Prop where
  | nil (offset : Nat) : Chain bs offset [] offset
  | cons {r : RawRecord} {rs : List RawRecord} {place : Nat} (hstands : r.StandsIn bs) (hlong : 4 ≤ r.body.length)
      (hnarrow : r.body.length < wideMark) (hrest : Chain bs r.finish rs place) : Chain bs r.offset (r :: rs) place

section Chains

variable {bs : Bytes} {offset place : Nat} {rs : List RawRecord}

/-- Every record of a row takes eight bytes at least. -/
theorem Chain.advances (h : Chain bs offset rs place) : offset + 8 * rs.length ≤ place := by
  induction h with
  | nil offset => exact Nat.le_refl _
  | @cons r rs place _ hlong _ _ ih =>
      have hfinish : r.finish = r.offset + 4 + r.body.length := rfl
      rw [List.length_cons]
      omega

/-- A row ends in the section. -/
theorem Chain.inside (h : Chain bs offset rs place) (hoffset : offset ≤ bs.length) : place ≤ bs.length := by
  induction h with
  | nil offset => exact hoffset
  | cons hstands _ _ _ ih => exact ih hstands.fits

/-- Every record of a row stands in the section. -/
theorem Chain.standsIn (h : Chain bs offset rs place) : ∀ r ∈ rs, r.StandsIn bs := by
  induction h with
  | nil offset => exact fun _ hr => nomatch hr
  | cons hstands _ _ _ ih => exact List.forall_mem_cons.mpr ⟨hstands, ih⟩

/-- **A section has one cut**: a row of records from one place is the beginning of every row from there that goes on to the
    end of the records. -/
theorem Chain.prefix_of_ended (h : Chain bs offset rs place) {rs' : List RawRecord} {place' : Nat}
    (h' : Chain bs offset rs' place') (hended : Ended bs place') : rs <+: rs' := by
  induction h generalizing rs' with
  | nil offset => exact List.nil_prefix
  | @cons r rs place hstands hlong _ _ ih =>
      generalize hplace : r.offset = offset at h'
      cases h' with
      | nil => exact absurd (hplace ▸ hended) (hstands.not_ended hlong)
      | @cons r' rs' _ hstands' _ _ hrest' =>
          obtain rfl := hstands.unique hstands' hplace
          exact (List.prefix_cons_inj r).mpr (ih hrest')

end Chains

end Framing

/-! ## Entries -/

namespace Entry

/-- Whether an entry is a common record. -/
def isCommon : Entry → Bool
  | .cie _ => true
  | .fde _ => false

/-- The kind of section an entry was read from. -/
def flavour : Entry → Flavour
  | .cie record => record.flavour
  | .fde record => record.flavour

/-- The offset of an entry's length word in its section. -/
def offset : Entry → Nat
  | .cie record => record.offset
  | .fde record => record.offset

/-- The instructions of an entry. -/
def instructions : Entry → Extent
  | .cie record => record.instructions
  | .fde record => record.instructions

/-- **The entry of a record**: a common record exactly if the id word is the mark of the section's flavour, with the
    record's offset, and with instructions that end where the record does. -/
structure IsOf (input : SectionInput) (bs : Bytes) (r : RawRecord) (e : Entry) : Prop where
  kind : e.isCommon = true ↔ numberAt bs (r.offset + 4) 4 = input.flavour.mark.toNat
  flavour : e.flavour = input.flavour
  offset : e.offset = r.offset
  finish : e.instructions.finish = input.span.offset + r.finish

end Entry

namespace SectionInput

variable {input : SectionInput} {bs : Bytes}

/-- What is read of a record is its entry. -/
theorem isOf_of_entry {records : FrameRecords} {r : RawRecord} (hr : r.StandsIn bs) {e : Entry} {rest : Bytes}
    (h : input.entry records r r.body = .ok (e, rest)) : e.IsOf input bs r := by
  obtain ⟨id, fields, hid, hkind⟩ := entry_eq_ok h
  obtain ⟨hlong, hnumber, -⟩ := Field.u32_eq_ok hid
  rw [← hr.idWord hlong] at hnumber
  have hmark : id = input.flavour.mark ↔ numberAt bs (r.offset + 4) 4 = input.flavour.mark.toNat := by
    rw [← UInt32.toNat_inj, hnumber]
  rcases hkind with ⟨hcommon, cie, rfl, hcie⟩ | ⟨hother, index, cie, fde, rfl, hnamed, hfde⟩
  · obtain ⟨hflavour, hoffset, hextent⟩ := Cie.read_eq_ok hcie
    refine ⟨⟨fun _ => hmark.mp hcommon, fun _ => rfl⟩, hflavour, hoffset, ?_⟩
    show cie.instructions.finish = _
    rw [hextent]
  · obtain ⟨-, hcommonFlavour, -⟩ := named?_eq_some hnamed
    obtain ⟨-, hflavour, hoffset, hextent, -⟩ := Fde.read_eq_ok hfde
    refine ⟨⟨fun hcommon => (Bool.false_ne_true hcommon).elim, fun hword => absurd (hmark.mpr hword) hother⟩,
      hflavour.trans hcommonFlavour, hoffset, ?_⟩
    show fde.instructions.finish = _
    rw [hextent]

/-- **One entry for each record**, in order, when all of them can be read. -/
theorem addRecords_eq_ok {rs : List RawRecord} {records after : FrameRecords} (hrs : ∀ r ∈ rs, r.StandsIn bs)
    (h : input.addRecords rs records = (.ok (), after)) :
    ∃ es : List Entry, after = es.foldl FrameRecords.push records ∧ List.Forall₂ (Entry.IsOf input bs) rs es := by
  induction rs generalizing records with
  | nil =>
      cases h
      exact ⟨[], rfl, .nil⟩
  | cons r rs ih =>
      obtain ⟨hr, hrs⟩ := List.forall_mem_cons.mp hrs
      rw [addRecords] at h
      split at h
      · rename_i e rest hread
        obtain ⟨es, hafter, hentries⟩ := ih hrs h
        exact ⟨e :: es, hafter, .cons (isOf_of_entry hr hread) hentries⟩
      · cases h

/-! ## Faults -/

/-- **What is wrong with the record at a place**, behind records that have been added: its length is one of 64 bits,
    overruns the section, or is too short for an id; or its body cannot be read. -/
inductive Offends (input : SectionInput) (bs : Bytes) (records : FrameRecords) (place : Nat) : Error → Prop where
  | wide (hword : numberAt bs place 4 = Framing.wideMark) :
      Offends input bs records place (.unsupported (.wideRecord place))
  | overrun (hword : numberAt bs place 4 ≠ Framing.wideMark) (hlong : bs.length < place + 4 + numberAt bs place 4) :
      Offends input bs records place (.malformed (.recordOverrun place (numberAt bs place 4) bs.length))
  | short (hshort : numberAt bs place 4 < 4) (hfits : place + 4 + numberAt bs place 4 ≤ bs.length) :
      Offends input bs records place (.malformed (.truncated 4 (numberAt bs place 4)))
  | unreadable {r : RawRecord} {e : Error} (hplace : r.offset = place) (hstands : r.StandsIn bs)
      (hlong : 4 ≤ r.body.length) (hnarrow : r.body.length < Framing.wideMark)
      (hread : input.entry records r r.body = .error e) : Offends input bs records place e

section Kinds

variable {records : FrameRecords} {place : Nat} {e : Error}

/-- A length of 64 bits is not supported. -/
theorem Offends.status_of_wide (h : input.Offends bs records place e)
    (hword : numberAt bs place 4 = Framing.wideMark) : e.status = .notImplemented := by
  cases h with
  | wide => rfl
  | overrun hother _ => exact absurd hword hother
  | short hshort _ =>
      rw [hword] at hshort
      exact absurd hshort (by decide)
  | @unreadable r _ hplace hstands _ hnarrow _ =>
      have hlength := hstands.length
      rw [hplace, hword] at hlength
      omega

/-- A length that overruns the section, or that leaves no room for an id, is malformed. -/
theorem Offends.status_of_misfit (h : input.Offends bs records place e)
    (hword : numberAt bs place 4 ≠ Framing.wideMark)
    (hmisfit : numberAt bs place 4 < 4 ∨ bs.length < place + 4 + numberAt bs place 4) : e.status = .badFormat := by
  cases h with
  | wide hwide => exact absurd hwide hword
  | overrun | short => rfl
  | @unreadable r _ hplace hstands hlong _ _ =>
      have hlength := hstands.length
      have hfits : r.offset + 4 + r.body.length ≤ bs.length := hstands.fits
      rw [hplace] at hlength hfits
      omega

end Kinds

/-- A record of less than four bytes has no id. -/
theorem entry_of_short (input : SectionInput) (records : FrameRecords) (r : RawRecord) (h : r.body.length < 4) :
    input.entry records r r.body = .error (.malformed (.truncated 4 r.body.length)) := by
  have htake : Field.take 4 r.body = .error (.malformed (.truncated 4 r.body.length)) := if_neg (Nat.not_le_of_lt h)
  exact Field.bind_of_error (Field.bind_of_error (Field.bind_of_error htake))

/-! ## Reading along a cut -/

/-- Reads the records of a framing, and then reports its fault. -/
def readFraming (input : SectionInput) (framing : Framing) (records : FrameRecords) :
    Except Error Unit × FrameRecords :=
  match input.addRecords framing.records records with
  | (.ok (), after) => (match framing.fault with | none => .ok () | some e => .error e, after)
  | failed => failed

theorem readSection_of_slice {image : Bytes} (hslice : input.span.slice? image = some bs) (records : FrameRecords) :
    records.readSection image input = input.readFraming (Framing.cut bs) records := by
  unfold FrameRecords.readSection
  rw [hslice]
  rfl

theorem readFraming_of_read {r : RawRecord} {framing : Framing} {records : FrameRecords} {e : Entry} {rest : Bytes}
    (h : input.entry records r r.body = .ok (e, rest)) :
    input.readFraming ⟨r :: framing.records, framing.fault⟩ records = input.readFraming framing (records.push e) := by
  simp only [readFraming, addRecords, h]

theorem readFraming_of_refused {r : RawRecord} {framing : Framing} {records : FrameRecords} {e : Error}
    (h : input.entry records r r.body = .error e) :
    input.readFraming ⟨r :: framing.records, framing.fault⟩ records = (.error e, records) := by
  simp only [readFraming, addRecords, h]

/-- **Reading that follows a cut**: from an offset on, the records in a row up to a place are added; there the records
    end, or one offends. -/
structure Follows (input : SectionInput) (bs : Bytes) (offset : Nat) (records : FrameRecords)
    (result : Except Error Unit × FrameRecords) (rs : List RawRecord) (place : Nat) : Prop where
  chain : Framing.Chain bs offset rs place
  added : input.addRecords rs records = (.ok (), result.2)
  ended : result.1 = .ok () → Framing.Ended bs place
  offends : ∀ e, result.1 = .error e → ¬ Framing.Ended bs place ∧ input.Offends bs result.2 place e

theorem Follows.stop {offset : Nat} {records : FrameRecords} (h : Framing.Ended bs offset) :
    input.Follows bs offset records (.ok (), records) [] offset :=
  ⟨.nil offset, rfl, fun _ => h, fun _ herror => nomatch herror⟩

theorem Follows.fail {offset : Nat} {records : FrameRecords} {e : Error} (hroom : ¬ Framing.Ended bs offset)
    (h : input.Offends bs records offset e) : input.Follows bs offset records (.error e, records) [] offset := by
  refine ⟨.nil offset, rfl, (fun hok => nomatch hok), ?_⟩
  intro e' herror
  cases herror
  exact ⟨hroom, h⟩

theorem Follows.cons {r : RawRecord} {rs : List RawRecord} {place : Nat} {records : FrameRecords} {e : Entry}
    {rest : Bytes} {result : Except Error Unit × FrameRecords} (hstands : r.StandsIn bs) (hlong : 4 ≤ r.body.length)
    (hnarrow : r.body.length < Framing.wideMark) (hread : input.entry records r r.body = .ok (e, rest))
    (h : input.Follows bs r.finish (records.push e) result rs place) :
    input.Follows bs r.offset records result (r :: rs) place :=
  ⟨.cons hstands hlong hnarrow h.chain, by rw [addRecords, hread]; exact h.added, h.ended, h.offends⟩

/-- **Reading follows the cut** of whatever bytes a section consists of. -/
theorem exists_follows (input : SectionInput) {whole rest : Bytes} {size offset : Nat} (hrest : rest = whole.drop offset)
    (hoffset : offset ≤ whole.length) (hsize : size = whole.length) (records : FrameRecords) :
    ∃ rs place, input.Follows whole offset records
      (input.readFraming (Framing.cutFrom size offset rest) records) rs place := by
  -- pass by pass, each of them starting behind the records before it
  fun_induction Framing.cutFrom size offset rest generalizing records with
  | case1 offset bs hshort =>
      rw [hrest, List.length_drop] at hshort
      exact ⟨[], offset, .stop (.inl (by omega))⟩
  | case2 offset bs hword length hzero =>
      have hnumber : numberAt whole offset 4 = length := by rw [numberAt, ← hrest]
      exact ⟨[], offset, .stop (.inr (hnumber.trans hzero))⟩
  | case3 offset bs hword length hzero hwide =>
      have hnumber : numberAt whole offset 4 = length := by rw [numberAt, ← hrest]
      have hlength : bs.length = whole.length - offset := by rw [hrest, List.length_drop]
      refine ⟨[], offset, .fail ?_ (.wide (hnumber.trans hwide))⟩
      rintro (hshort | hnone) <;> omega
  | case4 offset bs hword length behind hzero hwide hlong =>
      have hnumber : numberAt whole offset 4 = length := by rw [numberAt, ← hrest]
      have hlength : bs.length = whole.length - offset := by rw [hrest, List.length_drop]
      have hbehind : behind.length = bs.length - 4 := List.length_drop
      have hoverrun : input.Offends whole records offset (.malformed (.recordOverrun offset length size)) := by
        rw [← hnumber, hsize]
        exact .overrun (by rw [hnumber]; exact hwide) (by omega)
      refine ⟨[], offset, .fail ?_ hoverrun⟩
      rintro (hshort | hnone) <;> omega
  | case5 offset bs hword length behind hzero hwide hlong more ih =>
      have hnumber : numberAt whole offset 4 = length := by rw [numberAt, ← hrest]
      have hstands : (RawRecord.mk offset (behind.take length)).StandsIn whole :=
        RawRecord.standsIn_of_drop hrest (Nat.le_of_not_lt hword) rfl (Nat.le_of_not_lt hlong)
      have hbody : (behind.take length).length = length := List.length_take_of_le (Nat.le_of_not_lt hlong)
      have hfits : offset + 4 + (behind.take length).length ≤ whole.length := hstands.fits
      have hroom : ¬ Framing.Ended whole offset := by
        rintro (hshort | hnone) <;> omega
      have hnarrow : (behind.take length).length < Framing.wideMark := by
        have hlimit := LittleEndian.toNat_lt (bs.take 4)
        rw [List.length_take_of_le (Nat.le_of_not_lt hword)] at hlimit
        have hmax : LittleEndian.limit 4 = Framing.wideMark + 1 := rfl
        have hlimit : length < LittleEndian.limit 4 := hlimit
        omega
      by_cases hid : 4 ≤ (behind.take length).length
      · cases hread : input.entry records ⟨offset, behind.take length⟩ (behind.take length) with
        | error e =>
            rw [readFraming_of_refused hread]
            exact ⟨[], offset, .fail hroom (.unreadable rfl hstands hid hnarrow hread)⟩
        | ok pair =>
            obtain ⟨e, left⟩ := pair
            have hbehind : behind.drop length = whole.drop (offset + 4 + length) := by
              show (bs.drop 4).drop length = _
              rw [hrest, List.drop_drop, List.drop_drop, Nat.add_assoc]
            obtain ⟨rs, place, hfollows⟩ := ih hbehind (by omega) (records.push e)
            have hnext : input.Follows whole (RawRecord.mk offset (behind.take length)).finish (records.push e)
                (input.readFraming more (records.push e)) rs place := by
              rw [RawRecord.finish, hbody]
              exact hfollows
            rw [readFraming_of_read hread]
            exact ⟨_, place, hnext.cons hstands hid hnarrow hread⟩
      · have hrefused := entry_of_short input records ⟨offset, behind.take length⟩ (Nat.lt_of_not_le hid)
        rw [readFraming_of_refused hrefused]
        have hshort : input.Offends whole records offset (.malformed (.truncated 4 (behind.take length).length)) := by
          rw [hbody, ← hnumber]
          exact .short (by omega) (by omega)
        exact ⟨[], offset, .fail hroom hshort⟩

/-- A section is read along its cut from the beginning. -/
theorem readSection_follows {image : Bytes} (hslice : input.span.slice? image = some bs) (records : FrameRecords) :
    ∃ rs place, input.Follows bs 0 records (records.readSection image input) rs place := by
  rw [readSection_of_slice hslice, Framing.cut]
  exact exists_follows input (List.drop_zero).symm (Nat.zero_le bs.length) rfl records

/-- Where a section ends makes no difference to the records in it. -/
theorem addRecords_congr {span : SectionSpan} (hoffset : span.offset = input.span.offset)
    (haddress : span.address = input.span.address) (rs : List RawRecord) (records : FrameRecords) :
    ({ input with span } : SectionInput).addRecords rs records = input.addRecords rs records := by
  obtain ⟨⟨o, length, a⟩, flavour, addressSize⟩ := input
  obtain ⟨o', length', a'⟩ := span
  cases hoffset
  cases haddress
  induction rs generalizing records with
  | nil => rfl
  | cons r rs ih =>
      simp only [addRecords, ih]
      rfl

end SectionInput

/-- A record that stands in a section is there as it would be written. -/
theorem RawRecord.StandsIn.front {bs : Bytes} {r : RawRecord} (h : r.StandsIn bs) {place : Nat}
    (hplace : r.finish ≤ place) :
    (bs.take place).drop r.offset = LittleEndian.ofNat 4 r.body.length ++ r.body ++ (bs.take place).drop r.finish := by
  have hfinish : r.finish = r.offset + 4 + r.body.length := rfl
  have hfits := h.fits
  -- a part of the section before the place is one of the section
  have hpart : ∀ offset width, offset + width ≤ place →
      ((bs.take place).drop offset).take width = (bs.drop offset).take width := by
    intro offset width hwidth
    rw [List.drop_take, List.take_take, Nat.min_eq_left (by omega)]
  have hword : ((bs.take place).drop r.offset).take 4 = LittleEndian.ofNat 4 r.body.length := by
    have hwidth : ((bs.drop r.offset).take 4).length = 4 := by
      rw [List.length_take, List.length_drop]
      omega
    have hwritten := LittleEndian.ofNat_toNat ((bs.drop r.offset).take 4)
    rw [hwidth] at hwritten
    rw [hpart _ _ (by omega), ← hwritten]
    exact congrArg (LittleEndian.ofNat 4) h.length
  have hbody : ((bs.take place).drop (r.offset + 4)).take r.body.length = r.body := by
    rw [hpart _ _ (by omega)]
    exact h.body.symm
  calc (bs.take place).drop r.offset
      = ((bs.take place).drop r.offset).take 4 ++ ((bs.take place).drop r.offset).drop 4 :=
        (List.take_append_drop 4 _).symm
    _ = LittleEndian.ofNat 4 r.body.length ++ (bs.take place).drop (r.offset + 4) := by rw [hword, List.drop_drop]
    _ = LittleEndian.ofNat 4 r.body.length ++ (((bs.take place).drop (r.offset + 4)).take r.body.length ++
          ((bs.take place).drop (r.offset + 4)).drop r.body.length) := by rw [List.take_append_drop]
    _ = _ := by rw [hbody, List.drop_drop, ← hfinish, List.append_assoc]

namespace Framing

/-- **Only the records in a row matter**: with anything behind them in which no record follows, they are cut off the
    same. -/
theorem Chain.cutFrom {bs : Bytes} {offset place : Nat} {rs : List RawRecord} (h : Chain bs offset rs place)
    (hoffset : offset ≤ bs.length) (size : Nat) {tail : Bytes} (htail : Ended tail 0) :
    Framing.cutFrom size offset ((bs.take place).drop offset ++ tail) = ⟨rs, none⟩ := by
  induction h with
  | nil offset =>
      have hnothing : (bs.take offset).drop offset = [] := List.drop_eq_nil_of_le (List.length_take_le _ _)
      rw [hnothing, List.nil_append]
      exact cutFrom_ended size offset htail
  | @cons r rs place hstands hlong hnarrow hrest ih =>
      have hfinish : r.finish = r.offset + 4 + r.body.length := rfl
      have hplace : r.finish ≤ place := Nat.le_of_add_right_le hrest.advances
      rw [hstands.front hplace, List.append_assoc,
        cutFrom_record size r.offset _ (by omega) hnarrow, ← hfinish, ih hstands.fits]

end Framing

/-! ## Main statement -/

/-- **Reading a section follows its cut.** Whatever the bytes of a section are, there are records in a row from its
    beginning up to a place, and
    * every section that has these bytes has them at the beginning of its cut, and there is room for no more than one in
      eight bytes;
    * what is added are the entries of these records, one for each and in order;
    * if the section is read to its end, the records end at the place; if not, the record at the place offends, and it is
      not supported if its length is one of 64 bits and malformed if its length does not fit;
    * whatever else stands behind the place, or nothing, the same is added, as long as it holds no further record. -/
theorem readSection_follows_cut {image bs : Bytes} {input : SectionInput}
    (hslice : input.span.slice? image = some bs) (records : FrameRecords) :
    let result := records.readSection image input
    ∃ (rs : List RawRecord) (place : Nat) (es : List Entry),
      Framing.Chain bs 0 rs place ∧ 8 * rs.length ≤ place ∧ place ≤ bs.length ∧
      (∀ rs' place', Framing.Chain bs 0 rs' place' → Framing.Ended bs place' → rs <+: rs') ∧
      result.2 = es.foldl FrameRecords.push records ∧ List.Forall₂ (Entry.IsOf input bs) rs es ∧
      (result.1 = .ok () → Framing.Ended bs place) ∧
      (∀ e, result.1 = .error e →
        ¬ Framing.Ended bs place ∧ input.Offends bs result.2 place e ∧
        (numberAt bs place 4 = 0xffffffff → e.status = .notImplemented) ∧
        (numberAt bs place 4 ≠ 0xffffffff →
          numberAt bs place 4 < 4 ∨ bs.length < place + 4 + numberAt bs place 4 → e.status = .badFormat)) ∧
      ∀ (image' : Bytes) (span : SectionSpan) (tail : Bytes),
        span.offset = input.span.offset → span.address = input.span.address →
        span.slice? image' = some (bs.take place ++ tail) → Framing.Ended tail 0 →
          records.readSection image' { input with span } = (.ok (), result.2) := by
  intro result
  obtain ⟨rs, place, hfollows⟩ := SectionInput.readSection_follows hslice records
  have hchain := hfollows.chain
  have hadvances := hchain.advances
  obtain ⟨es, hadded, hentries⟩ := SectionInput.addRecords_eq_ok hchain.standsIn hfollows.added
  refine ⟨rs, place, es, hchain, by omega, hchain.inside (Nat.zero_le _), ?_, hadded, hentries, hfollows.ended, ?_, ?_⟩
  · exact fun rs' place' hcut hended => hchain.prefix_of_ended hcut hended
  · intro e herror
    obtain ⟨hroom, hoffends⟩ := hfollows.offends e herror
    exact ⟨hroom, hoffends, hoffends.status_of_wide, hoffends.status_of_misfit⟩
  · intro image' span tail hoffset haddress hslice' htail
    have hcut : Framing.cut (bs.take place ++ tail) = ⟨rs, none⟩ :=
      hchain.cutFrom (Nat.zero_le _) _ htail
    rw [SectionInput.readSection_of_slice hslice', hcut, SectionInput.readFraming,
      SectionInput.addRecords_congr hoffset haddress, hfollows.added]

/-- A section whose third record names no common one: the first two are read, and are all that is read of the section
    cut off behind them. -/
theorem readSection_follows_cut_stray :
    let input : SectionInput := ⟨⟨0, 50, 0⟩, .ehFrame, 8⟩
    let result := FrameRecords.empty.readSection strayFrames input
    input.span.slice? strayFrames = some strayFrames ∧
      result.1 = .error (.malformed (.unknownCie 42 0x40)) ∧
      ∃ rs place es, Framing.Chain strayFrames 0 rs place ∧ ¬ Framing.Ended strayFrames place ∧
        List.Forall₂ (Entry.IsOf input strayFrames) rs es ∧ result.2 = es.foldl FrameRecords.push .empty ∧
        FrameRecords.empty.readSection (strayFrames.take place)
          { input with span := ⟨0, (strayFrames.take place).length, 0⟩ } = (.ok (), result.2) := by
  intro input result
  have hslice : input.span.slice? strayFrames = some strayFrames := by decide +kernel
  have herror : result.1 = .error (.malformed (.unknownCie 42 0x40)) := by decide +kernel
  obtain ⟨rs, place, es, hchain, -, -, -, hadded, hentries, -, hoffends, halone⟩ :=
    readSection_follows_cut hslice FrameRecords.empty
  refine ⟨hslice, herror, rs, place, es, hchain, (hoffends _ herror).1, hentries, hadded, ?_⟩
  refine halone (strayFrames.take place) ⟨0, (strayFrames.take place).length, 0⟩ [] rfl rfl ?_ (.inl (by decide))
  rw [List.append_nil, SectionSpan.slice?, if_pos (Nat.le_of_eq (Nat.zero_add _)), List.drop_zero, List.take_length]

end Unwinder.Cfi
