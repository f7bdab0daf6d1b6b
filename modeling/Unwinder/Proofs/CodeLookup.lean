import Mathlib.Data.List.Pairwise
import Unwinder.Cfi.Row
import Unwinder.Proofs.Indexing
import Unwinder.Proofs.SectionCuts

/-!
# `Proofs.CodeLookup` — which function record an address leads to

A function record says where its code begins and how many bytes it has. Over unbounded numbers these say which addresses
are its code, also when the bytes reach past the largest address. This module shows that looking an address up finds the
first record of the table whose code it is, for every address but the largest: the end of the code is kept as an address,
so that code that reaches past all of them ends before the last one.

## Contents
- **Code.** `Fde.Spans`, the addresses of a function record, with `covers_iff`.
- **Lookup.** `covering?_eq_some_iff` and `isSome_covering?_iff`; `covering?_of_perm` for records in any order, which
  `covering?_eq_some_of_apart` finds by their code alone.
- **The order of a table.** `fdes_readSection`: a section adds function records of its own flavour behind the others;
  `FrameIndex.layered` says so of the two sections of an image.
- **Main statement.** `lookup_exact_below_last`.
-/

namespace Unwinder.Cfi

/-! ## Code -/

namespace Fde

/-- **The code of a function record**: from its first address on, as many bytes as its length says. -/
def Spans (fde : Fde) (pc : UInt64) : Prop :=
  fde.first.toNat ≤ pc.toNat ∧ pc.toNat < fde.first.toNat + fde.length.toNat

instance (fde : Fde) (pc : UInt64) : Decidable (fde.Spans pc) := inferInstanceAs (Decidable (_ ∧ _))

/-- Function records that have no code in common. -/
def Apart (a b : Fde) : Prop := ∀ pc, ¬ (a.Spans pc ∧ b.Spans pc)

instance : Std.Symm Apart := ⟨fun _ _ h pc hboth => h pc hboth.symm⟩

/-- **What is covered** is the code but for the largest address. -/
theorem covers_iff (fde : Fde) (pc : UInt64) : fde.covers pc = true ↔ fde.Spans pc ∧ pc ≠ lastAddress := by
  have hlast : pc ≠ lastAddress ↔ pc.toNat ≠ 2 ^ 64 - 1 := by
    rw [Ne, ← UInt64.toNat_inj]
    rfl
  have hlt := pc.toNat_lt
  have hword : LittleEndian.wordLimit = 2 ^ 64 := rfl
  rw [covers, Bool.and_eq_true, decide_eq_true_iff, decide_eq_true_iff, UInt64.le_iff_toNat_le, UInt64.lt_iff_toNat_lt,
    hlast, Spans]
  unfold last
  split
  · rename_i hfits
    have hsum : (fde.first + fde.length).toNat = fde.first.toNat + fde.length.toNat := by
      rw [UInt64.toNat_add, Nat.mod_eq_of_lt (hword ▸ hfits)]
    rw [hsum]
    omega
  · have hmax : (0xffffffffffffffff : UInt64).toNat = 2 ^ 64 - 1 := rfl
    rw [hmax]
    omega

theorem covers_iff_spans {pc : UInt64} (hpc : pc ≠ lastAddress) (fde : Fde) : fde.covers pc = true ↔ fde.Spans pc := by
  rw [fde.covers_iff]
  exact and_iff_left hpc

end Fde

/-! ## Lookup -/

namespace FrameRecords

variable {records : FrameRecords} {pc : UInt64}

/-- No function record is found for the largest address. -/
theorem covering?_lastAddress (records : FrameRecords) : records.covering? lastAddress = none := by
  rw [covering?, List.find?_eq_none]
  intro fde _ hcovers
  exact ((fde.covers_iff lastAddress).mp hcovers).2 rfl

/-- **The record found** is the first one whose code the address is. -/
theorem covering?_eq_some_iff (hpc : pc ≠ lastAddress) {fde : Fde} :
    records.covering? pc = some fde ↔
      fde.Spans pc ∧ ∃ before after, records.fdes = before ++ fde :: after ∧ ∀ other ∈ before, ¬ other.Spans pc := by
  simp only [covering?, List.find?_eq_some_iff_append, Bool.not_eq_true', ← Bool.not_eq_true, Fde.covers_iff_spans hpc]

/-- A record is found when the address is the code of any. -/
theorem isSome_covering?_iff (hpc : pc ≠ lastAddress) :
    (records.covering? pc).isSome = true ↔ ∃ fde ∈ records.fdes, fde.Spans pc := by
  simp only [covering?, List.find?_isSome, Fde.covers_iff_spans hpc]

theorem covers_of_covering? {fde : Fde} (h : records.covering? pc = some fde) : fde.covers pc = true :=
  List.find?_some (p := fun other : Fde => other.covers pc) h

/-- Among records that have no code in common, the one found is the one that covers the address, wherever it stands. -/
theorem covering?_eq_some_of_apart (hapart : records.fdes.Pairwise Fde.Apart) {fde : Fde} :
    records.covering? pc = some fde ↔ fde ∈ records.fdes ∧ fde.covers pc = true := by
  constructor
  · intro hfound
    exact ⟨List.mem_of_find?_eq_some hfound, covers_of_covering? hfound⟩
  · rintro ⟨hmem, hcovers⟩
    have hsome : (records.covering? pc).isSome = true := List.find?_isSome.mpr ⟨fde, hmem, hcovers⟩
    obtain ⟨found, hfound⟩ := Option.isSome_iff_exists.mp hsome
    have hboth : found.Spans pc ∧ fde.Spans pc :=
      ⟨((found.covers_iff pc).mp (covers_of_covering? hfound)).1, ((fde.covers_iff pc).mp hcovers).1⟩
    have hsame : found = fde := by
      by_contra hother
      exact hapart.forall (List.mem_of_find?_eq_some hfound) hmem hother pc hboth
    rw [← hsame]
    exact hfound

/-- **The order makes no difference** to what is found among records that have no code in common. -/
theorem covering?_of_perm {others : FrameRecords} (hperm : others.fdes.Perm records.fdes)
    (hapart : records.fdes.Pairwise Fde.Apart) (pc : UInt64) : others.covering? pc = records.covering? pc := by
  have hapart' : others.fdes.Pairwise Fde.Apart := (hperm.pairwise_iff (Std.Symm.symm _ _)).mpr hapart
  ext fde
  rw [covering?_eq_some_of_apart hapart', covering?_eq_some_of_apart hapart, hperm.mem_iff]

end FrameRecords

/-! ## The order of a table -/

/-- The entries of a section's records are of its flavour. -/
theorem Entry.flavour_of_forall₂ {input : SectionInput} {bs : Bytes} {rs : List RawRecord} {es : List Entry}
    (h : List.Forall₂ (Entry.IsOf input bs) rs es) : ∀ e ∈ es, e.flavour = input.flavour := by
  induction h with
  | nil => exact fun _ he => nomatch he
  | cons hentry _ ih => exact List.forall_mem_cons.mpr ⟨hentry.flavour, ih⟩

namespace FrameRecords

/-- Entries that are added leave their function records behind those that are there. -/
theorem fdes_foldl_push (es : List Entry) (records : FrameRecords) :
    ∃ more, (es.foldl push records).fdes = records.fdes ++ more ∧ ∀ fde ∈ more, Entry.fde fde ∈ es := by
  induction es generalizing records with
  | nil => exact ⟨[], (List.append_nil _).symm, fun _ hfde => nomatch hfde⟩
  | cons e es ih =>
      obtain ⟨more, hmore, hfrom⟩ := ih (records.push e)
      cases e with
      | cie cie => exact ⟨more, hmore, fun fde hfde => List.mem_cons_of_mem _ (hfrom fde hfde)⟩
      | fde fde =>
          refine ⟨fde :: more, ?_, ?_⟩
          · rw [List.foldl_cons, hmore]
            exact List.append_assoc _ [fde] more
          · exact List.forall_mem_cons.mpr ⟨List.mem_cons_self, fun other hother =>
              List.mem_cons_of_mem _ (hfrom other hother)⟩

/-- **A section adds function records of its flavour** behind those that are there. -/
theorem fdes_readSection (records : FrameRecords) (image : Bytes) (input : SectionInput) :
    ∃ more, (records.readSection image input).2.fdes = records.fdes ++ more ∧
      ∀ fde ∈ more, fde.flavour = input.flavour := by
  rcases hslice : input.span.slice? image with _ | bs
  · refine ⟨[], ?_, fun _ hfde => nomatch hfde⟩
    rw [readSection_eq, hslice]
    exact (List.append_nil _).symm
  · obtain ⟨rs, place, hfollows⟩ := SectionInput.readSection_follows hslice records
    obtain ⟨es, hadded, hentries⟩ := SectionInput.addRecords_eq_ok hfollows.chain.standsIn hfollows.added
    obtain ⟨more, hmore, hfrom⟩ := fdes_foldl_push es records
    exact ⟨more, hadded ▸ hmore, fun fde hfde => Entry.flavour_of_forall₂ hentries _ (hfrom fde hfde)⟩

/-- **The order of a table**: the function records of `.eh_frame` come before those of `.debug_frame`. -/
structure Layered (records : FrameRecords) (ehFrame debugFrame : List Fde) : Prop where
  parts : records.fdes = ehFrame ++ debugFrame
  first : ∀ fde ∈ ehFrame, fde.flavour = .ehFrame
  second : ∀ fde ∈ debugFrame, fde.flavour = .debugFrame

theorem layered_empty : FrameRecords.empty.Layered [] [] :=
  ⟨rfl, (fun _ hfde => nomatch hfde), fun _ hfde => nomatch hfde⟩

/-- The records of both sections are in this order, wherever reading the second one ends. -/
theorem layered_secondRead (image : Image) (sections : Image.DebugSections) :
    ∃ ehFrame debugFrame, (secondRead image sections).2.Layered ehFrame debugFrame := by
  obtain ⟨ehFrame, hfirst, heh⟩ := fdes_readSection .empty image.bytes
    ⟨sections.ehFrame, .ehFrame, image.fileClass.addressSize⟩
  obtain ⟨debugFrame, hsecond, hdebug⟩ := fdes_readSection (firstRead image sections).2 image.bytes
    ⟨sections.debugFrame, .debugFrame, image.fileClass.addressSize⟩
  have hparts : (firstRead image sections).2.fdes = ehFrame := hfirst
  exact ⟨ehFrame, debugFrame, ⟨hparts ▸ hsecond, heh, hdebug⟩⟩

theorem layered_usable {image : Image} {sections : Image.DebugSections} (hsections : image.debugSections = .ok sections) :
    ∃ ehFrame debugFrame, (usable image sections).Layered ehFrame debugFrame := by
  unfold usable
  split
  · rename_i records hread
    obtain ⟨-, -, -, rfl⟩ := (ofImage_eq_ok_iff hsections).mp hread
    exact layered_secondRead image sections
  · exact ⟨[], [], layered_empty⟩

end FrameRecords

theorem FrameIndex.layered {image : Image} {index : FrameIndex} (h : FrameIndex.ofImage image = .ok index) :
    ∃ ehFrame debugFrame, index.records.Layered ehFrame debugFrame := by
  rw [FrameIndex.ofImage_eq] at h
  cases hsections : image.debugSections with
  | error e =>
      rw [hsections] at h
      cases h
  | ok sections =>
      rw [hsections] at h
      cases h
      exact FrameRecords.layered_usable hsections

/-! ## Main statement -/

/-- **Looking an address up is exact below the largest one.** For every index that is built:
    * its function records are in the order of the sections, those of `.eh_frame` before those of `.debug_frame`;
    * for every address but the largest, a record is found exactly if the address is the code of one, over unbounded
      numbers and so also for code that reaches past all addresses, and it is the first such record;
    * for the largest address none is found, be it the code of a record or not;
    * if no two records have code in common, what is found does not depend on the order of the records. -/
theorem lookup_exact_below_last {image : Image} {index : FrameIndex} (h : FrameIndex.ofImage image = .ok index) :
    (∃ ehFrame debugFrame, index.records.Layered ehFrame debugFrame) ∧
    (∀ pc, pc ≠ lastAddress →
      ((index.records.covering? pc).isSome = true ↔ ∃ fde ∈ index.records.fdes, fde.Spans pc) ∧
      ∀ fde, index.records.covering? pc = some fde ↔
        fde.Spans pc ∧ ∃ before after, index.records.fdes = before ++ fde :: after ∧ ∀ other ∈ before, ¬ other.Spans pc) ∧
    index.records.covering? lastAddress = none ∧
    ∀ others : FrameRecords, others.fdes.Perm index.records.fdes → index.records.fdes.Pairwise Fde.Apart →
      ∀ pc, others.covering? pc = index.records.covering? pc := by
  refine ⟨FrameIndex.layered h, ?_, index.records.covering?_lastAddress, ?_⟩
  · intro pc hpc
    exact ⟨FrameRecords.isSome_covering?_iff hpc, fun fde => FrameRecords.covering?_eq_some_iff hpc⟩
  · intro others hperm hapart pc
    exact FrameRecords.covering?_of_perm hperm hapart pc

theorem FrameIndex.exists_of_fdes {image : Image} {fdes : List Fde}
    (h : (FrameIndex.ofImage image).map (·.records.fdes) = .ok fdes) :
    ∃ index, FrameIndex.ofImage image = .ok index ∧ index.records.fdes = fdes := by
  cases hindex : FrameIndex.ofImage image with
  | error e =>
      rw [hindex] at h
      cases h
  | ok index =>
      rw [hindex] at h
      cases h
      exact ⟨index, rfl, rfl⟩

/-- A file with a function record in each section. -/
def pairFile : Bytes := frameFile (frames 0 22 0x1000 0x100) (frames 0xffffffff 0 0x2000 0x100)

/-- The function records of this file have no code in common, and are found in either order. -/
theorem lookup_exact_below_last_pair :
    let image : Image := ⟨⟨"pair"⟩, pairFile, .bits64, 64, 64, 4, ⟨404, 35, 0⟩⟩
    let first : Fde := ⟨0, .ehFrame, 18, 0x1000, 0x100, ⟨362, 362⟩⟩
    let second : Fde := ⟨1, .debugFrame, 18, 0x2000, 0x100, ⟨404, 404⟩⟩
    ∃ index, Image.ofBytes ⟨"pair"⟩ pairFile = .ok image ∧ FrameIndex.ofImage image = .ok index ∧
      index.records.fdes = [first, second] ∧ index.records.covering? 0x20ff = some second ∧
      ∀ pc, FrameRecords.covering? ⟨[], [second, first]⟩ pc = index.records.covering? pc := by
  intro image first second
  have himage : Image.ofBytes ⟨"pair"⟩ pairFile = .ok image := by decide +kernel
  have hread : (FrameIndex.ofImage image).map (·.records.fdes) = .ok [first, second] := by decide +kernel
  obtain ⟨index, hindex, hfdes⟩ := FrameIndex.exists_of_fdes hread
  obtain ⟨-, hexact, -, horder⟩ := lookup_exact_below_last hindex
  rw [hfdes] at hexact horder
  have hapart : [first, second].Pairwise Fde.Apart := by
    rw [List.pairwise_pair]
    rintro pc ⟨⟨-, hlow⟩, hhigh, -⟩
    exact absurd (Nat.lt_of_le_of_lt hhigh hlow) (by decide)
  refine ⟨index, himage, hindex, hfdes, ?_, ?_⟩
  · exact ((hexact 0x20ff (by decide)).2 second).mpr ⟨by decide, [first], [], rfl, by decide⟩
  · exact horder ⟨[], [second, first]⟩ (.swap first second []) hapart

/-- A file with a record of the code up to the largest address. -/
def topFile : Bytes := frameFile (frames 0 22 0xffffffffffffff00 0x100) []

/-- **The largest address is lost**: it is the code of the only record of an index, and no record is found for it. -/
theorem lookup_loses_last :
    let image : Image := ⟨⟨"top"⟩, topFile, .bits64, 64, 64, 4, ⟨362, 35, 0⟩⟩
    ∃ index, Image.ofBytes ⟨"top"⟩ topFile = .ok image ∧ FrameIndex.ofImage image = .ok index ∧
      (∃ fde ∈ index.records.fdes, fde.Spans lastAddress) ∧ index.records.covering? lastAddress = none := by
  intro image
  have himage : Image.ofBytes ⟨"top"⟩ topFile = .ok image := by decide +kernel
  have hread : (FrameIndex.ofImage image).map (·.records.fdes) =
      .ok [⟨0, .ehFrame, 18, 0xffffffffffffff00, 0x100, ⟨362, 362⟩⟩] := by decide +kernel
  obtain ⟨index, hindex, hfdes⟩ := FrameIndex.exists_of_fdes hread
  refine ⟨index, himage, hindex, ?_, index.records.covering?_lastAddress⟩
  exact ⟨_, hfdes ▸ List.mem_cons_self, by decide⟩

end Unwinder.Cfi
