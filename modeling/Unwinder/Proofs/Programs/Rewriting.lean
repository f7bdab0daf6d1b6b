import Mathlib.Logic.Relation
import Unwinder.Proofs.Programs.Runs

/-!
# `Proofs.Programs.Rewriting` — spellings of a program that mean the same

Most of what a program says can be said by other instructions: with an operand packed into the opcode or behind it, scaled or
not, in one step or in two. This module lists the changes of spelling and shows that none of them, and no number of them,
changes a row.

## Contents
- **Pieces.** `SamePiece`, one constructor for each change; `SamePiece.run_eq`, that what runs behind is the same.
- **Programs.** `Respelling`, a change anywhere in a program, and `Respelled`, any number of them.
- **Main statement.** `rulesAt_of_respelled`.
-/

namespace Unwinder.Cfi

open LittleEndian (wordLimit)

/-! ## Pieces -/

/-- How many units of code an advance moves the location on. -/
def Instruction.delta? : Instruction → Option Nat
  | .advance delta => some delta.toNat
  | .advance1 delta => some delta.toNat
  | .advance2 delta => some delta.toNat
  | .advance4 delta => some delta.toNat
  | _ => none

/-- **Two spellings of a piece of a program** that is carried out at a location. -/
inductive SamePiece (codeAlign : UInt64) (dataAlign : Int64) (location : UInt64) :
    List Instruction → List Instruction → Prop where
  /-- The register is packed into the opcode, or behind it. -/
  | saved (register : UInt8) (units : UInt64) :
      SamePiece codeAlign dataAlign location [.saved register units] [.savedExtended register.toUInt64 units]
  | restore (register : UInt8) :
      SamePiece codeAlign dataAlign location [.restore register] [.restoreExtended register.toUInt64]
  /-- An advance has room for its delta, and for larger ones perhaps. -/
  | advance {i j : Instruction} {delta : Nat} (left : i.delta? = some delta) (right : j.delta? = some delta) :
      SamePiece codeAlign dataAlign location [i] [j]
  /-- A number of units that is a signed number too. -/
  | savedScaled (register : UInt64) {units : UInt64} {signed : Int64} (same : signed.toInt = units.toNat) :
      SamePiece codeAlign dataAlign location [.savedExtended register units] [.savedScaled register signed]
  /-- Register and offset of the frame address are given at once, or one after the other. -/
  | frame (register offset : UInt64) :
      SamePiece codeAlign dataAlign location [.frame register offset] [.frameRegister register, .frameOffset offset]
  /-- The offset is scaled already. -/
  | frameScaled (register : UInt64) {units : Int64} {offset : UInt64}
      (product : (offset.toNat : Int) = units.toInt * dataAlign.toInt % wordLimit) :
      SamePiece codeAlign dataAlign location [.frameScaled register units] [.frame register offset]
  | frameOffsetScaled {units : Int64} {offset : UInt64}
      (product : (offset.toNat : Int) = units.toInt * dataAlign.toInt % wordLimit) :
      SamePiece codeAlign dataAlign location [.frameOffsetScaled units] [.frameOffset offset]
  | nop : SamePiece codeAlign dataAlign location [.nop] []
  /-- An advance is made in two, where the location does not run over the largest address. -/
  | split {whole before after : Instruction} {a b : Nat} (sum : whole.delta? = some (a + b))
      (left : before.delta? = some a) (right : after.delta? = some b)
      (fits : location.toNat + (a + b) * codeAlign.toNat < wordLimit) :
      SamePiece codeAlign dataAlign location [whole] [before, after]

/-- An advance moves the location by the product of its delta, and leaves the row. -/
theorem Instruction.locate_of_delta {i : Instruction} {delta : Nat} (h : i.delta? = some delta)
    (codeAlign location : UInt64) :
    i.locate codeAlign location = location + UInt64.ofNat delta * codeAlign ∧
      ∀ (row initial : Row) (dataAlign : Int64), row.apply dataAlign initial i = row := by
  cases i with
  | advance delta | advance1 delta | advance2 delta | advance4 delta =>
      cases h
      refine ⟨?_, fun _ _ _ => rfl⟩
      simp [Instruction.locate]
  | _ => cases h

/-- A word read as signed. -/
theorem toInt64_eq_ofInt (n : UInt64) : n.toInt64 = Int64.ofInt n.toNat := by
  rw [Int64.ofInt_eq_ofNat, ← UInt64.toInt64_ofNat', UInt64.ofNat_toNat]

/-- A product in the low 64 bits is the product of signed words. -/
theorem toInt64_of_product {units dataAlign : Int64} {offset : UInt64}
    (h : (offset.toNat : Int) = units.toInt * dataAlign.toInt % wordLimit) : offset.toInt64 = units * dataAlign := by
  rw [toInt64_eq_ofInt, h]
  apply Int64.toInt_inj.mp
  rw [Int64.toInt_ofInt, Int64.toInt_mul]
  exact Int.emod_bmod _ _

/-- Nothing runs over in a shorter advance either. -/
theorem add_mul_le {location codeAlign : UInt64} {a b : Nat}
    (h : location.toNat + (a + b) * codeAlign.toNat < wordLimit) :
    location + UInt64.ofNat a * codeAlign ≤ location + UInt64.ofNat (a + b) * codeAlign := by
  have hexact (n : Nat) (hn : location.toNat + n * codeAlign.toNat < wordLimit) :
      (location + UInt64.ofNat n * codeAlign).toNat = location.toNat + n * codeAlign.toNat := by
    simp only [UInt64.toNat_add, UInt64.toNat_mul, UInt64.toNat_ofNat']
    rw [Nat.mod_mul_mod, Nat.add_mod_mod]
    exact Nat.mod_eq_of_lt hn
  have hle : a * codeAlign.toNat ≤ (a + b) * codeAlign.toNat := Nat.mul_le_mul_right _ (Nat.le_add_right a b)
  rw [UInt64.le_iff_toNat_le, hexact a (by omega), hexact (a + b) h]
  omega

section Pieces

variable {cie : Cie} {initial : Row} {target : UInt64} {fault : Option Error} {location : UInt64}

/-- Two instructions that do the same, in front of the same. -/
theorem Row.run_cons_congr {i j : Instruction} {row : Row}
    (happly : row.apply cie.dataAlign initial i = row.apply cie.dataAlign initial j)
    (hlocate : i.locate cie.codeAlign location = j.locate cie.codeAlign location) (is : List Instruction) :
    run cie initial target fault (i :: is) location row = run cie initial target fault (j :: is) location row := by
  rw [run, run, hlocate, happly]

/-- **Spellings of a piece run alike.** In front of the same instructions they give the same outcome, for an address between
    two halves of an advance too. -/
theorem SamePiece.run_eq {p q : List Instruction} (h : SamePiece cie.codeAlign cie.dataAlign location p q)
    (hlocation : location ≤ target) (back : List Instruction) (row : Row) :
    Row.run cie initial target fault (p ++ back) location row =
      Row.run cie initial target fault (q ++ back) location row := by
  cases h with
  | saved register units => rfl
  | restore register => rfl
  | advance hi hj =>
      obtain ⟨hlocateLeft, hleft⟩ := Instruction.locate_of_delta hi cie.codeAlign location
      obtain ⟨hlocateRight, hright⟩ := Instruction.locate_of_delta hj cie.codeAlign location
      exact Row.run_cons_congr ((hleft _ _ _).trans (hright _ _ _).symm) (hlocateLeft.trans hlocateRight.symm) back
  | @savedScaled register units signed hsame =>
      have hsigned : units.toInt64 = signed := by rw [toInt64_eq_ofInt, ← hsame, Int64.ofInt_toInt]
      have happly : row.apply cie.dataAlign initial (.savedExtended register units) =
          row.apply cie.dataAlign initial (.savedScaled register signed) := by
        rw [Row.apply, Row.apply, hsigned]
      exact Row.run_cons_congr happly rfl back
  | frame register offset =>
      show Row.run cie initial target fault (_ :: back) location row =
        Row.run cie initial target fault (_ :: _ :: back) location row
      rw [Row.run_cons hlocation, Row.run_cons hlocation, Row.run_cons hlocation]
      rfl
  | @frameScaled register units offset hproduct =>
      have happly : row.apply cie.dataAlign initial (.frameScaled register units) =
          row.apply cie.dataAlign initial (.frame register offset) := by
        rw [Row.apply, Row.apply, toInt64_of_product hproduct]
      exact Row.run_cons_congr happly rfl back
  | @frameOffsetScaled units offset hproduct =>
      have happly : row.apply cie.dataAlign initial (.frameOffsetScaled units) =
          row.apply cie.dataAlign initial (.frameOffset offset) := by
        rw [Row.apply, Row.apply, toInt64_of_product hproduct]
      exact Row.run_cons_congr happly rfl back
  | nop => exact Row.run_cons hlocation back row
  | @split whole before after a b hsum hbefore hafter hfits =>
      obtain ⟨hlocateWhole, hwhole⟩ := Instruction.locate_of_delta hsum cie.codeAlign location
      obtain ⟨hlocateBefore, hkeepBefore⟩ := Instruction.locate_of_delta hbefore cie.codeAlign location
      obtain ⟨hlocateAfter, hkeepAfter⟩ :=
        Instruction.locate_of_delta hafter cie.codeAlign (before.locate cie.codeAlign location)
      have htotal : whole.locate cie.codeAlign location =
          after.locate cie.codeAlign (before.locate cie.codeAlign location) := by
        rw [hlocateAfter, hlocateBefore, hlocateWhole, UInt64.ofNat_add, UInt64.add_mul, UInt64.add_assoc]
      -- the halves are not past the whole, since nothing runs over
      have hhalf : before.locate cie.codeAlign location ≤ whole.locate cie.codeAlign location := by
        rw [hlocateBefore, hlocateWhole]
        exact add_mul_le hfits
      show Row.run cie initial target fault (_ :: back) location row =
        Row.run cie initial target fault (_ :: _ :: back) location row
      by_cases hbetween : target < before.locate cie.codeAlign location
      · rw [Row.run, Row.run, if_pos (UInt64.lt_of_lt_of_le hbetween hhalf), if_pos hbetween, hwhole, hkeepBefore]
      · rw [Row.run_cons (UInt64.not_lt.mp hbetween), Row.run, Row.run, htotal, hwhole, hkeepBefore, hkeepAfter]

end Pieces

/-! ## Programs -/

/-- **One change of spelling** anywhere in a program whose location begins at `first`. -/
inductive Respelling (codeAlign : UInt64) (dataAlign : Int64) (first : UInt64) :
    List Instruction → List Instruction → Prop where
  | intro (front back : List Instruction) {p q : List Instruction}
      (piece : SamePiece codeAlign dataAlign (locationAfter codeAlign front first) p q) :
      Respelling codeAlign dataAlign first (front ++ (p ++ back)) (front ++ (q ++ back))

/-- **Programs that differ in spelling**: any number of changes lead from one to the other, each made or undone, and what
    cannot be read at the end is the same. -/
structure Respelled (codeAlign : UInt64) (dataAlign : Int64) (first : UInt64) (p q : Program) : Prop where
  changes : Relation.EqvGen (Respelling codeAlign dataAlign first) p.instructions q.instructions
  fault : p.fault = q.fault

section Respelled

variable {cie : Cie} {first target : UInt64}

/-- **Changes of spelling leave every run.** -/
theorem run_of_changes {is js : List Instruction}
    (h : Relation.EqvGen (Respelling cie.codeAlign cie.dataAlign first) is js) (hfirst : first ≤ target) (initial : Row)
    (fault : Option Error) (row : Row) :
    Row.run cie initial target fault is first row = Row.run cie initial target fault js first row := by
  induction h with
  | rel is js hchange =>
      cases hchange with
      | intro front back hpiece =>
          exact Row.run_front front first row hfirst fun hlocation row => hpiece.run_eq hlocation back row
  | refl is => rfl
  | symm is js _ ih => exact ih.symm
  | trans is js ks _ _ ihLeft ihRight => exact ihLeft.trans ihRight

/-- A run of one program is a run of the other. -/
theorem Respelled.run_eq {p q : Program} (h : Respelled cie.codeAlign cie.dataAlign first p q) (hfirst : first ≤ target)
    (initial row : Row) :
    Row.run cie initial target p.fault p.instructions first row =
      Row.run cie initial target q.fault q.instructions first row := by
  rw [h.fault]
  exact run_of_changes h.changes hfirst initial q.fault row

end Respelled

/-! ## Main statement -/

/-- **Programs that differ in spelling make the same rows.** When both programs of a function are spelled in another way, the
    row at every address from the first one of the function on is the same, and so is the fault when there is none. -/
theorem rulesAt_of_respelled {image image' : Bytes} {cie cie' : Cie} {fde fde' : Fde} {common own common' own' : Program}
    {target : UInt64} (h : Programs image cie fde common own) (h' : Programs image' cie' fde' common' own')
    (hsame : SameSetting cie fde cie' fde')
    (hcommon : Respelled cie.codeAlign cie.dataAlign fde.first common common')
    (hown : Respelled cie.codeAlign cie.dataAlign fde.first own own') (htarget : fde.first ≤ target) :
    rulesAt image' cie' fde' target = rulesAt image cie fde target := by
  rw [h.rulesAt_eq, h'.rulesAt_eq_of_same hsame, hcommon.run_eq (le_lastAddress fde.first)]
  exact congrArg _ (funext fun initial => (hown.run_eq htarget initial initial).symm)

/-- Six changes in the programs of one function. The address is between the halves of an advance. -/
theorem rulesAt_of_respelled_between :
    let image : Bytes := [0x0c, 7, 8, 0x90, 1, 0x44, 0x0e, 0x10, 0xd0]
    let image' : Bytes := [0x0d, 7, 0x0e, 8, 0x05, 16, 1, 0x02, 1, 0x00, 0x02, 3, 0x13, 0x7e, 0x06, 0x10]
    let cie : Cie := { flavour := .ehFrame, offset := 0, version := 1, augmentation := [], codeAlign := 4,
                       dataAlign := -8, returnColumn := 16, encoding := .absolute, addressSize := 8,
                       instructions := ⟨0, 5⟩ }
    let cie' : Cie := { cie with instructions := ⟨0, 7⟩ }
    let fde : Fde := { cie := 0, flavour := .ehFrame, offset := 0x18, first := 0x1000, length := 0x100,
                       instructions := ⟨5, 9⟩ }
    let fde' : Fde := { fde with instructions := ⟨7, 16⟩ }
    let common : Program := ⟨[.frame 7 8, .saved 16 1], none⟩
    let common' : Program := ⟨[.frameRegister 7, .frameOffset 8, .savedExtended 16 1], none⟩
    let own : Program := ⟨[.advance 4, .frameOffset 16, .restore 16], none⟩
    let own' : Program :=
      ⟨[.advance1 1, .nop, .advance1 3, .frameOffsetScaled (-2), .restoreExtended 16], none⟩
    Programs image cie fde common own ∧ Programs image' cie' fde' common' own' ∧ SameSetting cie fde cie' fde' ∧
      Respelled cie.codeAlign cie.dataAlign fde.first common common' ∧
      Respelled cie.codeAlign cie.dataAlign fde.first own own' ∧ fde.first ≤ 0x1008 ∧
      rulesAt image' cie' fde' 0x1008 = rulesAt image cie fde 0x1008 := by
  intro image image' cie cie' fde fde' common common' own own'
  have hprograms : Programs image cie fde common own := ⟨by decide +kernel, by decide +kernel⟩
  have hprograms' : Programs image' cie' fde' common' own' := ⟨by decide +kernel, by decide +kernel⟩
  have hsame : SameSetting cie fde cie' fde' := ⟨rfl, rfl, rfl⟩
  have hcommon : Respelled cie.codeAlign cie.dataAlign fde.first common common' := by
    refine ⟨.trans _ [.frameRegister 7, .frameOffset 8, .saved 16 1] _ (.rel _ _ ?_) (.rel _ _ ?_), rfl⟩
    · exact .intro [] [.saved 16 1] (.frame 7 8)
    · exact .intro [.frameRegister 7, .frameOffset 8] [] (.saved 16 1)
  have hown : Respelled cie.codeAlign cie.dataAlign fde.first own own' := by
    refine ⟨.trans _ [.advance1 1, .advance1 3, .frameOffset 16, .restore 16] _ (.rel _ _ ?split) <|
      .trans _ [.advance1 1, .nop, .advance1 3, .frameOffset 16, .restore 16] _ (.symm _ _ (.rel _ _ ?nop)) <|
      .trans _ [.advance1 1, .nop, .advance1 3, .frameOffsetScaled (-2), .restore 16] _ (.symm _ _ (.rel _ _ ?scaled)) <|
      .rel _ _ ?restore, rfl⟩
    case split =>
      have hpiece : SamePiece cie.codeAlign cie.dataAlign fde.first [.advance 4] [.advance1 1, .advance1 3] :=
        .split (rfl : _ = some (1 + 3)) rfl rfl (by decide)
      exact .intro [] [.frameOffset 16, .restore 16] hpiece
    case nop => exact .intro [.advance1 1] [.advance1 3, .frameOffset 16, .restore 16] .nop
    case scaled =>
      have hpiece (location : UInt64) :
          SamePiece cie.codeAlign cie.dataAlign location [.frameOffsetScaled (-2)] [.frameOffset 16] :=
        .frameOffsetScaled (by decide)
      exact .intro [.advance1 1, .nop, .advance1 3] [.restore 16] (hpiece _)
    case restore =>
      exact .intro [.advance1 1, .nop, .advance1 3, .frameOffsetScaled (-2)] [] (.restore 16)
  exact ⟨hprograms, hprograms', hsame, hcommon, hown, by decide,
    rulesAt_of_respelled hprograms hprograms' hsame hcommon hown (by decide)⟩

end Unwinder.Cfi
