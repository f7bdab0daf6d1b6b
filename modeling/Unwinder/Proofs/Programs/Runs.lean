import Unwinder.Cfi.Row

/-!
# `Proofs.Programs.Runs` — the row at an address in terms of two programs

The row at an address comes from the programs of two records. This module says so with the instructions at hand, apart from
where they stand in an image, and shows when a run of instructions can be changed behind a front that stays.

## Contents
- **Records and their programs.** `Programs` and `SameSetting`; `Programs.rulesAt_eq`.
- **Runs.** `Row.run_cons`, one instruction of a run that goes on, and `Row.run_front`, a front that two runs share.
-/

namespace Unwinder.Cfi

/-! ## Records and their programs -/

/-- The programs of a common record and of a function record, in an image where both stretches lie. -/
structure Programs (image : Bytes) (cie : Cie) (fde : Fde) (common own : Program) : Prop where
  common : (cie.instructions.slice? image).map (Program.decode cie.addressSize) = some common
  own : (fde.instructions.slice? image).map (Program.decode cie.addressSize) = some own

/-- **The same setting for programs**: whatever else the records say, instructions mean the same there. -/
structure SameSetting (cie : Cie) (fde : Fde) (cie' : Cie) (fde' : Fde) : Prop where
  codeAlign : cie'.codeAlign = cie.codeAlign
  dataAlign : cie'.dataAlign = cie.dataAlign
  first : fde'.first = fde.first

/-- Of a common record a run uses the alignments only. -/
theorem Row.run_congr {cie cie' : Cie} (hcode : cie'.codeAlign = cie.codeAlign) (hdata : cie'.dataAlign = cie.dataAlign)
    (initial : Row) (target : UInt64) (fault : Option Error) (is : List Instruction) (location : UInt64) (row : Row) :
    run cie' initial target fault is location row = run cie initial target fault is location row := by
  induction is generalizing location row with
  | nil => rfl
  | cons i is ih => rw [run, run, hcode, hdata, ih]

section Programs

variable {image image' : Bytes} {cie cie' : Cie} {fde fde' : Fde} {common own : Program}

/-- A program is run where it stands. -/
theorem runAt_of_program {stretch : Extent} {p : Program}
    (h : (stretch.slice? image).map (Program.decode cie.addressSize) = some p) (initial : Row)
    (location target : UInt64) (row : Row) :
    Row.runAt image cie stretch initial location target row =
      Row.run cie initial target p.fault p.instructions location row := by
  obtain ⟨bs, hslice, rfl⟩ := Option.map_eq_some_iff.mp h
  rw [Row.runAt, hslice]

/-- **The row at an address comes from the two programs**, the first of them run to its end. -/
theorem Programs.rulesAt_eq (h : Programs image cie fde common own) (target : UInt64) :
    rulesAt image cie fde target =
      (Row.run cie .blank lastAddress common.fault common.instructions fde.first .blank).bind fun initial =>
        Row.run cie initial target own.fault own.instructions fde.first initial := by
  rw [rulesAt, runAt_of_program h.common]
  exact congrArg _ (funext fun initial => runAt_of_program h.own initial fde.first target initial)

/-- The same in terms of another setting that agrees. -/
theorem Programs.rulesAt_eq_of_same (h : Programs image' cie' fde' common own) (hsame : SameSetting cie fde cie' fde')
    (target : UInt64) :
    rulesAt image' cie' fde' target =
      (Row.run cie .blank lastAddress common.fault common.instructions fde.first .blank).bind fun initial =>
        Row.run cie initial target own.fault own.instructions fde.first initial := by
  rw [h.rulesAt_eq, hsame.first, Row.run_congr hsame.codeAlign hsame.dataAlign]
  exact congrArg _ (funext fun initial => Row.run_congr hsame.codeAlign hsame.dataAlign _ _ _ _ _ _)

end Programs

/-! ## Runs -/

/-- No address is past the last one. -/
theorem le_lastAddress (location : UInt64) : location ≤ lastAddress := by
  rw [UInt64.le_iff_toNat_le]
  exact Nat.le_of_lt_succ location.toNat_lt

/-- Where the location is after instructions, when none of them is where a run stops. -/
def locationAfter (codeAlign : UInt64) : List Instruction → UInt64 → UInt64
  | [], location => location
  | i :: is, location => locationAfter codeAlign is (i.locate codeAlign location)

namespace Row

variable {cie : Cie} {initial : Row} {target : UInt64} {fault : Option Error}

/-- A run goes on while the location has not passed the address. -/
theorem run_cons {i : Instruction} {location : UInt64} (h : i.locate cie.codeAlign location ≤ target)
    (is : List Instruction) (row : Row) :
    run cie initial target fault (i :: is) location row =
      run cie initial target fault is (i.locate cie.codeAlign location) (row.apply cie.dataAlign initial i) := by
  rw [run, if_neg (UInt64.not_lt.mpr h)]

/-- **A shared front.** Two programs with the same front run alike when what is behind runs alike from there. The run comes
    there with a location that has not passed the address, or it does not come there. -/
theorem run_front (front : List Instruction) {is js : List Instruction} (location : UInt64) (row : Row)
    (hlocation : location ≤ target)
    (hbehind : locationAfter cie.codeAlign front location ≤ target → ∀ row,
      run cie initial target fault is (locationAfter cie.codeAlign front location) row =
        run cie initial target fault js (locationAfter cie.codeAlign front location) row) :
    run cie initial target fault (front ++ is) location row = run cie initial target fault (front ++ js) location row := by
  -- along the front; the location at each instruction that is carried out has not passed the address
  induction front generalizing location row with
  | nil => exact hbehind hlocation row
  | cons i front ih =>
      rw [List.cons_append, List.cons_append, run, run]
      by_cases hpast : target < i.locate cie.codeAlign location
      · rw [if_pos hpast, if_pos hpast]
      · rw [if_neg hpast, if_neg hpast]
        exact ih _ _ (UInt64.not_lt.mp hpast) hbehind

/-- Without a fault at the end a run gives a row. -/
theorem run_isOk (cie : Cie) (initial : Row) (target : UInt64) (is : List Instruction) (location : UInt64) (row : Row) :
    ∃ after, run cie initial target none is location row = .ok after := by
  induction is generalizing location row with
  | nil => exact ⟨row, rfl⟩
  | cons i is ih =>
      rw [run]
      by_cases hpast : target < i.locate cie.codeAlign location
      · rw [if_pos hpast]
        exact ⟨_, rfl⟩
      · rw [if_neg hpast]
        exact ih _ _

end Row

/-- **Programs without a fault make a row for every address.** -/
theorem Programs.exists_row {image : Bytes} {cie : Cie} {fde : Fde} {common own : List Instruction}
    (h : Programs image cie fde ⟨common, none⟩ ⟨own, none⟩) (target : UInt64) :
    ∃ row, rulesAt image cie fde target = .ok row := by
  obtain ⟨initial, hinitial⟩ := Row.run_isOk cie .blank lastAddress common fde.first .blank
  rw [h.rulesAt_eq, hinitial]
  exact Row.run_isOk cie initial target own fde.first initial

end Unwinder.Cfi
