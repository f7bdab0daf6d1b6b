import Unwinder.Proofs.FrameRoundTrip
import Unwinder.Proofs.Programs.Runs

/-!
# `Proofs.Programs.Columns` — the columns of a row do not look at each other

A row has a rule for each register slot and says how the frame address is found. An instruction concerns one of these, or
the location, or nothing. This module shows that what a row says in one place comes from the instructions that concern it
and from those that move the location; all others can be left out of both programs.

## Contents
- **Concerns.** `Instruction.concern`; `Row.apply_rules` and `Row.apply_sameFrame`, what an instruction does to a rule and to
  the frame address.
- **Leaving out.** `Without`, programs without some instructions, and `Slice`, what can be said of a row without them;
  `Slice.run`, the induction along a program, and the three slices `slice_rule`, `slice_frame` and `slice_row`.
- **Bytes.** `Programs.exists_without`: the shorter programs can be written down.
- **Main statement.** `columns_are_independent`.
-/

namespace Unwinder.Cfi

/-! ## Concerns -/

/-- What an instruction says something about. -/
inductive Concern where
  /-- Where the next row begins. -/
  | location
  /-- How the frame address is found. -/
  | frame
  /-- The rule of a register, which need not have a slot. -/
  | column (register : Nat)
  | nothing
  deriving DecidableEq

namespace Instruction

def concern : Instruction → Concern
  | .setLocation _ | .advance _ | .advance1 _ | .advance2 _ | .advance4 _ => .location
  | .frame _ _ | .frameScaled _ _ | .frameRegister _ | .frameOffset _ | .frameOffsetScaled _ => .frame
  | .lost register | .kept register | .savedExtended register _ | .savedScaled register _ | .restoreExtended register =>
      .column register.toNat
  | .saved register _ | .restore register => .column register.toNat
  | .nop => .nothing

/-- The instructions that go back to an initial rule. -/
def restores : Instruction → Bool
  | .restore _ | .restoreExtended _ => true
  | _ => false

/-- The rule given to the register that is named, in terms of the initial rule of that register. -/
def rule (dataAlign : Int64) (initial : RegisterRule) : Instruction → RegisterRule
  | .lost _ => .lost
  | .kept _ => .kept
  | .saved _ units | .savedExtended _ units => .saved (units.toInt64 * dataAlign)
  | .savedScaled _ units => .saved (units * dataAlign)
  | _ => initial

/-- Only the instructions that concern the location move it. -/
theorem locate_of_concern {i : Instruction} (h : i.concern ≠ .location) (codeAlign location : UInt64) :
    i.locate codeAlign location = location := by
  cases i with
  | setLocation _ | advance _ | advance1 _ | advance2 _ | advance4 _ => exact absurd rfl h
  | _ => rfl

end Instruction

namespace Row

theorem setRule_rules (row : Row) (register : UInt64) (rule : RegisterRule) {slot : Nat} (hslot : slot < slotCount) :
    (row.setRule register rule).rules[slot] = if register.toNat = slot then rule else row.rules[slot] :=
  Vector.getElem_setIfInBounds hslot

theorem restoreRule_rules (row initial : Row) (register : UInt64) {slot : Nat} (hslot : slot < slotCount) :
    (row.restoreRule initial register).rules[slot] =
      if register.toNat = slot then initial.rules[slot] else row.rules[slot] := by
  unfold restoreRule
  by_cases hnamed : register.toNat = slot
  · subst hnamed
    rw [Vector.getElem?_eq_getElem hslot]
    exact setRule_rules row register _ hslot
  · rw [if_neg hnamed]
    split
    · rw [setRule_rules _ _ _ hslot, if_neg hnamed]
    · rfl

/-- **What an instruction does to the rule of a slot.** If it names the register, the rule is a new one, which may depend on
    the initial rule of the slot; otherwise the rule stays. -/
theorem apply_rules (row initial : Row) (dataAlign : Int64) (i : Instruction) {slot : Nat} (hslot : slot < slotCount) :
    (row.apply dataAlign initial i).rules[slot] =
      if i.concern = .column slot then i.rule dataAlign initial.rules[slot] else row.rules[slot] := by
  cases i with
  | lost register | kept register | saved register units | savedExtended register units | savedScaled register units =>
      simp [apply, setRule_rules _ _ _ hslot, Instruction.concern, Instruction.rule]
  | restore register | restoreExtended register =>
      simp [apply, restoreRule_rules _ _ _ hslot, Instruction.concern, Instruction.rule]
  | _ => rfl

/-- Two rows that find the frame address in the same way. -/
structure SameFrame (row row' : Row) : Prop where
  register : row'.frameRegister = row.frameRegister
  offset : row'.frameOffset = row.frameOffset

theorem SameFrame.symm {row row' : Row} (h : SameFrame row row') : SameFrame row' row :=
  ⟨h.register.symm, h.offset.symm⟩

theorem SameFrame.trans {row row' row'' : Row} (h : SameFrame row row') (h' : SameFrame row' row'') :
    SameFrame row row'' := ⟨h'.register.trans h.register, h'.offset.trans h.offset⟩

/-- An instruction that does not concern the frame address leaves it. -/
theorem apply_sameFrame (row initial : Row) (dataAlign : Int64) {i : Instruction} (h : i.concern ≠ .frame) :
    SameFrame (row.apply dataAlign initial i) row := by
  cases i with
  | frame _ _ | frameScaled _ _ | frameRegister _ | frameOffset _ | frameOffsetScaled _ => exact absurd rfl h
  | restore _ | restoreExtended _ =>
      rw [apply, restoreRule]
      split <;> exact ⟨rfl, rfl⟩
  | _ => exact ⟨rfl, rfl⟩

/-- An instruction finds the frame address anew in the same way in both rows, or leaves it in both. -/
theorem SameFrame.apply {row row' : Row} (h : SameFrame row row') (initial initial' : Row) (dataAlign : Int64)
    (i : Instruction) : SameFrame (row.apply dataAlign initial i) (row'.apply dataAlign initial' i) := by
  by_cases hframe : i.concern = .frame
  · obtain ⟨hregister, hoffset⟩ := h
    cases i with
    | frame _ _ | frameScaled _ _ => exact ⟨rfl, rfl⟩
    | frameRegister _ => exact ⟨rfl, hoffset⟩
    | frameOffset _ | frameOffsetScaled _ => exact ⟨hregister, rfl⟩
    | _ => cases hframe
  · exact (apply_sameFrame row initial dataAlign hframe).trans
      (h.trans (apply_sameFrame row' initial' dataAlign hframe).symm)

/-- **Registers without a slot have no rule**: an instruction that concerns such a register changes nothing. -/
theorem apply_of_no_slot (row initial : Row) (dataAlign : Int64) {i : Instruction} {register : Nat}
    (hconcern : i.concern = .column register) (hregister : slotCount ≤ register) :
    row.apply dataAlign initial i = row := by
  have hframe : SameFrame (row.apply dataAlign initial i) row :=
    apply_sameFrame row initial dataAlign (by rw [hconcern]; exact Concern.noConfusion)
  have hrules : (row.apply dataAlign initial i).rules = row.rules := by
    apply Vector.ext
    intro slot hslot
    have hother : i.concern ≠ .column slot := by
      rw [hconcern]
      intro hsame
      cases hsame
      omega
    rw [apply_rules row initial dataAlign i hslot, if_neg hother]
  generalize row.apply dataAlign initial i = after at hframe hrules ⊢
  cases row
  cases after
  rw [Row.mk.injEq]
  exact ⟨hframe.register.symm, hframe.offset.symm, hrules⟩

end Row

/-! ## Leaving out -/

/-- **Programs without some instructions.** Those that are left out are of one sort; others of it may stay. -/
inductive Without (sort : Instruction → Prop) : List Instruction → List Instruction → Prop where
  | nil : Without sort [] []
  | kept (i : Instruction) {is js : List Instruction} (rest : Without sort is js) : Without sort (i :: is) (i :: js)
  | dropped {i : Instruction} {is js : List Instruction} (left : sort i) (rest : Without sort is js) :
      Without sort (i :: is) js

/-- All instructions of a sort can be left out. -/
theorem without_filter {sort : Instruction → Prop} {keep : Instruction → Bool} (h : ∀ i, keep i = false → sort i)
    (is : List Instruction) : Without sort is (is.filter keep) := by
  induction is with
  | nil => exact .nil
  | cons i is ih =>
      by_cases hkeep : keep i = true
      · rw [List.filter_cons_of_pos hkeep]
        exact .kept i ih
      · rw [List.filter_cons_of_neg hkeep]
        exact .dropped (h i (Bool.eq_false_iff.mpr hkeep)) ih

/-- **What can be said of a row without a sort of instructions.** It relates the rows with and without them: an instruction
    that is carried out in both keeps it, and so does one that is left out of the second, which never moves the location. -/
structure Slice (dataAlign : Int64) (sort : Instruction → Prop) (related : Row → Row → Prop) : Prop where
  blank : related .blank .blank
  kept : ∀ (i : Instruction) {row row' initial initial' : Row}, related initial initial' → related row row' →
    related (row.apply dataAlign initial i) (row'.apply dataAlign initial' i)
  dropped : ∀ {i : Instruction} (row : Row) {row' : Row} (initial : Row), sort i → related row row' →
    related (row.apply dataAlign initial i) row'
  stays : ∀ {i : Instruction}, sort i → i.concern ≠ .location

namespace Slice

variable {sort : Instruction → Prop} {related : Row → Row → Prop}

/-- The relation holds along two runs. -/
theorem run {cie : Cie} (h : Slice cie.dataAlign sort related) {is js : List Instruction} (hwithout : Without sort is js)
    {initial initial' row row' : Row} {location target : UInt64} (hlocation : location ≤ target)
    (hinitial : related initial initial') (hrow : related row row') :
    ∃ after after', Row.run cie initial target none is location row = .ok after ∧
      Row.run cie initial' target none js location row' = .ok after' ∧ related after after' := by
  -- the location is the same in both runs and has not passed the address
  induction hwithout generalizing location row row' with
  | nil => exact ⟨row, row', rfl, rfl, hrow⟩
  | kept i _ ih =>
      have hnext := h.kept i hinitial hrow
      rw [Row.run, Row.run]
      by_cases hpast : target < i.locate cie.codeAlign location
      · rw [if_pos hpast, if_pos hpast]
        exact ⟨_, _, rfl, rfl, hnext⟩
      · rw [if_neg hpast, if_neg hpast]
        exact ih (UInt64.not_lt.mp hpast) hnext
  | dropped hsort _ ih =>
      have hstay := Instruction.locate_of_concern (h.stays hsort) cie.codeAlign location
      rw [Row.run_cons (by rwa [hstay]), hstay]
      exact ih hlocation (h.dropped _ initial hsort hrow)

variable {image image' : Bytes} {cie cie' : Cie} {fde fde' : Fde} {common own common' own' : List Instruction}
  {target : UInt64}

/-- The relation holds between the rows at an address. -/
theorem rulesAt (h : Slice cie.dataAlign sort related) (hprograms : Programs image cie fde ⟨common, none⟩ ⟨own, none⟩)
    (hprograms' : Programs image' cie' fde' ⟨common', none⟩ ⟨own', none⟩) (hsame : SameSetting cie fde cie' fde')
    (hcommon : Without sort common common') (hown : Without sort own own') (htarget : fde.first ≤ target) {row row' : Row}
    (hrow : Cfi.rulesAt image cie fde target = .ok row) (hrow' : Cfi.rulesAt image' cie' fde' target = .ok row') :
    related row row' := by
  obtain ⟨initial, initial', hinitial, hinitial', hfirst⟩ := h.run hcommon (le_lastAddress fde.first) h.blank h.blank
  obtain ⟨after, after', hafter, hafter', hlast⟩ := h.run hown htarget hfirst hfirst
  rw [hprograms.rulesAt_eq, hinitial] at hrow
  rw [hprograms'.rulesAt_eq_of_same hsame, hinitial'] at hrow'
  cases hafter.symm.trans hrow
  cases hafter'.symm.trans hrow'
  exact hlast

end Slice

/-- The rule of a slot, without instructions that concern neither it nor the location. -/
theorem slice_rule (dataAlign : Int64) {sort : Instruction → Prop} (hstays : ∀ i, sort i → i.concern ≠ .location)
    {slot : Nat} (hslot : slot < slotCount) (hother : ∀ i, sort i → i.concern ≠ .column slot) :
    Slice dataAlign sort fun row row' => row'.rules[slot] = row.rules[slot] where
  blank := rfl
  kept i _ _ _ _ hinitial hrow := by
    rw [Row.apply_rules _ _ _ i hslot, Row.apply_rules _ _ _ i hslot, hinitial, hrow]
  dropped row _ initial hsort hrow := by
    rw [Row.apply_rules row initial _ _ hslot, if_neg (hother _ hsort)]
    exact hrow
  stays hsort := hstays _ hsort

/-- The frame address, without instructions that concern neither it nor the location. -/
theorem slice_frame (dataAlign : Int64) {sort : Instruction → Prop} (hstays : ∀ i, sort i → i.concern ≠ .location)
    (hother : ∀ i, sort i → i.concern ≠ .frame) : Slice dataAlign sort Row.SameFrame where
  blank := ⟨rfl, rfl⟩
  kept i _ _ initial initial' _ hrow := hrow.apply initial initial' dataAlign i
  dropped row _ initial hsort hrow := (row.apply_sameFrame initial dataAlign (hother _ hsort)).trans hrow
  stays hsort := hstays _ hsort

/-- The whole row, without instructions for registers that have no slot. -/
theorem slice_row (dataAlign : Int64) {sort : Instruction → Prop}
    (hcolumns : ∀ i, sort i → ∃ register, slotCount ≤ register ∧ i.concern = .column register) :
    Slice dataAlign sort fun row row' => row' = row where
  blank := rfl
  kept i _ _ _ _ hinitial hrow := by rw [hinitial, hrow]
  dropped row _ initial hsort hrow := by
    obtain ⟨register, hregister, hconcern⟩ := hcolumns _ hsort
    rw [row.apply_of_no_slot initial dataAlign hconcern hregister]
    exact hrow
  stays hsort := by
    obtain ⟨register, _, hconcern⟩ := hcolumns _ hsort
    rw [hconcern]
    exact Concern.noConfusion

/-! ## Bytes of what is left -/

/-- What is left of a program without some instructions can be written down. -/
theorem decode_without {addressSize : UInt8} {sort : Instruction → Prop} {is js : List Instruction}
    (h : Without sort is js) {bs : Bytes} (hbs : Program.decode addressSize bs = ⟨is, none⟩) :
    ∃ bs', Program.decode addressSize bs' = ⟨js, none⟩ := by
  induction h generalizing bs with
  | nil => exact ⟨bs, hbs⟩
  | kept i _ ih =>
      obtain ⟨opcode, front, rest, -, hreads, hrest⟩ := Program.decode_eq_cons hbs
      obtain ⟨rest', hrest'⟩ := ih hrest
      refine ⟨opcode :: (front ++ rest'), ?_⟩
      rw [Program.decode_cons_ok (hreads rest'), hrest']
      rfl
  | dropped _ _ ih =>
      obtain ⟨_, _, rest, -, -, hrest⟩ := Program.decode_eq_cons hbs
      exact ih hrest

/-- **Records with what is left**, in an image of their own: whatever is left out of programs that can be read, there are
    such records. -/
theorem Programs.exists_without {image : Bytes} {cie : Cie} {fde : Fde} {common own common' own' : List Instruction}
    {sort : Instruction → Prop} (h : Programs image cie fde ⟨common, none⟩ ⟨own, none⟩)
    (hcommon : Without sort common common') (hown : Without sort own own') :
    ∃ image' cie' fde', SameSetting cie fde cie' fde' ∧ Programs image' cie' fde' ⟨common', none⟩ ⟨own', none⟩ := by
  obtain ⟨_, -, hdecodeCommon⟩ := Option.map_eq_some_iff.mp h.common
  obtain ⟨_, -, hdecodeOwn⟩ := Option.map_eq_some_iff.mp h.own
  obtain ⟨bs, hbs⟩ := decode_without hcommon hdecodeCommon
  obtain ⟨cs, hcs⟩ := decode_without hown hdecodeOwn
  let cie' := { cie with instructions := ⟨0, bs.length⟩ }
  let fde' := { fde with instructions := ⟨bs.length, bs.length + cs.length⟩ }
  have hsliceCommon : cie'.instructions.slice? (bs ++ cs) = some bs :=
    Extent.slice?_append [] bs cs rfl (Nat.zero_add bs.length).symm
  have hsliceOwn : fde'.instructions.slice? (bs ++ cs) = some cs := by
    rw [← List.append_nil (bs ++ cs)]
    exact Extent.slice?_append bs cs [] rfl rfl
  refine ⟨bs ++ cs, cie', fde', ⟨rfl, rfl, rfl⟩, ⟨?_, ?_⟩⟩
  · rw [hsliceCommon]
    exact congrArg some hbs
  · rw [hsliceOwn]
    exact congrArg some hcs

/-! ## Main statement -/

/-- **The columns of a row do not look at each other.** Programs without a fault make a row for every address from the first
    one of the function on. Leave out instructions of a sort from both of them, none of which moves the location. What is
    left can be written down as programs again. Wherever it is, there is a row again, and it has
    * the same rule in a slot, when nothing of the sort concerns the slot;
    * the frame address found in the same way, when nothing of the sort concerns the frame address;
    * everything the same, when all of the sort concerns registers without a slot.
    Going back to initial rules never concerns the frame address. -/
theorem columns_are_independent {image : Bytes} {cie : Cie} {fde : Fde} {common own : List Instruction} {target : UInt64}
    (h : Programs image cie fde ⟨common, none⟩ ⟨own, none⟩) (htarget : fde.first ≤ target) :
    ∃ row, rulesAt image cie fde target = .ok row ∧
      (∀ (common' own' : List Instruction) (sort : Instruction → Prop), Without sort common common' →
        Without sort own own' → ∃ image' cie' fde', SameSetting cie fde cie' fde' ∧
          Programs image' cie' fde' ⟨common', none⟩ ⟨own', none⟩) ∧
      ∀ (image' : Bytes) (cie' : Cie) (fde' : Fde) (common' own' : List Instruction) (sort : Instruction → Prop),
        SameSetting cie fde cie' fde' → Programs image' cie' fde' ⟨common', none⟩ ⟨own', none⟩ →
        Without sort common common' → Without sort own own' → (∀ i, sort i → i.concern ≠ .location) →
        ∃ row', rulesAt image' cie' fde' target = .ok row' ∧
          (∀ slot (hslot : slot < slotCount), (∀ i, sort i → i.concern ≠ .column slot) →
            row'.rules[slot] = row.rules[slot]) ∧
          ((∀ i, sort i → i.concern ≠ .frame) → row.SameFrame row') ∧
          ((∀ i, sort i → ∃ register, slotCount ≤ register ∧ i.concern = .column register) → row' = row) ∧
          ((∀ i, sort i → i.restores = true) → row.SameFrame row') := by
  obtain ⟨row, hrow⟩ := h.exists_row target
  refine ⟨row, hrow, fun _ _ _ hcommon hown => h.exists_without hcommon hown, ?_⟩
  intro image' cie' fde' common' own' sort hsame h' hcommon hown hstays
  obtain ⟨row', hrow'⟩ := h'.exists_row target
  have hrelated {related : Row → Row → Prop} (hslice : Slice cie.dataAlign sort related) : related row row' :=
    hslice.rulesAt h h' hsame hcommon hown htarget hrow hrow'
  refine ⟨row', hrow', ?_, ?_, ?_, ?_⟩
  · intro slot hslot hother
    exact hrelated (slice_rule cie.dataAlign hstays hslot hother)
  · intro hother
    exact hrelated (slice_frame cie.dataAlign hstays hother)
  · intro hcolumns
    exact hrelated (slice_row cie.dataAlign hcolumns)
  · intro hrestores
    have hother (i : Instruction) (hi : sort i) : i.concern ≠ .frame := by
      have hrestore := hrestores i hi
      cases i with
      | restore _ | restoreExtended _ => exact Concern.noConfusion
      | _ => cases hrestore
    exact hrelated (slice_frame cie.dataAlign hstays hother)

/-- The rule of slot 6 comes from two of eight instructions. -/
theorem columns_are_independent_six :
    let image : Bytes := [0x0c, 7, 8, 0x90, 1, 0x08, 40, 0x41, 0x0e, 16, 0x86, 2, 0xd0, 0x07, 33]
    let image' : Bytes := [0x41, 0x86, 2]
    let cie : Cie := { flavour := .ehFrame, offset := 0, version := 1, augmentation := [], codeAlign := 1,
                       dataAlign := -8, returnColumn := 16, encoding := .absolute, addressSize := 8,
                       instructions := ⟨0, 7⟩ }
    let cie' : Cie := { cie with instructions := ⟨0, 0⟩ }
    let fde : Fde := { cie := 0, flavour := .ehFrame, offset := 0x18, first := 0x1000, length := 0x100,
                       instructions := ⟨7, 15⟩ }
    let fde' : Fde := { fde with instructions := ⟨0, 3⟩ }
    let common : List Instruction := [.frame 7 8, .saved 16 1, .kept 40]
    let own : List Instruction := [.advance 1, .frameOffset 16, .saved 6 2, .restore 16, .lost 33]
    let sort (i : Instruction) : Prop := i.concern ≠ .location ∧ i.concern ≠ .column 6
    Programs image cie fde ⟨common, none⟩ ⟨own, none⟩ ∧ fde.first ≤ 0x1001 ∧ SameSetting cie fde cie' fde' ∧
      Programs image' cie' fde' ⟨[], none⟩ ⟨[.advance 1, .saved 6 2], none⟩ ∧ Without sort common [] ∧
      Without sort own [.advance 1, .saved 6 2] ∧
      ∃ row row', rulesAt image cie fde 0x1001 = .ok row ∧ rulesAt image' cie' fde' 0x1001 = .ok row' ∧
        row'.rules[6] = row.rules[6] := by
  intro image image' cie cie' fde fde' common own sort
  have hprograms : Programs image cie fde ⟨common, none⟩ ⟨own, none⟩ := ⟨by decide +kernel, by decide +kernel⟩
  have hprograms' : Programs image' cie' fde' ⟨[], none⟩ ⟨[.advance 1, .saved 6 2], none⟩ :=
    ⟨by decide +kernel, by decide +kernel⟩
  have hsame : SameSetting cie fde cie' fde' := ⟨rfl, rfl, rfl⟩
  let keep (i : Instruction) : Bool := i.concern = .location ∨ i.concern = .column 6
  have hkeep (i : Instruction) (hi : keep i = false) : sort i := not_or.mp (of_decide_eq_false hi)
  have hcommon : Without sort common [] := without_filter hkeep common
  have hown : Without sort own [.advance 1, .saved 6 2] := without_filter hkeep own
  obtain ⟨row, hrow, -, hwithout⟩ := columns_are_independent hprograms (show fde.first ≤ 0x1001 by decide)
  obtain ⟨row', hrow', hrules, -⟩ := hwithout image' cie' fde' _ _ sort hsame hprograms' hcommon hown fun i hi => hi.1
  exact ⟨hprograms, by decide, hsame, hprograms', hcommon, hown, row, row', hrow, hrow',
    hrules 6 (by decide) fun i hi => hi.2⟩

end Unwinder.Cfi
