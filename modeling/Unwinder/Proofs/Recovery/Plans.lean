import Unwinder.Cfi.Recovery

/-!
# `Proofs.Recovery.Plans` — what is known before a caller is recovered

Before memory is read, a plan says where the caller's registers come from. It is made from the row at the address and
from the callee's registers alone. This module says exactly when there is a plan, what it consists of, and for which of
six causes there is none.

## Contents
- **Places.** `displaced`, the address at a signed distance from another.
- **Plans.** `Plannable`, what a plan is made of, with `Plannable.plan`.
- **Causes.** `Unplannable`, with `plan_eq_error_iff`; `plan_outcome` shows that there is a plan or a cause.
- **Steps.** `unwind_eq`: a step fetches the return address and the slots in one go.
- **Watched memories.** `Watches`: to keep a record of the reads does not change a step (`Watches.unwind`).
-/

namespace Unwinder.Cfi

/-! ## Places -/

/-- The address at a signed distance from another one, where addresses are counted modulo 2^64. -/
def displaced (base : UInt64) (offset : Int64) : UInt64 :=
  UInt64.ofNat (((base.toNat : Int) + offset.toInt) % LittleEndian.wordLimit).toNat

theorem displaced_eq (base : UInt64) (offset : Int64) : displaced base offset = base + offset.toUInt64 := by
  have hoffset : (offset.toUInt64.toNat : Int) = offset.toInt % LittleEndian.wordLimit := by
    have hlt : offset.toUInt64.toNat < LittleEndian.wordLimit := offset.toUInt64.toNat_lt
    rw [← Int64.toInt_toBitVec, BitVec.toInt_eq_toNat_bmod]
    show (offset.toUInt64.toNat : Int) = Int.bmod offset.toUInt64.toNat LittleEndian.wordLimit % LittleEndian.wordLimit
    rw [Int.bmod_emod, Int.emod_eq_of_lt (Int.natCast_nonneg _) (by omega)]
  apply UInt64.toNat_inj.mp
  rw [displaced, UInt64.toNat_add, UInt64.toNat_ofNat', ← Int.natCast_inj]
  simp only [LittleEndian.wordLimit] at *
  omega

/-! ## Plans -/

/-- **What a plan is made of**: the row at an address that the function covers, and the frame address that it gives; and
    a place for the return address. -/
structure Plannable (image : Bytes) (cie : Cie) (fde : Fde) (target : UInt64) (regs : RegisterSet) (row : Row)
    (cfa : UInt64) : Prop where
  covers : fde.covers target = true
  inEffect : rulesAt image cie fde target = .ok row
  /-- The frame address is counted from a register that is sampled. -/
  frame : ∃ register base, row.frameRegister = some register ∧ register.toNat < slotCount ∧
    regs.slots[register.toNat]? = some base ∧ cfa = displaced base row.frameOffset
  /-- The return address has a slot, and is not lost. -/
  returns : ∃ rule, cie.returnColumn.toNat < slotCount ∧ row.rules[cie.returnColumn.toNat]? = some rule ∧ rule ≠ .lost

/-- **Why there is no plan**: each cause counts only where those before it do not apply. -/
inductive Unplannable (image : Bytes) (cie : Cie) (fde : Fde) (target : UInt64) : Error → Prop where
  /-- The function does not cover the address. -/
  | outside (hcovers : fde.covers target = false) :
      Unplannable image cie fde target (.misuse (.outsideRange target fde.first fde.last))
  /-- Its row cannot be worked out. -/
  | replay {e : Error} (hcovers : fde.covers target = true) (hrow : rulesAt image cie fde target = .error e) :
      Unplannable image cie fde target e
  /-- The row names no register for the frame address. -/
  | noFrameRule {row : Row} (hcovers : fde.covers target = true) (hrow : rulesAt image cie fde target = .ok row)
      (hframe : row.frameRegister = none) : Unplannable image cie fde target (.unsupported .noFrameRule)
  /-- The register has no slot. -/
  | frameRegister {row : Row} {register : UInt64} (hcovers : fde.covers target = true)
      (hrow : rulesAt image cie fde target = .ok row) (hframe : row.frameRegister = some register)
      (houtside : slotCount ≤ register.toNat) :
      Unplannable image cie fde target (.unsupported (.frameRegister register))
  /-- The return address has none. -/
  | returnColumn {row : Row} {register : UInt64} (hcovers : fde.covers target = true)
      (hrow : rulesAt image cie fde target = .ok row) (hframe : row.frameRegister = some register)
      (hinside : register.toNat < slotCount) (houtside : slotCount ≤ cie.returnColumn.toNat) :
      Unplannable image cie fde target (.unsupported (.returnColumn cie.returnColumn))
  /-- The return address is lost. -/
  | returnLost {row : Row} {register : UInt64} (hcovers : fde.covers target = true)
      (hrow : rulesAt image cie fde target = .ok row) (hframe : row.frameRegister = some register)
      (hinside : register.toNat < slotCount) (hlost : row.rules[cie.returnColumn.toNat]? = some .lost) :
      Unplannable image cie fde target (.unsupported .returnLost)

section Outcomes

variable {image : Bytes} {cie : Cie} {fde : Fde} {target : UInt64} {regs : RegisterSet}

namespace Recovery

/-- From the row on, a plan takes the frame address and the origin of the return address. -/
theorem plan_of_row {row : Row} (hcovers : fde.covers target = true) (hrow : rulesAt image cie fde target = .ok row) :
    plan image cie fde target regs =
      match frameAddress row regs with
      | .error e => .error e
      | .ok cfa =>
          match returnOrigin row cie.returnColumn cfa regs with
          | .error e => .error e
          | .ok origin => .ok ⟨cfa, origin, Vector.zipWith (Recovery.origin cfa) regs.slots row.rules⟩ := by
  unfold plan
  simp only [if_pos hcovers, hrow, bind, Except.bind]
  cases frameAddress row regs with
  | error e => rfl
  | ok cfa =>
      dsimp only
      cases returnOrigin row cie.returnColumn cfa regs with
      | error e => rfl
      | ok origin => rfl

theorem frameAddress_of_slot {row : Row} {register base : UInt64} (hframe : row.frameRegister = some register)
    (hbase : regs.slots[register.toNat]? = some base) :
    frameAddress row regs = .ok (displaced base row.frameOffset) := by
  unfold frameAddress
  rw [hframe]
  simp only [hbase, displaced_eq]

end Recovery

/-- **The plan**, where there is one. -/
theorem Plannable.plan {row : Row} {cfa : UInt64} (h : Plannable image cie fde target regs row cfa) :
    ∃ rule value, row.rules[cie.returnColumn.toNat]? = some rule ∧ rule ≠ .lost ∧
      regs.slots[cie.returnColumn.toNat]? = some value ∧ Recovery.plan image cie fde target regs =
        .ok ⟨cfa, Recovery.origin cfa value rule, Vector.zipWith (Recovery.origin cfa) regs.slots row.rules⟩ := by
  obtain ⟨register, base, hframe, -, hbase, rfl⟩ := h.frame
  obtain ⟨rule, hcolumn, hrule, hkept⟩ := h.returns
  have hvalue : regs.slots[cie.returnColumn.toNat]? = some regs.slots[cie.returnColumn.toNat] :=
    Vector.getElem?_eq_getElem hcolumn
  refine ⟨rule, _, hrule, hkept, hvalue, ?_⟩
  have horigin : Recovery.returnOrigin row cie.returnColumn (displaced base row.frameOffset) regs =
      .ok (Recovery.origin (displaced base row.frameOffset) regs.slots[cie.returnColumn.toNat] rule) := by
    unfold Recovery.returnOrigin
    rw [hrule, hvalue]
    cases rule with
    | lost => exact absurd rfl hkept
    | kept => rfl
    | saved offset => rfl
  rw [Recovery.plan_of_row h.covers h.inEffect, Recovery.frameAddress_of_slot hframe hbase]
  simp only [horigin]

/-- Where there is a cause there is no plan. -/
theorem Unplannable.plan {e : Error} (h : Unplannable image cie fde target e) :
    Recovery.plan image cie fde target regs = .error e := by
  cases h with
  | outside hcovers =>
      unfold Recovery.plan
      simp only [hcovers, Bool.false_eq_true, if_false]
      rfl
  | replay hcovers hrow =>
      unfold Recovery.plan
      rw [if_pos hcovers, hrow]
      rfl
  | noFrameRule hcovers hrow hframe =>
      rw [Recovery.plan_of_row hcovers hrow, Recovery.frameAddress, hframe]
  | frameRegister hcovers hrow hframe houtside =>
      rw [Recovery.plan_of_row hcovers hrow, Recovery.frameAddress, hframe]
      simp only [Vector.getElem?_eq_none houtside]
  | returnColumn hcovers hrow hframe hinside houtside =>
      rw [Recovery.plan_of_row hcovers hrow,
        Recovery.frameAddress_of_slot hframe (Vector.getElem?_eq_getElem hinside)]
      simp only [Recovery.returnOrigin, Vector.getElem?_eq_none houtside]
  | returnLost hcovers hrow hframe hinside hlost =>
      obtain ⟨hcolumn, -⟩ := Vector.getElem?_eq_some_iff.mp hlost
      rw [Recovery.plan_of_row hcovers hrow,
        Recovery.frameAddress_of_slot hframe (Vector.getElem?_eq_getElem hinside)]
      simp only [Recovery.returnOrigin, hlost, Vector.getElem?_eq_getElem hcolumn]

/-- **There is a plan or a cause.** -/
theorem plan_outcome (image : Bytes) (cie : Cie) (fde : Fde) (target : UInt64) (regs : RegisterSet) :
    (∃ row cfa, Plannable image cie fde target regs row cfa) ∨ ∃ e, Unplannable image cie fde target e := by
  cases hcovers : fde.covers target with
  | false => exact .inr ⟨_, .outside hcovers⟩
  | true =>
      cases hrow : rulesAt image cie fde target with
      | error e => exact .inr ⟨_, .replay hcovers hrow⟩
      | ok row =>
          cases hframe : row.frameRegister with
          | none => exact .inr ⟨_, .noFrameRule hcovers hrow hframe⟩
          | some register =>
              by_cases hinside : register.toNat < slotCount
              · by_cases hcolumn : cie.returnColumn.toNat < slotCount
                · have hrule : row.rules[cie.returnColumn.toNat]? = some row.rules[cie.returnColumn.toNat] :=
                      Vector.getElem?_eq_getElem hcolumn
                  by_cases hlost : row.rules[cie.returnColumn.toNat] = .lost
                  · rw [hlost] at hrule
                    exact .inr ⟨_, .returnLost hcovers hrow hframe hinside hrule⟩
                  · refine .inl ⟨row, displaced regs.slots[register.toNat] row.frameOffset, hcovers, hrow, ?_, ?_⟩
                    · exact ⟨register, _, hframe, hinside, Vector.getElem?_eq_getElem hinside, rfl⟩
                    · exact ⟨_, hcolumn, hrule, hlost⟩
                · exact .inr ⟨_, .returnColumn hcovers hrow hframe hinside (Nat.le_of_not_lt hcolumn)⟩
              · exact .inr ⟨_, .frameRegister hcovers hrow hframe (Nat.le_of_not_lt hinside)⟩

theorem plan_eq_error_iff {e : Error} :
    Recovery.plan image cie fde target regs = .error e ↔ Unplannable image cie fde target e := by
  constructor
  · intro h
    rcases plan_outcome image cie fde target regs with ⟨row, cfa, hplannable⟩ | ⟨e', hcause⟩
    · obtain ⟨rule, value, -, -, -, hplan⟩ := hplannable.plan
      rw [hplan] at h
      cases h
    · have hsame : Except.error e' = .error e := hcause.plan.symm.trans h
      cases hsame
      exact hcause
  · exact Unplannable.plan

end Outcomes

/-! ## Steps -/

section Steps

variable {σ : Type}

/-- Fetching a value and then others, when the value is there. -/
theorem fetchAll_of_fetch {source : WordSource σ} {o : Origin} {os : List Origin} {memory after : σ} {value : UInt64}
    (h : o.fetch source memory = (.ok value, after)) :
    fetchAll source (o :: os) memory =
      ((fetchAll source os after).1.map (value :: ·), (fetchAll source os after).2) := by
  rw [fetchAll, h]
  dsimp only
  rcases fetchAll source os after with ⟨e | values, last⟩
  · rfl
  · rfl

/-- **A step makes a plan and fetches what it says**, the return address before the slots. -/
theorem unwind_eq (source : WordSource σ) (image : Bytes) (cie : Cie) (fde : Fde) (target : UInt64)
    (regs : RegisterSet) (memory : σ) :
    unwind source image cie fde target regs memory =
      match Recovery.plan image cie fde target regs with
      | .error e => ⟨.error e, regs, memory⟩
      | .ok r =>
          match fetchAll source (r.returnAddress :: r.slots.toList) memory with
          | (.error e, memory) => ⟨.error e, regs, memory⟩
          | (.ok values, memory) =>
              ⟨.ok (r.frame (values.headD 0)), r.registers regs (values.headD 0) values.tail, memory⟩ := by
  unfold unwind
  cases Recovery.plan image cie fde target regs with
  | error e => rfl
  | ok r =>
      dsimp only
      rw [fetchAll]
      rcases r.returnAddress.fetch source memory with ⟨e | ra, memory'⟩
      · rfl
      · dsimp only
        rcases fetchAll source r.slots.toList memory' with ⟨e | values, memory''⟩
        · rfl
        · rfl

end Steps

/-! ## Watched memories -/

section Watching

variable {σ τ : Type} {watcher : WordSource τ} {source : WordSource σ} {view : τ → σ}

/-- **A memory that watches another**: it answers alike, and its states show those of the other. -/
structure Watches (watcher : WordSource τ) (source : WordSource σ) (view : τ → σ) : Prop where
  read : ∀ address state, source.read address (view state) =
    ((watcher.read address state).1, view (watcher.read address state).2)

/-- A step as the memory that is watched sees it. -/
def Unwound.seen (view : τ → σ) (step : Unwound τ) : Unwound σ := ⟨step.frame, step.registers, view step.memory⟩

theorem Watches.fetch (h : Watches watcher source view) (o : Origin) (state : τ) :
    o.fetch source (view state) = ((o.fetch watcher state).1, view (o.fetch watcher state).2) := by
  cases o with
  | known value => rfl
  | stored address => exact h.read address state

theorem Watches.fetchAll (h : Watches watcher source view) (os : List Origin) (state : τ) :
    Cfi.fetchAll source os (view state) =
      ((Cfi.fetchAll watcher os state).1, view (Cfi.fetchAll watcher os state).2) := by
  induction os generalizing state with
  | nil => rfl
  | cons o os ih =>
      rw [Cfi.fetchAll, Cfi.fetchAll, h.fetch]
      rcases o.fetch watcher state with ⟨e | value, after⟩
      · rfl
      · dsimp only
        rw [ih after]
        rcases Cfi.fetchAll watcher os after with ⟨e | values, last⟩
        · rfl
        · rfl

/-- **Watching a memory does not change a step.** -/
theorem Watches.unwind (h : Watches watcher source view) (image : Bytes) (cie : Cie) (fde : Fde) (target : UInt64)
    (regs : RegisterSet) (state : τ) :
    (Cfi.unwind watcher image cie fde target regs state).seen view =
      Cfi.unwind source image cie fde target regs (view state) := by
  rw [unwind_eq, unwind_eq]
  cases Recovery.plan image cie fde target regs with
  | error e => rfl
  | ok r =>
      dsimp only
      rw [h.fetchAll]
      rcases Cfi.fetchAll watcher (r.returnAddress :: r.slots.toList) state with ⟨e | values, after⟩
      · rfl
      · rfl

end Watching

end Unwinder.Cfi
