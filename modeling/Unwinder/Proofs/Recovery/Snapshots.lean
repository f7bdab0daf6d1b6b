import Mathlib.Data.List.Basic
import Unwinder.Proofs.Recovery.Plans
import Unwinder.Stack.Snapshot

/-!
# `Proofs.Recovery.Snapshots` — recovering a caller from a snapshot of the stack

Over a snapshot a step has no choice: it succeeds exactly when there is a plan and every word that the plan asks for has
been captured, and then every register of the caller is what its rule says. The frame address is worked out from the
callee's registers, so that no recovered register takes part in it, and the caller's code address is what the step has
put in the slot of the return address.

## Contents
- **Words.** `Snapshot.stored`, with `word_of_holds`.
- **Reads.** `fetchAll_of_captured`, what is fetched when all is there, and `captured_of_fetchAll`.
- **Rules.** `Row.savedAt?`, the address a rule points to, and `Row.origins`, what the slots ask for.
- **Callers.** `Recoverable`, when there is one, and `Recovered`, what it is.
- **Main statement.** `unwind_recovers_caller`.
-/

namespace Unwinder

/-! ## Words -/

/-- The word of eight bytes that a snapshot has at an address, lowest byte first. -/
def Snapshot.stored (stack : Snapshot) (address : UInt64) : UInt64 :=
  UInt64.ofNat (LittleEndian.toNat ((stack.bytes.drop (address.toNat - stack.base.toNat)).take 8))

theorem Snapshot.word_of_holds {stack : Snapshot} {address : UInt64} (h : stack.Holds address 8) :
    stack.word address = .ok (stack.stored address) := by
  unfold word read
  rw [if_pos h]
  rfl

/-- A word that has been captured is the number of its eight bytes. -/
theorem Snapshot.toNat_stored {stack : Snapshot} {address : UInt64} (h : stack.Holds address 8) :
    (stack.stored address).toNat =
      LittleEndian.toNat ((stack.bytes.drop (address.toNat - stack.base.toNat)).take 8) := by
  obtain ⟨-, hinside⟩ := h
  have hlength : ((stack.bytes.drop (address.toNat - stack.base.toNat)).take 8).length = 8 := by
    rw [List.length_take, List.length_drop]
    omega
  have hlt := LittleEndian.toNat_lt ((stack.bytes.drop (address.toNat - stack.base.toNat)).take 8)
  rw [hlength] at hlt
  exact UInt64.toNat_ofNat_of_lt' hlt

theorem Snapshot.holds_of_word {stack : Snapshot} {address value : UInt64} (h : stack.word address = .ok value) :
    stack.Holds address 8 := by
  unfold word read at h
  by_cases hholds : stack.Holds address 8
  · exact hholds
  · rw [if_neg hholds] at h
    cases h

namespace Cfi

/-! ## Reads -/

/-- The value of an origin, with the words of a snapshot. -/
def Origin.value (stack : Snapshot) : Origin → UInt64
  | .known value => value
  | .stored address => stack.stored address

/-- The address that an origin has to be read from. -/
def Origin.address? : Origin → Option UInt64
  | .known _ => none
  | .stored address => some address

/-- **What has been captured is fetched**, in order. -/
theorem fetchAll_of_captured {stack : Snapshot} {os : List Origin}
    (h : ∀ address, .stored address ∈ os → stack.Holds address 8) (tried : List UInt64) :
    fetchAll stack.source.logged os ((), tried) =
      (.ok (os.map (·.value stack)), (), tried ++ os.filterMap (·.address?)) := by
  induction os generalizing tried with
  | nil => rw [fetchAll, List.filterMap_nil, List.append_nil]; rfl
  | cons o os ih =>
      have hrest : ∀ address, .stored address ∈ os → stack.Holds address 8 :=
        fun address hmem => h address (List.mem_cons_of_mem o hmem)
      cases o with
      | known value =>
          rw [fetchAll_of_fetch rfl, ih hrest]
          rfl
      | stored address =>
          have hfetch : (Origin.stored address).fetch stack.source.logged ((), tried) =
              (.ok (stack.stored address), (), tried ++ [address]) := by
            simp only [Origin.fetch, WordSource.logged, Snapshot.source,
              Snapshot.word_of_holds (h address List.mem_cons_self)]
          rw [fetchAll_of_fetch hfetch, ih hrest, List.append_assoc]
          rfl

/-- **What is fetched has been captured.** -/
theorem captured_of_fetchAll {stack : Snapshot} {os : List Origin} {state : Unit × List UInt64} {values : List UInt64}
    (h : (fetchAll stack.source.logged os state).1 = .ok values) :
    ∀ address, .stored address ∈ os → stack.Holds address 8 := by
  induction os generalizing state values with
  | nil => simp
  | cons o os ih =>
      rcases hfetch : o.fetch stack.source.logged state with ⟨e | value, after⟩
      · rw [fetchAll, hfetch] at h
        cases h
      · rw [fetchAll_of_fetch hfetch] at h
        cases hmore : (fetchAll stack.source.logged os after).1 with
        | error e =>
            rw [hmore] at h
            cases h
        | ok more =>
            intro address hmem
            rcases List.mem_cons.mp hmem with rfl | hmem
            · exact Snapshot.holds_of_word (congrArg Prod.fst hfetch)
            · exact ih hmore address hmem

theorem watches_logged {σ : Type} {source : WordSource σ} : Watches source.logged source Prod.fst :=
  ⟨fun _ _ => rfl⟩

/-! ## Rules -/

/-- The address that the rule of a slot points to, by the frame address. -/
def Row.savedAt? (row : Row) (cfa : UInt64) (slot : Nat) : Option UInt64 :=
  match row.rules[slot]? with
  | some (.saved offset) => some (displaced cfa offset)
  | _ => none

/-- A rule points to the address that its origin is read from, if there is one. -/
theorem savedAt?_of_rule {row : Row} {slot : Nat} {rule : RegisterRule} (h : row.rules[slot]? = some rule)
    (cfa value : UInt64) : row.savedAt? cfa slot = (Recovery.origin cfa value rule).address? := by
  rw [Row.savedAt?, h]
  cases rule with
  | lost => rfl
  | kept => rfl
  | saved offset =>
      dsimp only
      rw [Recovery.origin, Origin.address?, displaced_eq]

/-- The origins of the slots, by the rules of a row. -/
def Row.origins (row : Row) (cfa : UInt64) (regs : RegisterSet) : List Origin :=
  (Vector.zipWith (Recovery.origin cfa) regs.slots row.rules).toList

theorem getElem?_origins (row : Row) (cfa : UInt64) (regs : RegisterSet) {i : Nat} (hi : i < slotCount) :
    (row.origins cfa regs)[i]? = some (Recovery.origin cfa regs.slots[i] row.rules[i]) := by
  rw [Row.origins, Vector.getElem?_toList, Vector.getElem?_eq_getElem hi, Vector.getElem_zipWith]

/-- The words that the slots ask for are those that rules point to. -/
theorem stored_mem_origins {row : Row} {cfa address : UInt64} {regs : RegisterSet} :
    .stored address ∈ row.origins cfa regs ↔
      ∃ (i : Nat) (offset : Int64), row.rules[i]? = some (.saved offset) ∧ address = displaced cfa offset := by
  constructor
  · intro hmem
    obtain ⟨i, horigin⟩ := List.mem_iff_getElem?.mp hmem
    have hi : i < slotCount := by
      have hlength := (List.getElem?_eq_some_iff.mp horigin).1
      rwa [Row.origins, Vector.length_toList] at hlength
    have hrule : row.rules[i]? = some row.rules[i] := Vector.getElem?_eq_getElem hi
    rw [getElem?_origins row cfa regs hi, Option.some.injEq] at horigin
    generalize row.rules[i] = rule at hrule horigin
    cases rule with
    | lost => cases horigin
    | kept => cases horigin
    | saved offset =>
        cases horigin
        exact ⟨i, offset, hrule, (displaced_eq cfa offset).symm⟩
  · rintro ⟨i, offset, hrule, rfl⟩
    obtain ⟨hi, hrule⟩ := Vector.getElem?_eq_some_iff.mp hrule
    have horigin := getElem?_origins row cfa regs hi
    rw [hrule, Recovery.origin, ← displaced_eq] at horigin
    exact List.mem_of_getElem? horigin

/-- The addresses that the slots are read from, in order. -/
theorem filterMap_origins (row : Row) (cfa : UInt64) (regs : RegisterSet) :
    (row.origins cfa regs).filterMap (·.address?) = (List.range slotCount).filterMap (row.savedAt? cfa) := by
  -- the origins are a map over the slots as well
  have horigins : row.origins cfa regs =
      (List.range slotCount).map fun i => Recovery.origin cfa (regs.column i) (row.rules[i]?.getD .kept) := by
    apply List.ext_getElem?
    intro i
    by_cases hi : i < slotCount
    · rw [getElem?_origins row cfa regs hi, List.getElem?_map, List.getElem?_range hi, Option.map_some,
        RegisterSet.column, Vector.getElem?_eq_getElem hi, Vector.getElem?_eq_getElem hi]
      rfl
    · rw [List.getElem?_eq_none, List.getElem?_eq_none]
      · rw [List.length_map, List.length_range]
        exact Nat.le_of_not_lt hi
      · rw [Row.origins, Vector.length_toList]
        exact Nat.le_of_not_lt hi
  rw [horigins, List.filterMap_map]
  apply List.filterMap_congr
  intro i hi
  have hlt : i < slotCount := List.mem_range.mp hi
  have hrule : row.rules[i]? = some row.rules[i] := Vector.getElem?_eq_getElem hlt
  rw [Function.comp_apply, hrule, savedAt?_of_rule hrule cfa (regs.column i)]
  rfl

/-! ## Callers -/

/-- **When a caller can be recovered** from a snapshot: there is a plan, and every word that a rule points to has been
    captured. -/
structure Recoverable (image : Bytes) (cie : Cie) (fde : Fde) (target : UInt64) (regs : RegisterSet) (stack : Snapshot)
    (row : Row) (cfa : UInt64) : Prop extends Plannable image cie fde target regs row cfa where
  captured : ∀ (i : Nat) (offset : Int64), row.rules[i]? = some (.saved offset) →
    stack.Holds (displaced cfa offset) 8

/-- **What is recovered**: the registers and the frame of the caller, and the reads that it takes. -/
structure Recovered (cie : Cie) (regs : RegisterSet) (stack : Snapshot) (row : Row) (cfa : UInt64)
    (step : Unwound (Unit × List UInt64)) : Prop where
  kept : ∀ (i : Nat) (hi : i < slotCount), row.rules[i] = .kept → step.registers.slots[i] = regs.slots[i]
  lost : ∀ (i : Nat) (hi : i < slotCount), row.rules[i] = .lost → step.registers.slots[i] = 0
  saved : ∀ (i : Nat) (hi : i < slotCount) (offset : Int64), row.rules[i] = .saved offset →
    (step.registers.slots[i]).toNat =
      LittleEndian.toNat ((stack.bytes.drop ((displaced cfa offset).toNat - stack.base.toNat)).take 8)
  /-- The code address is what the slot of the return address has become. -/
  code : step.registers.slots[cie.returnColumn.toNat]? = some step.registers.pc
  stack : step.registers.sp = cfa
  header : step.registers.tag = regs.tag ∧ step.registers.version = regs.version ∧ step.registers.flags = regs.flags
  frame : step.frame = .ok { pc := step.registers.pc, sp := cfa, cfa, ra := step.registers.pc, isPartial := false,
                             module := none }
  /-- The return address is read first and the slots in order after it, its own slot again. -/
  reads : step.memory.2 = (cie.returnColumn.toNat :: List.range slotCount).filterMap (row.savedAt? cfa)

section Callers

variable {image : Bytes} {cie : Cie} {fde : Fde} {target : UInt64} {regs : RegisterSet} {stack : Snapshot} {row : Row}
  {cfa : UInt64}

/-- What the return address and the slots ask for has been captured. -/
theorem Recoverable.stored (h : Recoverable image cie fde target regs stack row cfa) {rule : RegisterRule}
    {value address : UInt64} (hrule : row.rules[cie.returnColumn.toNat]? = some rule)
    (hmem : .stored address ∈ Recovery.origin cfa value rule :: row.origins cfa regs) : stack.Holds address 8 := by
  rcases List.mem_cons.mp hmem with hreturn | hslot
  · cases rule with
    | lost => cases hreturn
    | kept => cases hreturn
    | saved offset =>
        cases hreturn
        rw [← displaced_eq]
        exact h.captured _ offset hrule
  · obtain ⟨i, offset, hsaved, rfl⟩ := stored_mem_origins.mp hslot
    exact h.captured i offset hsaved

/-- The addresses of the return address and the slots. -/
theorem filterMap_return {rule : RegisterRule} {slot : Nat} (hrule : row.rules[slot]? = some rule)
    (cfa value : UInt64) (regs : RegisterSet) :
    (Recovery.origin cfa value rule :: row.origins cfa regs).filterMap (·.address?) =
      (slot :: List.range slotCount).filterMap (row.savedAt? cfa) := by
  rw [List.filterMap_cons, List.filterMap_cons, filterMap_origins, savedAt?_of_rule hrule cfa value]

/-- The step, where there is a plan: the return address and the slots are fetched, and then everything is set. -/
theorem Plannable.unwind (h : Plannable image cie fde target regs row cfa) :
    ∃ rule value, row.rules[cie.returnColumn.toNat]? = some rule ∧ regs.slots[cie.returnColumn.toNat]? = some value ∧
      Cfi.unwind stack.source.logged image cie fde target regs ((), []) =
        match fetchAll stack.source.logged (Recovery.origin cfa value rule :: row.origins cfa regs) ((), []) with
        | (.error e, memory) => ⟨.error e, regs, memory⟩
        | (.ok values, memory) =>
            ⟨.ok { pc := values.headD 0, sp := cfa, cfa, ra := values.headD 0, isPartial := false, module := none },
              { regs with pc := values.headD 0, sp := cfa, slots := slotsOf values.tail }, memory⟩ := by
  obtain ⟨rule, value, hrule, -, hvalue, hplan⟩ := h.plan
  refine ⟨rule, value, hrule, hvalue, ?_⟩
  rw [unwind_eq, hplan]
  dsimp only
  rw [← Row.origins]
  rcases fetchAll stack.source.logged (Recovery.origin cfa value rule :: row.origins cfa regs) ((), []) with
    ⟨e | values, memory⟩
  · rfl
  · rfl

/-- **The step, where all is there.** -/
theorem Recoverable.unwind (h : Recoverable image cie fde target regs stack row cfa) :
    ∃ rule value, row.rules[cie.returnColumn.toNat]? = some rule ∧ regs.slots[cie.returnColumn.toNat]? = some value ∧
      Cfi.unwind stack.source.logged image cie fde target regs ((), []) =
        ⟨.ok { pc := (Recovery.origin cfa value rule).value stack, sp := cfa, cfa,
               ra := (Recovery.origin cfa value rule).value stack, isPartial := false, module := none },
          { regs with pc := (Recovery.origin cfa value rule).value stack, sp := cfa,
                      slots := slotsOf ((row.origins cfa regs).map (·.value stack)) },
          (), (cie.returnColumn.toNat :: List.range slotCount).filterMap (row.savedAt? cfa)⟩ := by
  obtain ⟨rule, value, hrule, hvalue, hstep⟩ := h.toPlannable.unwind
  refine ⟨rule, value, hrule, hvalue, ?_⟩
  rw [hstep, fetchAll_of_captured (fun address => h.stored hrule), filterMap_return hrule]
  rfl

/-- The slots after the step. -/
theorem getElem_slotsOf_origins (row : Row) (cfa : UInt64) (regs : RegisterSet) (stack : Snapshot) {i : Nat}
    (hi : i < slotCount) :
    (slotsOf ((row.origins cfa regs).map (·.value stack)))[i] =
      (Recovery.origin cfa regs.slots[i] row.rules[i]).value stack := by
  rw [slotsOf, Vector.getElem_ofFn, List.getElem?_map, getElem?_origins row cfa regs hi]
  rfl

theorem Recoverable.recovered (h : Recoverable image cie fde target regs stack row cfa) :
    Recovered cie regs stack row cfa (Cfi.unwind stack.source.logged image cie fde target regs ((), [])) := by
  obtain ⟨rule, value, hrule, hvalue, hstep⟩ := h.unwind
  rw [hstep]
  -- every slot by its rule; the code address is fetched by the rule of its slot
  have hslot := fun (i : Nat) (hi : i < slotCount) => getElem_slotsOf_origins row cfa regs stack hi
  refine ⟨?_, ?_, ?_, ?_, rfl, ⟨rfl, rfl, rfl⟩, rfl, rfl⟩
  · intro i hi hkept
    exact (hslot i hi).trans (by rw [hkept]; rfl)
  · intro i hi hlost
    exact (hslot i hi).trans (by rw [hlost]; rfl)
  · intro i hi offset hsaved
    have hholds := h.captured i offset (by rw [Vector.getElem?_eq_getElem hi, hsaved])
    rw [← Snapshot.toNat_stored hholds, displaced_eq]
    exact congrArg UInt64.toNat ((hslot i hi).trans (by rw [hsaved]; rfl))
  · obtain ⟨hcolumn, rfl⟩ := Vector.getElem?_eq_some_iff.mp hrule
    obtain ⟨-, rfl⟩ := Vector.getElem?_eq_some_iff.mp hvalue
    rw [Vector.getElem?_eq_getElem hcolumn]
    exact congrArg some (hslot _ hcolumn)

/-- A step that succeeds had all it needed. -/
theorem recoverable_of_unwind {frame : Frame}
    (h : (Cfi.unwind stack.source.logged image cie fde target regs ((), [])).frame = .ok frame) :
    ∃ row cfa, Recoverable image cie fde target regs stack row cfa := by
  rcases plan_outcome image cie fde target regs with ⟨row, cfa, hplannable⟩ | ⟨e, hcause⟩
  · obtain ⟨rule, value, -, -, hstep⟩ := hplannable.unwind
    rcases hfetch : fetchAll stack.source.logged (Recovery.origin cfa value rule :: row.origins cfa regs) ((), []) with
      ⟨e | values, memory⟩
    · rw [hstep, hfetch] at h
      cases h
    · refine ⟨row, cfa, hplannable, ?_⟩
      intro i offset hsaved
      have hmem : .stored (displaced cfa offset) ∈ row.origins cfa regs :=
        stored_mem_origins.mpr ⟨i, offset, hsaved, rfl⟩
      exact captured_of_fetchAll (congrArg Prod.fst hfetch) _ (List.mem_cons_of_mem _ hmem)
  · rw [unwind_eq, hcause.plan] at h
    cases h

end Callers

/-! ## Main statement -/

/-- **Over a snapshot a caller is recovered exactly when it can be.** Whatever the image, the records, the address and
    the registers: the step succeeds just when there is a row with a frame address and a return address, and every word
    that its rules point to has been captured; and then the registers, the frame and the reads are those of `Recovered`.
    The log of the reads is kept beside the step and does not change it. -/
theorem unwind_recovers_caller (image : Bytes) (cie : Cie) (fde : Fde) (target : UInt64) (regs : RegisterSet)
    (stack : Snapshot) :
    let step := unwind stack.source.logged image cie fde target regs ((), [])
    step.seen Prod.fst = unwind stack.source image cie fde target regs () ∧
    ((∃ frame, step.frame = .ok frame) ↔ ∃ row cfa, Recoverable image cie fde target regs stack row cfa) ∧
      ∀ row cfa, Recoverable image cie fde target regs stack row cfa → Recovered cie regs stack row cfa step := by
  intro step
  refine ⟨watches_logged.unwind image cie fde target regs ((), []), ⟨?_, ?_⟩, fun row cfa h => h.recovered⟩
  · rintro ⟨frame, hframe⟩
    exact recoverable_of_unwind hframe
  · rintro ⟨row, cfa, h⟩
    exact ⟨_, h.recovered.frame⟩

/-- The return address is read before the slots, and its own slot has it read again. -/
example :
    let cie : Cie := { flavour := .ehFrame, offset := 0, version := 1, augmentation := [], codeAlign := 1,
                       dataAlign := -8, returnColumn := 16, encoding := .absolute, addressSize := 8,
                       instructions := ⟨0, 9⟩ }
    let fde : Fde :=
      { cie := 0, flavour := .ehFrame, offset := 0x18, first := 0x1000, length := 0x100, instructions := ⟨9, 9⟩ }
    let regs : RegisterSet := ⟨1, 1, 0, 0x7000, 0x1010, (Vector.replicate slotCount 0).set 7 0x7000⟩
    let stack : Snapshot := ⟨0x6ff0, [3, 0, 0, 0, 0, 0, 0, 0, 6, 0, 0, 0, 0, 0, 0, 0, 0x10, 0x20, 0, 0, 0, 0, 0, 0]⟩
    let step := unwind stack.source.logged [0x0c, 7, 8, 0x83, 3, 0x86, 2, 0x90, 1] cie fde 0x1010 regs ((), [])
    step.memory.2 = [0x7000, 0x6ff0, 0x6ff8, 0x7000] ∧ step.registers.pc = 0x2010 ∧ step.registers.sp = 0x7008 ∧
      step.registers.slots[3] = 3 ∧ step.registers.slots[6] = 6 ∧ step.registers.slots[7] = 0x7000 := by
  decide +kernel

end Cfi

end Unwinder
