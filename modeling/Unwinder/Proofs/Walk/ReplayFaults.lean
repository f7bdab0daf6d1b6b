import Mathlib.Control.Monad.Basic
import Unwinder.Proofs.Faults
import Unwinder.Proofs.FrameRecords
import Unwinder.Proofs.Capture.Outcomes
import Unwinder.Proofs.Recovery.Plans

/-!
# `Proofs.Walk.ReplayFaults` — why a replay fails

A walk over a loaded module ends where the replay of a function's programs fails. The replay checks what the loader
has seen to already: that the function covers the address, that its common record is there, and that both programs lie
in the image. For a loaded module none of these checks fails, whatever the file consists of, and only three causes are
left.

## Contents
- **Programs.** `Faulty`, a program with an instruction that cannot be read; `rulesAt_fails`.
- **Words.** `Origin.fetch_fails` and `fetchAll_fails`, over a snapshot.
- **Functions.** `Replayable`, what the replay of a function relies on; `Module.replayable_of_load`.
- **Replays.** `Unreplayable` lists the causes, with `unreplayable_of_fails` and `Unreplayable.cause`.
- **Main statement.** `replay_fails_legitimately`.
-/

namespace Unwinder

/-! ## Programs -/

namespace Cfi

/-- A stretch in a span of an image can be cut out of it. -/
theorem Extent.Within.slice?_isSome {image : Bytes} {e : Extent} {span : SectionSpan} (h : e.Within span)
    (hinside : span.offset + span.length ≤ image.length) : (e.slice? image).isSome := by
  unfold Extent.slice?
  rw [if_pos ⟨h.ordered, Nat.le_trans h.finishes hinside⟩]
  rfl

/-- **A faulty program**: behind instructions that can be read stands one that cannot. -/
inductive Faulty (image : Bytes) (addressSize : UInt8) (stretch : Extent) (e : Error) : Prop where
  | intro {front : Bytes} {opcode : UInt8} {rest : Bytes}
      (hbytes : stretch.slice? image = some (front ++ opcode :: rest))
      (hfront : (Program.decode addressSize front).fault = none)
      (hfault : Instruction.afterOpcode addressSize opcode rest = .error e) : Faulty image addressSize stretch e

theorem Faulty.badInstruction {image : Bytes} {addressSize : UInt8} {stretch : Extent} {e : Error}
    (h : Faulty image addressSize stretch e) : BadInstruction e := by
  obtain ⟨-, -, hfault⟩ := h
  exact Instruction.failsOnly_afterOpcode _ _ _ _ hfault

/-- Carrying out instructions fails with the fault at their end only. -/
theorem Row.run_fails {cie : Cie} {initial row : Row} {target location : UInt64} {fault : Option Error}
    {is : List Instruction} {e : Error} (h : run cie initial target fault is location row = .error e) :
    fault = some e := by
  induction is generalizing location row with
  | nil =>
      cases fault with
      | none => cases h
      | some e' =>
          cases h
          rfl
  | cons i is ih =>
      unfold run at h
      by_cases hpast : target < i.locate cie.codeAlign location
      · simp only [if_pos hpast] at h
        cases h
      · simp only [if_neg hpast] at h
        exact ih h

theorem Row.runAt_fails {image : Bytes} {cie : Cie} {stretch : Extent} {initial row : Row}
    {location target : UInt64} {e : Error} (hinside : (stretch.slice? image).isSome)
    (h : runAt image cie stretch initial location target row = .error e) :
    Faulty image cie.addressSize stretch e := by
  obtain ⟨bs, hslice⟩ := Option.isSome_iff_exists.mp hinside
  unfold runAt at h
  rw [hslice] at h
  obtain ⟨front, opcode, rest, rfl, hfront, hfault⟩ := Program.fault_decode (run_fails h)
  exact ⟨hslice, hfront, hfault⟩

/-- **The row at an address** cannot be worked out when one of the two programs is faulty. -/
theorem rulesAt_fails {image : Bytes} {cie : Cie} {fde : Fde} {target : UInt64} {e : Error}
    (hinitial : (cie.instructions.slice? image).isSome) (hprogram : (fde.instructions.slice? image).isSome)
    (h : rulesAt image cie fde target = .error e) :
    Faulty image cie.addressSize cie.instructions e ∨ Faulty image cie.addressSize fde.instructions e := by
  unfold rulesAt at h
  cases hrow : Row.runAt image cie cie.instructions .blank fde.first lastAddress .blank with
  | error e' =>
      simp only [hrow, bind, Except.bind] at h
      cases h
      exact .inl (Row.runAt_fails hinitial hrow)
  | ok initial =>
      simp only [hrow, bind, Except.bind] at h
      exact .inr (Row.runAt_fails hprogram h)

/-! ## Plans -/

/-- **A plan cannot be made** for an address of the function when one of its programs is faulty, or when a rule asks
    for what is not interpreted. -/
theorem Recovery.plan_fails {image : Bytes} {cie : Cie} {fde : Fde} {target : UInt64} {regs : RegisterSet} {e : Error}
    (hcovers : fde.covers target = true) (hinitial : (cie.instructions.slice? image).isSome)
    (hprogram : (fde.instructions.slice? image).isSome) (h : plan image cie fde target regs = .error e) :
    (Faulty image cie.addressSize cie.instructions e ∨ Faulty image cie.addressSize fde.instructions e) ∨
      ∃ feature, e = .unsupported feature := by
  cases plan_eq_error_iff.mp h with
  | outside houtside =>
      rw [hcovers] at houtside
      cases houtside
  | replay _ hrow => exact .inl (rulesAt_fails hinitial hprogram hrow)
  | noFrameRule => exact .inr ⟨_, rfl⟩
  | frameRegister => exact .inr ⟨_, rfl⟩
  | returnColumn => exact .inr ⟨_, rfl⟩
  | returnLost => exact .inr ⟨_, rfl⟩

/-! ## Words -/

/-- A word of a snapshot cannot be read when it is not captured as a whole. -/
theorem Origin.fetch_fails {stack : Snapshot} {o : Origin} {e : Error}
    (h : (o.fetch stack.source ()).1 = .error e) :
    ∃ address, o = .stored address ∧ ¬ stack.Holds address 8 ∧
      e = .io (.snapshot stack.base) (.notCaptured 8 address) := by
  cases o with
  | known value => cases h
  | stored address =>
      change stack.word address = .error e at h
      unfold Snapshot.word Snapshot.read at h
      by_cases hholds : stack.Holds address 8
      · simp only [if_pos hholds] at h
        cases h
      · simp only [if_neg hholds] at h
        cases h
        exact ⟨address, rfl, hholds, rfl⟩

theorem fetchAll_fails {stack : Snapshot} {os : List Origin} {e : Error}
    (h : (fetchAll stack.source os ()).1 = .error e) :
    ∃ address, .stored address ∈ os ∧ ¬ stack.Holds address 8 ∧
      e = .io (.snapshot stack.base) (.notCaptured 8 address) := by
  induction os with
  | nil => cases h
  | cons o os ih =>
      rw [fetchAll] at h
      rcases hfirst : o.fetch stack.source () with ⟨e' | value, memory⟩
      · simp only [hfirst] at h
        cases h
        obtain ⟨address, rfl, hcause⟩ := Origin.fetch_fails (congrArg Prod.fst hfirst)
        exact ⟨address, List.mem_cons_self, hcause⟩
      · simp only [hfirst] at h
        rcases hrest : fetchAll stack.source os memory with ⟨e' | values, memory'⟩
        · simp only [hrest] at h
          cases h
          obtain ⟨address, hmem, hcause⟩ := ih (congrArg Prod.fst hrest)
          exact ⟨address, List.mem_cons_of_mem o hmem, hcause⟩
        · simp only [hrest] at h
          cases h

end Cfi

/-! ## Functions -/

/-- **What the replay of a function relies on** at an address: the function covers it, its common record is there, and
    both programs lie in the image. -/
structure Replayable (m : Module) (fde : Cfi.Fde) (cie : Cfi.Cie) (target : UInt64) : Prop where
  covers : fde.covers target = true
  common : m.index.records.cieOf fde = .ok cie
  initial : (cie.instructions.slice? m.image.bytes).isSome
  program : (fde.instructions.slice? m.image.bytes).isSome

/-- **In a loaded module every function that is found for an address can be replayed there.** -/
theorem Module.replayable_of_load {files : FileSystem} {path : Path} {m : Module} (hload : load files path = .ok m)
    {pc : UInt64} {fde : Cfi.Fde} (hfound : m.index.records.covering? pc = some fde) :
    ∃ cie, Replayable m fde cie pc := by
  obtain ⟨sections, -, -, hindex⟩ := load_eq_ok hload
  have hrecords := Cfi.FrameRecords.wellFormed_usable m.image sections
  rw [← show m.index.records = .usable m.image sections by rw [hindex]] at hrecords
  obtain ⟨cie, hcie, input, -, hfde⟩ := hrecords.function fde (List.mem_of_find?_eq_some hfound)
  obtain ⟨input', -, hcommon⟩ := hrecords.common cie (List.mem_of_getElem? hcie)
  refine ⟨cie, ?_, ?_, ?_, ?_⟩
  · have hcovers := List.find?_some hfound
    exact hcovers
  · unfold Cfi.FrameRecords.cieOf
    rw [hcie]
  · exact hcommon.within.slice?_isSome hcommon.inside
  · exact hfde.within.slice?_isSome hfde.inside

/-! ## Replays -/

/-- **Why a frame's caller cannot be worked out** over a snapshot, by the replay of a function's programs. -/
inductive Unreplayable (m : Module) (stack : Snapshot) (fde : Cfi.Fde) (target : UInt64) (regs : RegisterSet) :
    Error → Prop where
  /-- A program or a rule asks for what is not interpreted. -/
  | notInterpreted {cie : Cfi.Cie} {feature : Feature} (hcommon : m.index.records.cieOf fde = .ok cie)
      (hplan : Cfi.Recovery.plan m.image.bytes cie fde target regs = .error (.unsupported feature)) :
      Unreplayable m stack fde target regs (.unsupported feature)
  /-- An instruction of one of the programs has an operand that is cut off or too long, or an address as operand whose
      size no target has. -/
  | badOperand {cie : Cfi.Cie} {e : Error} (hcommon : m.index.records.cieOf fde = .ok cie)
      (hfaulty : Cfi.Faulty m.image.bytes cie.addressSize cie.instructions e ∨
        Cfi.Faulty m.image.bytes cie.addressSize fde.instructions e) (hnumber : BadNumber e) :
      Unreplayable m stack fde target regs e
  /-- A word that is needed has not been captured as a whole. -/
  | notCaptured {cie : Cfi.Cie} {r : Cfi.Recovery} {address : UInt64} (hcommon : m.index.records.cieOf fde = .ok cie)
      (hplan : Cfi.Recovery.plan m.image.bytes cie fde target regs = .ok r)
      (hneeded : .stored address ∈ r.returnAddress :: r.slots.toList) (houtside : ¬ stack.Holds address 8) :
      Unreplayable m stack fde target regs (.io (.snapshot stack.base) (.notCaptured 8 address))

section Replays

variable {m : Module} {stack : Snapshot} {fde : Cfi.Fde} {target : UInt64} {regs : RegisterSet} {e : Error}

/-- **The kinds of these causes.** -/
theorem Unreplayable.cause (h : Unreplayable m stack fde target regs e) :
    e.status = .notImplemented ∨ (e.status = .badFormat ∧ BadNumber e) ∨
      (e.status = .io ∧ ∃ address, ¬ stack.Holds address 8 ∧
        e = .io (.snapshot stack.base) (.notCaptured 8 address)) := by
  cases h with
  | notInterpreted => exact .inl rfl
  | badOperand _ _ hnumber =>
      refine .inr (.inl ⟨?_, hnumber⟩)
      cases hnumber with
      | _ => rfl
  | notCaptured _ _ _ houtside => exact .inr (.inr ⟨rfl, _, houtside, rfl⟩)

/-- **Where a function can be replayed, its replay fails for one of these causes.** -/
theorem unreplayable_of_fails {cie : Cfi.Cie} (h : Replayable m fde cie target)
    (hfails : (m.unwind stack.source fde target regs ()).frame = .error e) :
    Unreplayable m stack fde target regs e := by
  unfold Module.unwind at hfails
  simp only [h.common] at hfails
  rw [Cfi.unwind_eq] at hfails
  cases hplan : Cfi.Recovery.plan m.image.bytes cie fde target regs with
  | error e' =>
      simp only [hplan] at hfails
      cases hfails
      rcases Cfi.Recovery.plan_fails h.covers h.initial h.program hplan with hfaulty | ⟨feature, rfl⟩
      · have hkind : Cfi.BadInstruction e := hfaulty.elim (·.badInstruction) (·.badInstruction)
        cases hkind with
        | operand hnumber => exact .badOperand h.common hfaulty hnumber
        | expression opcode => exact .notInterpreted h.common hplan
        | unknown opcode => exact .notInterpreted h.common hplan
      · exact .notInterpreted h.common hplan
  | ok r =>
      simp only [hplan] at hfails
      rcases hfetch : Cfi.fetchAll stack.source (r.returnAddress :: r.slots.toList) () with ⟨e' | values, memory⟩
      · simp only [hfetch] at hfails
        cases hfails
        obtain ⟨address, hneeded, houtside, rfl⟩ := Cfi.fetchAll_fails (congrArg Prod.fst hfetch)
        exact .notCaptured h.common hplan hneeded houtside
      · simp only [hfetch] at hfails
        cases hfails

end Replays

/-! ## Walks -/

/-- A walk starts with the architecture that its register set names. -/
theorem RegisterSet.architecture_of_start {regs normal : RegisterSet} {a : Architecture} {frame : Frame}
    (h : regs.start = .ok (a, normal, frame)) : regs.architecture = .ok a := by
  unfold start at h
  cases harch : regs.architecture with
  | error e => simp [harch, bind, Except.bind] at h
  | ok found =>
      simp only [harch, bind, Except.bind] at h
      split at h
      · cases h
      · split at h
        · cases h
        · cases h
          rfl

/-- A walk over a snapshot that reports a replay has got to a frame whose replay fails so. -/
theorem replay_of_walk {m : Module} {place : Path} {stack : Snapshot} {regs : RegisterSet} {buffer : List Frame}
    {e : Error} (h : (walk m place (some stack.source) regs buffer ()).ending = .ok (.replay e)) :
    ∃ a k last fde, regs.architecture = .ok a ∧
      m.callers a (some stack) { regs with version := registerFormat } k = some last ∧
      m.index.records.covering? last.pc = some fde ∧ (m.replay a stack fde last).frame = .error e := by
  cases buffer with
  | nil =>
      unfold walk at h
      cases hstart : regs.start with
      | error e' =>
          rw [hstart] at h
          cases h
      | ok start =>
          rw [hstart] at h
          cases h
  | cons slot buffer =>
      rw [walk_cons] at h
      cases hstart : regs.start with
      | error e' =>
          simp only [hstart] at h
          cases h
      | ok start =>
          obtain ⟨a, normal, frame⟩ := start
          obtain ⟨rfl, -, -⟩ := RegisterSet.start_eq_ok hstart
          simp only [hstart] at h
          have hending : (m.snapshotTrail a (some stack) buffer.length
              { regs with version := registerFormat }).ending = .replay e := Except.ok.inj h
          obtain ⟨last, hlast, hstops⟩ := stops_of_trail m a (some stack) buffer.length
            { regs with version := registerFormat }
          rw [hending] at hstops
          cases hstops with
          | halted hroom hhalts =>
              cases hhalts with
              | replay hmemory hfirst hfails =>
                  cases hmemory
                  exact ⟨a, _, last, _, RegisterSet.architecture_of_start hstart, hlast, hfirst, hfails⟩

/-! ## Main statement -/

/-- **A loaded module stops a walk for legitimate reasons only.** Whatever file a module was loaded from:
    * a function that is found for an address covers it, and has its common record and both programs, so that over a
      snapshot its replay there fails for one of the causes of `Unreplayable` alone;
    * a walk over a snapshot that reports a failed replay has got to a frame whose function fails so. The failure is of
      something that is not interpreted, of a number in an instruction, or of a word that has not been captured. -/
theorem replay_fails_legitimately {files : FileSystem} {path : Path} {m : Module}
    (hload : Module.load files path = .ok m) (stack : Snapshot) :
    (∀ (pc : UInt64) (fde : Cfi.Fde), m.index.records.covering? pc = some fde →
      (∃ cie, Replayable m fde cie pc) ∧
        ∀ (regs : RegisterSet) (e : Error), (m.unwind stack.source fde pc regs ()).frame = .error e →
          Unreplayable m stack fde pc regs e) ∧
    ∀ (place : Path) (regs : RegisterSet) (buffer : List Frame) (e : Error),
      (walk m place (some stack.source) regs buffer ()).ending = .ok (.replay e) →
        (∃ a k last fde, regs.architecture = .ok a ∧
          m.callers a (some stack) { regs with version := registerFormat } k = some last ∧
          m.index.records.covering? last.pc = some fde ∧
          Unreplayable m stack fde last.pc
            { last with slots := last.slots.set a.stackColumn.val last.sp a.stackColumn.isLt } e) ∧
        (e.status = .notImplemented ∨ (e.status = .badFormat ∧ BadNumber e) ∨
          (e.status = .io ∧ ∃ address, ¬ stack.Holds address 8 ∧
            e = .io (.snapshot stack.base) (.notCaptured 8 address))) := by
  constructor
  · intro pc fde hfound
    obtain ⟨cie, hcie⟩ := Module.replayable_of_load hload hfound
    exact ⟨⟨cie, hcie⟩, fun regs e hfails => unreplayable_of_fails hcie hfails⟩
  · intro place regs buffer e h
    obtain ⟨a, k, last, fde, harch, hlast, hfound, hfails⟩ := replay_of_walk h
    obtain ⟨cie, hcie⟩ := Module.replayable_of_load hload hfound
    have hcause := unreplayable_of_fails hcie hfails
    exact ⟨⟨a, k, last, fde, harch, hlast, hfound, hcause⟩, hcause.cause⟩

/-- The module of the bare file. -/
def bareModule : Module :=
  let cie : Cfi.Cie := { flavour := .ehFrame, offset := 0, version := 1, augmentation := [], codeAlign := 1,
                         dataAlign := -8, returnColumn := 16, encoding := .absolute, addressSize := 8,
                         instructions := ⟨269, 274⟩ }
  let fde : Cfi.Fde := { cie := 0, flavour := .ehFrame, offset := 18, first := 0x1000, length := 0x100,
                         instructions := ⟨298, 298⟩ }
  { image := ⟨⟨"bare"⟩, bareFile, .bits64, 64, 64, 3, ⟨298, 22, 0⟩⟩
    index := ⟨⟨⟨0, 0, 0⟩, .empty, ⟨256, 42, 0⟩⟩, ⟨[cie], [fde]⟩⟩ }

/-- The first return address has been captured, and of the second all but one byte. The records count frames from the
    column that is the stack pointer of one architecture only; on another one, what is read first is a word at zero. -/
theorem replay_fails_legitimately_short :
    let short : Snapshot := ⟨0x7000, bareStack.bytes.take 15⟩
    let armSample : RegisterSet := { bareSample with tag := 2 }
    let walked := walk bareModule ⟨"bare"⟩ (some short.source) bareSample (List.replicate 4 .blank) ()
    let onArm := walk bareModule ⟨"bare"⟩ (some short.source) armSample (List.replicate 4 .blank) ()
    let cause : Error := .io (.snapshot 0x7000) (.notCaptured 8 0x7008)
    let armCause : Error := .io (.snapshot 0x7000) (.notCaptured 8 0)
    Module.load bareFiles ⟨"bare"⟩ = .ok bareModule ∧ walked.written = 2 ∧ walked.ending = .ok (.replay cause) ∧
      (∃ a k last fde, bareSample.architecture = .ok a ∧
        bareModule.callers a (some short) { bareSample with version := registerFormat } k = some last ∧
        bareModule.index.records.covering? last.pc = some fde ∧
        Unreplayable bareModule short fde last.pc
          { last with slots := last.slots.set a.stackColumn.val last.sp a.stackColumn.isLt } cause) ∧
      onArm.written = 1 ∧ onArm.ending = .ok (.replay armCause) ∧
      ∃ a k last fde, armSample.architecture = .ok a ∧
        bareModule.callers a (some short) { armSample with version := registerFormat } k = some last ∧
        bareModule.index.records.covering? last.pc = some fde ∧
        Unreplayable bareModule short fde last.pc
          { last with slots := last.slots.set a.stackColumn.val last.sp a.stackColumn.isLt } armCause := by
  intro short armSample walked onArm cause armCause
  have hload : Module.load bareFiles ⟨"bare"⟩ = .ok bareModule := by decide +kernel
  have hending : walked.ending = .ok (.replay cause) := by decide +kernel
  have harm : onArm.ending = .ok (.replay armCause) := by decide +kernel
  obtain ⟨-, hwalks⟩ := replay_fails_legitimately hload short
  exact ⟨hload, by decide +kernel, hending, (hwalks _ _ _ _ hending).1, by decide +kernel, harm,
    (hwalks _ _ _ _ harm).1⟩

end Unwinder
