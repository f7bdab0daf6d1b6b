import Unwinder.Module
import Unwinder.Proofs.Recovery.Plans

/-!
# `Proofs.Recovery.Failures` — a step that fails changes nothing

The memory that a step reads is a parameter: it may answer what it likes, and fail when it likes. Whatever it does, the
registers are written only after every read has been answered. So a step that fails leaves all of them as they were, and
it has failed for one of two reasons: a cause that is found before anything is read, or the last of its reads.

## Contents
- **Records.** `WordRead` and `WordSource.recorded`, which keeps the reads of a memory with their answers.
- **Reads.** `Fetches`, what fetching does, with `fetchAll_fetches`.
- **Failures.** `FailsCleanly`, shown of every step by `failsCleanly_unwind`.
- **Main statement.** `failed_unwind_changes_nothing`.
-/

namespace Unwinder

variable {σ : Type}

/-! ## Records -/

/-- A read of a memory, with its answer. -/
structure WordRead where
  address : UInt64
  answer : Except Error UInt64

/-- The same memory, keeping a record of the reads. -/
def WordSource.recorded (source : WordSource σ) : WordSource (σ × List WordRead) where
  read address state :=
    let (answer, after) := source.read address state.1
    (answer, after, state.2 ++ [⟨address, answer⟩])

namespace Cfi

theorem watches_recorded {source : WordSource σ} : Watches source.recorded source Prod.fst :=
  ⟨fun _ _ => rfl⟩

/-! ## Reads -/

/-- **What fetching does**: the values that are stored are read one after the other, up to the first that is not
    answered. -/
inductive Fetches : List Origin → Except Error (List UInt64) → List WordRead → Prop where
  | nothing : Fetches [] (.ok []) []
  | known {os : List Origin} {answer : Except Error (List UInt64)} {reads : List WordRead} (value : UInt64)
      (hrest : Fetches os answer reads) : Fetches (.known value :: os) (answer.map (value :: ·)) reads
  | answered {os : List Origin} {answer : Except Error (List UInt64)} {reads : List WordRead} (address value : UInt64)
      (hrest : Fetches os answer reads) :
      Fetches (.stored address :: os) (answer.map (value :: ·)) (⟨address, .ok value⟩ :: reads)
  | failed {os : List Origin} (address : UInt64) (e : Error) :
      Fetches (.stored address :: os) (.error e) [⟨address, .error e⟩]

theorem fetchAll_fetches (source : WordSource σ) (os : List Origin) (state : σ × List WordRead) :
    ∃ reads, (fetchAll source.recorded os state).2.2 = state.2 ++ reads ∧
      Fetches os (fetchAll source.recorded os state).1 reads := by
  -- over the origins, in every state: a read may change the memory whether or not it is answered
  induction os generalizing state with
  | nil => exact ⟨[], (List.append_nil _).symm, .nothing⟩
  | cons o os ih =>
      cases o with
      | known value =>
          obtain ⟨reads, hrecord, hrest⟩ := ih state
          rw [fetchAll_of_fetch rfl]
          exact ⟨reads, hrecord, hrest.known value⟩
      | stored address =>
          rcases hread : source.read address state.1 with ⟨e | value, after⟩
          · have hfetch : (Origin.stored address).fetch source.recorded state =
                (.error e, after, state.2 ++ [⟨address, .error e⟩]) := by
              simp only [Origin.fetch, WordSource.recorded, hread]
            rw [fetchAll, hfetch]
            exact ⟨_, rfl, .failed address e⟩
          · have hfetch : (Origin.stored address).fetch source.recorded state =
                (.ok value, after, state.2 ++ [⟨address, .ok value⟩]) := by
              simp only [Origin.fetch, WordSource.recorded, hread]
            obtain ⟨reads, hrecord, hrest⟩ := ih (after, state.2 ++ [⟨address, .ok value⟩])
            rw [fetchAll_of_fetch hfetch]
            refine ⟨⟨address, .ok value⟩ :: reads, ?_, hrest.answered address value⟩
            rw [hrecord, List.append_assoc]
            rfl

/-- **Fetching that fails** has failed at its last read, and those before have been answered. -/
theorem Fetches.broken {os : List Origin} {answer : Except Error (List UInt64)} {reads : List WordRead} {e : Error}
    (h : Fetches os answer reads) (hfails : answer = .error e) :
    ∃ front address, reads = front ++ [⟨address, .error e⟩] ∧
      ∀ read ∈ front, ∃ value, read.answer = .ok value := by
  induction h with
  | nothing => cases hfails
  -- the failure is that of the rest, up to the read that fails
  | @known os answer reads value _ ih =>
      apply ih
      cases answer with
      | error e' => exact hfails
      | ok values => cases hfails
  | @answered os answer reads address value _ ih =>
      have hrest : answer = .error e := by
        cases answer with
        | error e' => exact hfails
        | ok values => cases hfails
      obtain ⟨front, last, hreads, hfront⟩ := ih hrest
      refine ⟨⟨address, .ok value⟩ :: front, last, by rw [hreads]; rfl, ?_⟩
      intro read hread
      rcases List.mem_cons.mp hread with rfl | hread
      · exact ⟨value, rfl⟩
      · exact hfront read hread
  | failed address e' =>
      cases hfails
      exact ⟨[], address, rfl, by simp⟩

/-- **Fetching that succeeds** has had every read answered. -/
theorem Fetches.complete {os : List Origin} {answer : Except Error (List UInt64)} {reads : List WordRead}
    {values : List UInt64} (h : Fetches os answer reads) (hsucceeds : answer = .ok values) :
    ∀ read ∈ reads, ∃ value, read.answer = .ok value := by
  induction h generalizing values with
  | nothing => simp
  | @known os answer reads value _ ih =>
      cases answer with
      | error e => cases hsucceeds
      | ok more => exact ih rfl
  | @answered os answer reads address value _ ih =>
      cases answer with
      | error e => cases hsucceeds
      | ok more =>
          intro read hread
          rcases List.mem_cons.mp hread with rfl | hread
          · exact ⟨value, rfl⟩
          · exact ih rfl read hread
  | failed address e => cases hsucceeds

end Cfi

/-! ## Failures -/

/-- **A step that fails cleanly**, by the record of its reads and by the causes that are found before any of them. -/
structure FailsCleanly (regs : RegisterSet) (memory : σ) (Cause : Error → Prop)
    (step : Cfi.Unwound (σ × List WordRead)) : Prop where
  /-- A failure leaves all registers as they were. -/
  unchanged : ∀ e, step.frame = .error e → step.registers = regs
  /-- It has a cause, and then nothing has been read; or it is that of the last read, and then those before have been
      answered. -/
  failed : ∀ e, step.frame = .error e →
    (Cause e ∧ step.memory = (memory, [])) ∨
      ∃ front address, step.memory.2 = front ++ [⟨address, .error e⟩] ∧
        ∀ read ∈ front, ∃ value, read.answer = .ok value
  /-- A cause is always found, before anything is read. -/
  caused : ∀ e, Cause e → step.frame = .error e ∧ step.memory = (memory, [])
  /-- No failure of a read is passed over. -/
  succeeded : ∀ frame, step.frame = .ok frame → ∀ read ∈ step.memory.2, ∃ value, read.answer = .ok value

theorem Cfi.failsCleanly_unwind (source : WordSource σ) (image : Bytes) (cie : Cie) (fde : Fde) (target : UInt64)
    (regs : RegisterSet) (memory : σ) :
    FailsCleanly regs memory (Unplannable image cie fde target)
      (unwind source.recorded image cie fde target regs (memory, [])) := by
  rw [unwind_eq]
  cases hplan : Recovery.plan image cie fde target regs with
  | error e =>
      refine ⟨fun _ _ => rfl, ?_, ?_, ?_⟩
      · intro e' hfails
        cases hfails
        exact .inl ⟨plan_eq_error_iff.mp hplan, rfl⟩
      · intro e' hcause
        have hsame : Except.error e = .error e' := hplan.symm.trans hcause.plan
        cases hsame
        exact ⟨rfl, rfl⟩
      · intro frame hsucceeds
        cases hsucceeds
  | ok r =>
      have hcaused : ∀ e, ¬ Unplannable image cie fde target e := by
        intro e hcause
        have hsame : Except.ok r = .error e := hplan.symm.trans hcause.plan
        cases hsame
      dsimp only
      obtain ⟨reads, hrecord, hfetches⟩ := fetchAll_fetches source (r.returnAddress :: r.slots.toList) (memory, [])
      rw [List.nil_append] at hrecord
      rcases hfetch : fetchAll source.recorded (r.returnAddress :: r.slots.toList) (memory, []) with
        ⟨e | values, after⟩
      · rw [hfetch] at hrecord hfetches
        refine ⟨fun _ _ => rfl, ?_, fun e' hcause => absurd hcause (hcaused e'), ?_⟩
        · intro e' hfails
          cases hfails
          obtain ⟨front, address, hreads, hfront⟩ := hfetches.broken rfl
          exact .inr ⟨front, address, hrecord.trans hreads, hfront⟩
        · intro frame hsucceeds
          cases hsucceeds
      · rw [hfetch] at hrecord hfetches
        refine ⟨?_, ?_, fun e' hcause => absurd hcause (hcaused e'), ?_⟩
        · intro e' hfails
          cases hfails
        · intro e' hfails
          cases hfails
        · intro frame hsucceeds
          dsimp only
          rw [hrecord]
          exact hfetches.complete rfl

/-- Why there is no plan for a function of a module: its common record is missing, or there is a cause in its
    programs and rules. -/
def Module.Unplannable (m : Module) (fde : Cfi.Fde) (target : UInt64) (e : Error) : Prop :=
  m.index.records.cieOf fde = .error e ∨
    ∃ cie, m.index.records.cieOf fde = .ok cie ∧ Cfi.Unplannable m.image.bytes cie fde target e

theorem Module.failsCleanly_unwind (m : Module) (source : WordSource σ) (fde : Cfi.Fde) (target : UInt64)
    (regs : RegisterSet) (memory : σ) :
    FailsCleanly regs memory (m.Unplannable fde target) (m.unwind source.recorded fde target regs (memory, [])) := by
  unfold unwind Unplannable
  cases hcommon : m.index.records.cieOf fde with
  | error e =>
      refine ⟨fun _ _ => rfl, ?_, ?_, ?_⟩
      · intro e' hfails
        cases hfails
        exact .inl ⟨.inl rfl, rfl⟩
      · rintro e' (hmissing | ⟨cie, hfound, -⟩)
        · cases hmissing
          exact ⟨rfl, rfl⟩
        · cases hfound
      · intro frame hsucceeds
        cases hsucceeds
  | ok cie =>
      have hstep := Cfi.failsCleanly_unwind source m.image.bytes cie fde target regs memory
      refine ⟨hstep.unchanged, ?_, ?_, hstep.succeeded⟩
      · intro e hfails
        rcases hstep.failed e hfails with ⟨hcause, hmemory⟩ | hread
        · exact .inl ⟨.inr ⟨cie, rfl, hcause⟩, hmemory⟩
        · exact .inr hread
      · rintro e (hmissing | ⟨cie', hfound, hcause⟩)
        · cases hmissing
        · cases hfound
          exact hstep.caused e hcause

/-- Keeping a record of the reads does not change a step. -/
theorem Module.seen_unwind (m : Module) (source : WordSource σ) (fde : Cfi.Fde) (target : UInt64)
    (regs : RegisterSet) (memory : σ) :
    (m.unwind source.recorded fde target regs (memory, [])).seen Prod.fst = m.unwind source fde target regs memory := by
  unfold unwind
  cases m.index.records.cieOf fde with
  | error e => rfl
  | ok cie => exact Cfi.watches_recorded.unwind m.image.bytes cie fde target regs (memory, [])

/-! ## Main statement -/

/-- **A step that fails changes nothing.** Take any registers and any memory, which may answer its reads as it likes and
    fail when it likes. Whatever function is replayed, in whatever image and at whatever address, or in whatever module:
    the step fails cleanly, for a cause that is found before anything is read or with the last of its reads. -/
theorem failed_unwind_changes_nothing (source : WordSource σ) (fde : Cfi.Fde) (target : UInt64) (regs : RegisterSet)
    (memory : σ) :
    (∀ (image : Bytes) (cie : Cfi.Cie),
      let step := Cfi.unwind source.recorded image cie fde target regs (memory, [])
      step.seen Prod.fst = Cfi.unwind source image cie fde target regs memory ∧
        FailsCleanly regs memory (Cfi.Unplannable image cie fde target) step) ∧
    ∀ m : Module,
      let step := m.unwind source.recorded fde target regs (memory, [])
      step.seen Prod.fst = m.unwind source fde target regs memory ∧
        FailsCleanly regs memory (m.Unplannable fde target) step := by
  constructor
  · intro image cie
    exact ⟨Cfi.watches_recorded.unwind image cie fde target regs (memory, []),
      Cfi.failsCleanly_unwind source image cie fde target regs memory⟩
  · intro m
    exact ⟨m.seen_unwind source fde target regs memory, m.failsCleanly_unwind source fde target regs memory⟩

/-- The record of a function that saves the registers 3 and 6 below its return address. -/
def savingRecord : Cfi.Fde :=
  { cie := 0, flavour := .ehFrame, offset := 0x18, first := 0x1000, length := 0x100, instructions := ⟨9, 9⟩ }

/-- A module with this function. -/
def savingFunction : Module :=
  let cie : Cfi.Cie := { flavour := .ehFrame, offset := 0, version := 1, augmentation := [], codeAlign := 1,
                         dataAlign := -8, returnColumn := 16, encoding := .absolute, addressSize := 8,
                         instructions := ⟨0, 9⟩ }
  { image := ⟨⟨"saving"⟩, [0x0c, 7, 8, 0x83, 3, 0x86, 2, 0x90, 1], .bits64, 0, 0, 0, .empty⟩
    index := ⟨⟨.empty, .empty, .empty⟩, ⟨[cie], [savingRecord]⟩⟩ }

/-- A memory that answers some reads, each by its address, and then fails. -/
def fadingMemory : WordSource Nat where
  read address left := (if left = 0 then .error (.io (.snapshot 0) (.notCaptured 8 address)) else .ok address, left - 1)

/-- The return address and register 3 are answered and register 6 is not, so that register 3 is not written either. -/
theorem failed_unwind_changes_nothing_third :
    let regs : RegisterSet := ⟨1, 1, 0, 0x7000, 0x1010, (Vector.replicate slotCount 0).set 7 0x7000⟩
    let step := savingFunction.unwind fadingMemory.recorded savingRecord 0x1010 regs (2, [])
    step.frame.toOption = none ∧ step.memory.2.map (·.address) = [0x7000, 0x6ff0, 0x6ff8] ∧ step.registers = regs ∧
      FailsCleanly regs 2 (savingFunction.Unplannable savingRecord 0x1010) step := by
  intro regs step
  refine ⟨by decide +kernel, by decide +kernel, by decide +kernel, ?_⟩
  exact ((failed_unwind_changes_nothing fadingMemory savingRecord 0x1010 regs 2).2 savingFunction).2

end Unwinder
