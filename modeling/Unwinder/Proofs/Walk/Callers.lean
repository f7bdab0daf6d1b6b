import Mathlib.Order.Bounds.Defs
import Unwinder.Proofs.Walk.Trail
import Unwinder.Stack.Snapshot

/-!
# `Proofs.Walk.Callers` — what a walk over a snapshot writes, and why it ends

With a snapshot of the stack, or without any memory, unwinding is a function of registers: `Module.caller?` takes
those of a frame to those of its caller, where it can. A walk writes the iterates of this function as long as there
are any and the buffer has room, and reports the first thing that was missing.

## Contents
- **Callers.** `Module.replay`, `Module.caller?`, and the iterates `Module.callers`.
- **Reasons to stop.** `Halts` lists them in the order in which they count; `advance_outcome` shows that a step of a
  walk finds the caller, or such a reason where there is none.
- **Trails.** `callers_of_trail` and `stops_of_trail`, the two halves of the induction over the buffer.
- **The sampled frame.** `IsSampled`, from the registers and the architecture table alone.
- **Main statement.** `walk_iterates_callers`.
-/

namespace Unwinder

/-! ## Callers -/

namespace Module

/-- The replay of a function's programs for a frame, whose stack column is made to hold its stack pointer. -/
def replay (m : Module) (a : Architecture) (stack : Snapshot) (fde : Cfi.Fde) (regs : RegisterSet) :
    Cfi.Unwound Unit :=
  let column := a.stackColumn
  m.unwind stack.source fde regs.pc { regs with slots := regs.slots.set column.val regs.sp column.isLt } ()

/-- The registers of a frame's caller: those after the replay of the first function record that covers the frame's
    address. There are none without a memory or such a record, or when the replay fails. -/
def caller? (m : Module) (a : Architecture) (memory : Option Snapshot) (regs : RegisterSet) :
    Option RegisterSet := do
  let stack ← memory
  let fde ← m.index.records.covering? regs.pc
  match (m.replay a stack fde regs).frame with
  | .ok _ => some (m.replay a stack fde regs).registers
  | .error _ => none

/-- The registers of the frames of a stack, the first being given. -/
def callers (m : Module) (a : Architecture) (memory : Option Snapshot) (regs : RegisterSet) :
    Nat → Option RegisterSet
  | 0 => some regs
  | k + 1 => (m.callers a memory regs k).bind (m.caller? a memory)

variable (m : Module) (a : Architecture) (memory : Option Snapshot) (regs : RegisterSet)

/-- A stack goes on from the first caller as that caller's stack. -/
theorem callers_succ (k : Nat) :
    m.callers a memory regs (k + 1) = (m.caller? a memory regs).bind (m.callers a memory · k) := by
  induction k with
  | zero =>
      rw [callers, callers, Option.bind_some]
      cases m.caller? a memory regs <;> rfl
  | succ k ih =>
      rw [callers, ih, Option.bind_assoc]
      rfl

end Module

/-! ## Reasons to stop -/

/-- **Why there is no caller**: every reason counts only where those before it do not apply. -/
inductive Halts (m : Module) (a : Architecture) (memory : Option Snapshot) (regs : RegisterSet) : Ending → Prop where
  /-- There is no memory to read. -/
  | noMemory (hmemory : memory = none) : Halts m a memory regs .noMemory
  /-- The module has no function records. -/
  | noRecords {stack : Snapshot} (hmemory : memory = some stack) (hempty : m.index.records.fdes = []) :
      Halts m a memory regs .noRecords
  /-- None of them covers the address. -/
  | noFunction {stack : Snapshot} (hmemory : memory = some stack) (hsome : m.index.records.fdes ≠ [])
      (huncovered : ∀ fde ∈ m.index.records.fdes, fde.covers regs.pc = false) :
      Halts m a memory regs (.noFunction regs.pc)
  /-- The replay of the first that does fails. -/
  | replay {stack : Snapshot} {fde : Cfi.Fde} {e : Error} (hmemory : memory = some stack)
      (hfirst : m.index.records.covering? regs.pc = some fde) (hfails : (m.replay a stack fde regs).frame = .error e) :
      Halts m a memory regs (.replay e)

/-- Why a walk stops that has `room` places of its buffer left: a full buffer counts before everything else. -/
inductive Stops (m : Module) (a : Architecture) (memory : Option Snapshot) (room : Nat) (regs : RegisterSet) :
    Ending → Prop where
  | bufferFull (hroom : room = 0) : Stops m a memory room regs .bufferFull
  | halted {ending : Ending} (hroom : room ≠ 0) (hhalts : Halts m a memory regs ending) :
      Stops m a memory room regs ending

section Steps

variable {m : Module} {a : Architecture} {memory : Option Snapshot} {regs : RegisterSet}

/-- Where there is a reason to stop there is no caller. -/
theorem Halts.caller? {ending : Ending} (h : Halts m a memory regs ending) : m.caller? a memory regs = none := by
  cases h with
  | noMemory hmemory => rw [Module.caller?, hmemory]; rfl
  | noRecords hmemory hempty =>
      rw [Module.caller?, hmemory, Cfi.FrameRecords.covering?, hempty]
      rfl
  | noFunction hmemory _ huncovered =>
      have hnone : m.index.records.covering? regs.pc = none := by
        rw [Cfi.FrameRecords.covering?, List.find?_eq_none]
        intro fde hfde
        simp [huncovered fde hfde]
      rw [Module.caller?, hmemory, hnone]
      rfl
  | replay hmemory hfirst hfails =>
      rw [Module.caller?, hmemory, hfirst]
      simp only [bind, Option.bind, hfails]

/-- With room left a walk stops for want of a caller. -/
theorem Stops.halts {room : Nat} {ending : Ending} (h : Stops m a memory room regs ending) (hroom : room ≠ 0) :
    Halts m a memory regs ending := by
  cases h with
  | bufferFull hnone => exact absurd hnone hroom
  | halted _ hhalts => exact hhalts

/-- **A step of a walk finds the caller**, or a reason to stop where there is none. -/
theorem advance_outcome (m : Module) (a : Architecture) (memory : Option Snapshot) (regs : RegisterSet) :
    (∃ next, m.caller? a memory regs = some next ∧
      m.advance a (memory.map Snapshot.source) regs () = (.ok next, ())) ∨
    ∃ ending, Halts m a memory regs ending ∧
      m.advance a (memory.map Snapshot.source) regs () = (.error ending, ()) := by
  cases memory with
  | none => exact .inr ⟨_, .noMemory rfl, rfl⟩
  | some stack =>
      rw [Option.map_some, Module.advance]
      by_cases hrecords : m.index.hasRecords = true
      · have hsome : m.index.records.fdes ≠ [] := by
          simpa [Cfi.FrameIndex.hasRecords] using hrecords
        rw [if_pos hrecords]
        cases hfirst : m.index.records.covering? regs.pc with
        | none =>
            refine .inr ⟨_, .noFunction rfl hsome ?_, rfl⟩
            intro fde hfde
            exact Bool.eq_false_iff.mpr (List.find?_eq_none.mp hfirst fde hfde)
        | some fde =>
            have hreplay : m.unwind stack.source fde regs.pc (a.withStackColumn regs) () =
                m.replay a stack fde regs := rfl
            simp only [hreplay]
            cases hframe : (m.replay a stack fde regs).frame with
            | error e => exact .inr ⟨_, .replay rfl hfirst hframe, rfl⟩
            | ok frame =>
                refine .inl ⟨_, ?_, rfl⟩
                rw [Module.caller?]
                simp only [bind, Option.bind, hfirst, hframe]
      · have hempty : m.index.records.fdes = [] := by
          simpa [Cfi.FrameIndex.hasRecords] using hrecords
        rw [if_neg hrecords]
        exact .inr ⟨_, .noRecords rfl hempty, rfl⟩

end Steps

/-! ## Trails -/

section Trails

variable (m : Module) (a : Architecture) (memory : Option Snapshot)

/-- The trail of a walk over a snapshot. -/
def Module.snapshotTrail (room : Nat) (regs : RegisterSet) : Trail Unit :=
  m.trail a (memory.map Snapshot.source) room regs ()

/-- **The register sets of a trail are the first iterates.** -/
theorem callers_of_trail (room : Nat) (regs : RegisterSet) (k : Nat)
    (hk : k ≤ (m.snapshotTrail a memory room regs).callers.length) :
    m.callers a memory regs k = (regs :: (m.snapshotTrail a memory room regs).callers)[k]? := by
  induction room generalizing regs k with
  | zero =>
      obtain rfl : k = 0 := Nat.le_zero.mp hk
      rfl
  | succ room ih =>
      cases k with
      | zero => rfl
      | succ k =>
          rw [Module.snapshotTrail, Module.trail] at hk ⊢
          rcases advance_outcome m a memory regs with ⟨next, hnext, hstep⟩ | ⟨ending, -, hstep⟩
          · rw [hstep] at hk ⊢
            rw [Module.callers_succ, hnext, Option.bind_some, List.getElem?_cons_succ]
            exact ih next k (Nat.le_of_succ_le_succ hk)
          · rw [hstep] at hk
            cases hk

/-- **A trail ends for a reason** at the last of its register sets. -/
theorem stops_of_trail (room : Nat) (regs : RegisterSet) :
    ∃ last, m.callers a memory regs (m.snapshotTrail a memory room regs).callers.length = some last ∧
      Stops m a memory (room - (m.snapshotTrail a memory room regs).callers.length) last
        (m.snapshotTrail a memory room regs).ending := by
  induction room generalizing regs with
  | zero => exact ⟨regs, rfl, .bufferFull rfl⟩
  | succ room ih =>
      rw [Module.snapshotTrail, Module.trail]
      rcases advance_outcome m a memory regs with ⟨next, hnext, hstep⟩ | ⟨ending, hhalts, hstep⟩
      · obtain ⟨last, hlast, hstops⟩ := ih next
        rw [hstep]
        refine ⟨last, ?_, ?_⟩
        · show m.callers a memory regs ((m.snapshotTrail a memory room next).callers.length + 1) = some last
          rw [Module.callers_succ, hnext, Option.bind_some]
          exact hlast
        · show Stops m a memory (room + 1 - ((m.snapshotTrail a memory room next).callers.length + 1)) last
            (m.snapshotTrail a memory room next).ending
          rw [Nat.add_sub_add_right]
          exact hstops
      · rw [hstep]
        exact ⟨regs, rfl, .halted (Nat.succ_ne_zero room) hhalts⟩

end Trails

/-! ## The sampled frame -/

/-- **The sampled frame**, as its architecture describes it. The frame address is the end of the frame record, where
    the architecture has one and the frame pointer is not zero, and else the stack pointer; the return address is the
    link register, where the architecture has one and it is not zero, and else the program counter. -/
structure IsSampled (a : Architecture) (regs : RegisterSet) (path : Path) (frame : Frame) : Prop where
  pc : frame.pc = regs.pc
  sp : frame.sp = regs.sp
  recordAddress : ∀ slot size, a.frame = some (.frameRecord slot size) → regs.column slot ≠ 0 →
    frame.cfa.toNat = ((regs.column slot).toNat + size.toNat) % UInt64.size
  stackAddress : (∀ slot size, a.frame = some (.frameRecord slot size) → regs.column slot = 0) → frame.cfa = regs.sp
  linkAddress : ∀ slot, a.link = some (.linkRegister slot) → regs.column slot ≠ 0 → frame.ra = regs.column slot
  codeAddress : (∀ slot, a.link = some (.linkRegister slot) → regs.column slot = 0) → frame.ra = regs.pc
  isPartial : frame.isPartial = true
  module : frame.module = some path

theorem isSampled_sampledFrame (a : Architecture) (regs : RegisterSet) (path : Path) :
    IsSampled a regs path { a.sampledFrame regs with module := some path } := by
  constructor
  · rfl
  · rfl
  · intro slot size hframe hpointer
    show ((a.frameAddress regs).toOption.getD regs.sp).toNat = _
    rw [Architecture.frameAddress, hframe]
    show (if regs.column slot = 0 then regs.sp else regs.column slot + size).toNat = _
    rw [if_neg hpointer, UInt64.toNat_add]
  · intro hzero
    show (a.frameAddress regs).toOption.getD regs.sp = regs.sp
    rw [Architecture.frameAddress]
    rcases hframe : a.frame with _ | _ | ⟨slot, size⟩
    · rfl
    · rfl
    · show (if regs.column slot = 0 then regs.sp else regs.column slot + size) = regs.sp
      rw [if_pos (hzero slot size hframe)]
  · intro slot hlink hregister
    show (a.returnAddress regs).toOption.getD regs.pc = regs.column slot
    rw [Architecture.returnAddress, hlink]
    show (if regs.column slot = 0 then regs.pc else regs.column slot) = regs.column slot
    rw [if_neg hregister]
  · intro hzero
    show (a.returnAddress regs).toOption.getD regs.pc = regs.pc
    rw [Architecture.returnAddress]
    rcases hlink : a.link with _ | _ | slot
    · rfl
    · rfl
    · show (if regs.column slot = 0 then regs.pc else regs.column slot) = regs.pc
      rw [if_pos (hzero slot hlink)]
  · rfl
  · rfl

/-! ## Main statement -/

/-- **A walk over a snapshot, said without its loop**: which frames are written, how many, and why no more. -/
structure IsWalk (m : Module) (a : Architecture) (path : Path) (memory : Option Snapshot) (regs : RegisterSet)
    (buffer : List Frame) (walked : Walked Unit) : Prop where
  /-- As many frames are written as there is room and there are callers for. -/
  greatest : IsGreatest {w | 1 ≤ w ∧ w ≤ buffer.length ∧ ∀ k < w, (m.callers a memory regs k).isSome} walked.written
  alone : memory = none → walked.written = 1
  sampled : ∃ frame, walked.frames[0]? = some frame ∧ IsSampled a regs path frame
  later : ∀ k, 0 < k → k < walked.written →
    ∃ caller, m.callers a memory regs k = some caller ∧ walked.frames[k]? = some
      { pc := caller.pc, sp := caller.sp, cfa := caller.sp, ra := caller.pc, isPartial := false, module := some path }
  /-- The rest of the buffer is left alone. -/
  rest : walked.frames.length = buffer.length ∧ walked.frames.drop walked.written = buffer.drop walked.written
  ending : ∃ ending last, walked.ending = .ok ending ∧ m.callers a memory regs (walked.written - 1) = some last ∧
    Stops m a memory (buffer.length - walked.written) last ending

section Main

variable (m : Module) (a : Architecture) (path : Path) (memory : Option Snapshot)

/-- The iterate after the last of a trail is not there, if there was room for it. -/
theorem callers_past_trail (room : Nat) (regs : RegisterSet)
    (hroom : (m.snapshotTrail a memory room regs).callers.length < room) :
    m.callers a memory regs ((m.snapshotTrail a memory room regs).callers.length + 1) = none := by
  obtain ⟨last, hlast, hstops⟩ := stops_of_trail m a memory room regs
  rw [Module.callers, hlast, Option.bind_some]
  exact (hstops.halts (Nat.sub_ne_zero_of_lt hroom)).caller?

/-- What is written for a trail is a walk. -/
theorem isWalk_trail (regs : RegisterSet) (slot : Frame) (buffer : List Frame) :
    IsWalk m a path memory regs (slot :: buffer)
      ((m.snapshotTrail a memory buffer.length regs).walked path (a.sampledFrame regs) buffer) := by
  have hle : (m.snapshotTrail a memory buffer.length regs).callers.length ≤ buffer.length :=
    length_trail_le m a _ buffer.length regs ()
  have hcallers := callers_of_trail m a memory buffer.length regs
  have hpast := callers_past_trail m a memory buffer.length regs
  have hstops := stops_of_trail m a memory buffer.length regs
  generalize m.snapshotTrail a memory buffer.length regs = trail at hle hcallers hpast hstops ⊢
  have hwritten := trail.walked_written path (a.sampledFrame regs) buffer
  constructor
  · rw [hwritten]
    constructor
    · refine ⟨Nat.succ_pos _, Nat.succ_le_succ hle, ?_⟩
      intro k hk
      rw [hcallers k (Nat.le_of_lt_succ hk), List.getElem?_eq_getElem (by simpa using hk)]
      rfl
    · rintro w ⟨-, hw, hall⟩
      -- one more frame would need the iterate that is not there
      refine Nat.le_of_not_lt fun hmore => ?_
      have hlength : (slot :: buffer).length = buffer.length + 1 := rfl
      have hsome := hall (trail.callers.length + 1) (by omega)
      rw [hpast (by omega)] at hsome
      cases hsome
  · rintro rfl
    rcases Nat.eq_zero_or_pos trail.callers.length with hnone | hsome
    · rw [hwritten, hnone]
    · -- without a memory there is no first caller
      have hfirst := hcallers 1 hsome
      rw [List.getElem?_cons_succ, List.getElem?_eq_getElem hsome] at hfirst
      cases hfirst
  · exact ⟨_, rfl, isSampled_sampledFrame a regs path⟩
  · intro k hpos hk
    rw [hwritten] at hk
    obtain ⟨j, rfl⟩ : ∃ j, k = j + 1 := ⟨k - 1, by omega⟩
    have hj : j < trail.callers.length := Nat.lt_of_succ_lt_succ hk
    refine ⟨trail.callers[j], ?_, trail.getElem?_walked path (a.sampledFrame regs) buffer hj⟩
    rw [hcallers (j + 1) (Nat.le_of_lt_succ hk), List.getElem?_cons_succ, List.getElem?_eq_getElem hj]
  · exact trail.drop_walked path (a.sampledFrame regs) slot buffer hle
  · obtain ⟨last, hlast, hstops⟩ := hstops
    refine ⟨trail.ending, last, rfl, hlast, ?_⟩
    rw [hwritten, List.length_cons, Nat.add_sub_add_right]
    exact hstops

end Main

/-- **A walk is the iteration of unwinding.** For every module, every register set of a known architecture in a known
    format, every buffer with room, and every snapshot or none, a walk succeeds: it writes the frame sampled and then
    one frame for each caller that there is room for, up to the first that there is none, leaves the rest of the
    buffer alone, and reports the first reason that applies at the last frame written. -/
theorem walk_iterates_callers (m : Module) (path : Path) (memory : Option Snapshot) {regs : RegisterSet}
    {a : Architecture} (hknown : regs.architecture = .ok a) (hversion : regs.version = 0 ∨ regs.version = 1)
    {buffer : List Frame} (hroom : 1 ≤ buffer.length) :
    IsWalk m a path memory { regs with version := 1 } buffer
      (walk m path (memory.map Snapshot.source) regs buffer ()) := by
  cases buffer with
  | nil => cases hroom
  | cons slot buffer =>
      rw [walk_cons, RegisterSet.start_of_architecture hknown hversion]
      exact isWalk_trail m a path memory _ slot buffer

/-- A module with one function, whose frames hold nothing but the return address. -/
def bareFunction : Module :=
  let cie : Cfi.Cie := { flavour := .ehFrame, offset := 0, version := 1, augmentation := [], codeAlign := 1,
                         dataAlign := -8, returnColumn := 16, encoding := .absolute, addressSize := 8,
                         instructions := ⟨0, 5⟩ }
  let fde : Cfi.Fde := { cie := 0, flavour := .ehFrame, offset := 0x18, first := 0x1000, length := 0x100,
                         instructions := ⟨5, 5⟩ }
  { image := ⟨⟨"bare"⟩, [0x0c, 7, 8, 0x90, 1], .bits64, 0, 0, 0, .empty⟩
    index := ⟨⟨.empty, .empty, .empty⟩, ⟨[cie], [fde]⟩⟩ }

/-- A sample in that function, with the stack pointer at 0x7000. -/
def bareSample : RegisterSet := ⟨1, 0, 0, 0x7000, 0x1010, Vector.replicate slotCount 0⟩

/-- Two calls of the function from itself, and one from elsewhere. -/
def bareStack : Snapshot := ⟨0x7000, LittleEndian.ofNat 8 0x1020 ++ LittleEndian.ofNat 8 0x2000⟩

/-- The function as it is written where other columns stand for the stack pointer and the return address. -/
def bareFunctionOn (stack link : UInt8) : Module :=
  let records := bareFunction.index.records
  let cies := records.cies.map fun cie => { cie with returnColumn := link.toUInt64 }
  { image := { bareFunction.image with bytes := [0x0c, stack, 8, 0x80 ||| link, 1] }
    index := { bareFunction.index with records := { records with cies } } }

/-- The calls are found on every architecture, though the samples hold zero in the columns of their stack pointers. -/
theorem walk_iterates_callers_twice :
    let buffer := List.replicate 4 Frame.blank
    let armSample : RegisterSet := { bareSample with tag := 2 }
    let mipsSample : RegisterSet := { bareSample with tag := 3 }
    let walked := walk bareFunction ⟨"bare"⟩ ((some bareStack).map Snapshot.source) bareSample buffer ()
    let onArm := walk (bareFunctionOn 31 30) ⟨"bare"⟩ ((some bareStack).map Snapshot.source) armSample buffer ()
    let onMips := walk (bareFunctionOn 29 31) ⟨"bare"⟩ ((some bareStack).map Snapshot.source) mipsSample buffer ()
    (bareSample.version = 0 ∨ bareSample.version = 1) ∧ 1 ≤ buffer.length ∧
      (bareSample.architecture = .ok .x86_64 ∧
        IsWalk bareFunction .x86_64 ⟨"bare"⟩ (some bareStack) { bareSample with version := 1 } buffer walked ∧
        walked.written = 3 ∧ walked.ending.toOption = some (.noFunction 0x2000)) ∧
      (armSample.architecture = .ok .arm64 ∧
        IsWalk (bareFunctionOn 31 30) .arm64 ⟨"bare"⟩ (some bareStack) { armSample with version := 1 } buffer onArm ∧
        onArm.written = 3 ∧ onArm.ending.toOption = some (.noFunction 0x2000)) ∧
      mipsSample.architecture = .ok .mips32 ∧
        IsWalk (bareFunctionOn 29 31) .mips32 ⟨"bare"⟩ (some bareStack) { mipsSample with version := 1 } buffer onMips ∧
        onMips.written = 3 ∧ onMips.ending.toOption = some (.noFunction 0x2000) := by
  intro buffer armSample mipsSample walked onArm onMips
  have hknown : bareSample.architecture = .ok .x86_64 := rfl
  have harm : armSample.architecture = .ok .arm64 := rfl
  have hmips : mipsSample.architecture = .ok .mips32 := rfl
  have hversion : bareSample.version = 0 ∨ bareSample.version = 1 := by decide
  have hroom : 1 ≤ buffer.length := by decide
  refine ⟨hversion, hroom, ⟨hknown, ?_, by decide +kernel, by decide +kernel⟩,
    ⟨harm, ?_, by decide +kernel, by decide +kernel⟩, hmips, ?_, by decide +kernel, by decide +kernel⟩
  · exact walk_iterates_callers bareFunction ⟨"bare"⟩ (some bareStack) hknown hversion hroom
  · exact walk_iterates_callers (bareFunctionOn 31 30) ⟨"bare"⟩ (some bareStack) harm hversion hroom
  · exact walk_iterates_callers (bareFunctionOn 29 31) ⟨"bare"⟩ (some bareStack) hmips hversion hroom

end Unwinder
