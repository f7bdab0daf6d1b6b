import Unwinder.Architecture
import Unwinder.Module

/-!
# `Unwinder.Capture.Walk` — from one register set to a call stack

The first frame is the sampled one, described by its architecture alone. Every further frame is its
predecessor's caller, and needs frame records and a memory. The walk ends with success at the first frame that
it cannot produce, and says why. Registers that have no normal form break it off, whatever has been written.

## Contents
- **The sampled frame.** `RegisterSet.sampledFrame`.
- **Callers.** `walkOn` fills the rest of a buffer.
- **The walk.** `walk`.
-/

namespace Unwinder

/-! ## The sampled frame -/

/-- The sampled frame, of no module yet. Where the architecture does not say, the stack pointer and the program
    counter stand for the frame address and the return address. -/
def RegisterSet.sampledFrame (regs : RegisterSet) : Except Error Frame := do
  let a ← regs.architecture
  let window ←
    match a.window regs with
    | .ok window => .ok window
    | .error (.unsupported _) =>
        .ok ⟨(a.frameAddress regs).toOption.getD regs.sp, (a.returnAddress regs).toOption.getD regs.pc⟩
    | .error e => .error e
  return { pc := regs.pc, sp := regs.sp, cfa := window.cfa, ra := window.ra, isPartial := true, module := none }

/-! ## Callers -/

/-- Why a walk ended. -/
inductive Ending where
  | bufferFull
  | noMemory
  /-- The module has no usable frame records. -/
  | noRecords
  /-- No function record covers the address. -/
  | noFunction (pc : UInt64)
  /-- The caller could not be worked out. -/
  | replay (cause : Error)
  deriving DecidableEq

/-- The buffer after a walk, how many frames of it were written, why the walk ended, or what broke it off, and the
    memory. -/
structure Walked (σ : Type) where
  frames : List Frame
  written : Nat
  ending : Except Error Ending
  memory : σ

/-- A walk with a further frame in front. -/
def Walked.cons {σ : Type} (frame : Frame) (more : Walked σ) : Walked σ :=
  { more with frames := frame :: more.frames, written := more.written + 1 }

/-- Frame records name the stack pointer by its column, so that its slot is made to hold it. -/
def Architecture.withStackColumn (a : Architecture) (regs : RegisterSet) : RegisterSet :=
  { regs with slots := regs.slots.set a.stackColumn.val regs.sp a.stackColumn.isLt }

variable {σ : Type}

/-- Fills a buffer with the callers of the frame that has the registers given, as far as they can be worked
    out. -/
def walkOn (m : Module) (path : Path) (a : Architecture) (source : Option (WordSource σ)) :
    List Frame → RegisterSet → σ → Walked σ
  | [], _, memory => ⟨[], 0, .ok .bufferFull, memory⟩
  | slot :: buffer, regs, memory =>
      match source with
      | none => ⟨slot :: buffer, 0, .ok .noMemory, memory⟩
      | some words =>
          if m.index.hasRecords then
            match m.index.records.covering? regs.pc with
            | none => ⟨slot :: buffer, 0, .ok (.noFunction regs.pc), memory⟩
            | some fde =>
                let step := m.unwind words fde regs.pc (a.withStackColumn regs) memory
                match step.frame with
                | .error e => ⟨slot :: buffer, 0, .ok (.replay e), step.memory⟩
                | .ok frame =>
                    -- the caller's frame is written before its registers are looked at
                    let more : Walked σ :=
                      match a.normalize step.registers with
                      | .error e => ⟨buffer, 0, .error e, step.memory⟩
                      | .ok next => walkOn m path a source buffer next step.memory
                    more.cons { frame with module := some path }
          else ⟨slot :: buffer, 0, .ok .noRecords, memory⟩

/-! ## The walk -/

/-- What a walk starts from: the architecture that a register set names, the register set in its normal form, and the
    sampled frame. -/
def RegisterSet.start (regs : RegisterSet) : Except Error (Architecture × RegisterSet × Frame) := do
  let a ← regs.architecture
  let normal ← a.normalize regs
  return (a, normal, ← normal.sampledFrame)

/-- Fills a buffer with the sampled frame and its callers. The register set has to name a known architecture
    and a known format. -/
def walk (m : Module) (path : Path) (source : Option (WordSource σ)) (regs : RegisterSet) (buffer : List Frame)
    (memory : σ) : Walked σ :=
  match regs.start, buffer with
  | .error e, buffer => ⟨buffer, 0, .error e, memory⟩
  | .ok _, [] => ⟨[], 0, .ok .bufferFull, memory⟩
  | .ok (a, normal, frame), _ :: buffer =>
      (walkOn m path a source buffer normal memory).cons { frame with module := some path }

end Unwinder
