import Unwinder.Capture
import Unwinder.Target.LiveProcess
import Unwinder.Proofs.Indexing
import Unwinder.Proofs.Pool.AtRest
import Unwinder.Proofs.Walk.Callers

/-!
# `Proofs.Capture.Outcomes` — what a capture can do

A capture is refused, or cannot get its module, or walks. This module says so in equations, from which everything else
about captures is proved.

## Contents
- **Refusals.** `Context.refusal?`, the checks made before anything else, with `capture_of_refusal`.
- **Attempts to attach.** `MayAttach`, when there is one.
- **Captures.** `capture_of_pool`: the attempt to attach, one use of the pool, a walk.
- **Walks.** `walkWith_walked` for any memory, `capture_of_memory` for captures that attach to nothing.
- **A bare file.** `bareFiles` has one file of one function, which `bareRequest` asks about in a `bareCapture`.
-/

namespace Unwinder

variable {κ σ : Type}

/-! ## Refusals -/

/-- Why a capture is refused before it has done anything. -/
def Context.refusal? (context : Context) (request : Request) (buffer : List Frame) : Option Misuse :=
  if context.pool.isNone then some .shutDown
  else if request.module.isEmpty then some .noPath
  else if buffer.isEmpty then some .noFrames
  else none

section Captures

variable (context : Context) (kernel : Kernel κ) (files : FileSystem) (request : Request)
  (source : Option (WordSource σ)) (buffer : List Frame) (k : κ) (memory : σ)

/-- **A refused capture changes nothing.** -/
theorem capture_of_refusal {cause : Misuse} (h : context.refusal? request buffer = some cause) :
    context.capture kernel files request source buffer k memory =
      ⟨.failed (.misuse cause), buffer, context, k, memory⟩ := by
  unfold Context.refusal? at h
  unfold Context.capture
  cases hpool : context.pool with
  | none =>
      rw [hpool] at h
      cases h
      rfl
  | some pool =>
      rw [hpool] at h
      simp only [Option.isNone_some, Bool.false_eq_true, if_false] at h
      by_cases hpath : request.module.isEmpty = true
      · simp only [if_pos hpath] at h ⊢
        cases h
        rfl
      · simp only [if_neg hpath] at h ⊢
        by_cases hroom : buffer.isEmpty = true
        · simp only [if_pos hroom] at h ⊢
          cases h
          rfl
        · simp only [if_neg hroom] at h
          cases h

/-- What a capture that is not refused goes by. -/
theorem accepted_of_refusal {context : Context} {request : Request} {buffer : List Frame}
    (h : context.refusal? request buffer = none) :
    (∃ pool, context.pool = some pool) ∧ request.module.isEmpty = false ∧ buffer ≠ [] := by
  unfold Context.refusal? at h
  split at h
  · cases h
  · split at h
    · cases h
    · split at h
      · cases h
      · rename_i hpool hpath hroom
        refine ⟨?_, by simpa using hpath, by simpa using hroom⟩
        cases hcontext : context.pool with
        | none => simp [hcontext] at hpool
        | some pool => exact ⟨pool, rfl⟩

/-! ## Attempts to attach -/

/-- **When a capture may attach**: the caller brings no memory, attaching is switched on, and there is a process, and
    room for more than the frame sampled. -/
structure MayAttach (context : Context) (request : Request) (source : Option (WordSource σ)) (room : Nat) : Prop where
  noMemory : source = none
  allowed : context.settings.attaches = true
  process : 0 < request.pid
  several : 1 < room

theorem mayAttach_iff {context : Context} {request : Request} {source : Option (WordSource σ)} {room : Nat} :
    (!source.isSome && context.settings.attaches && 0 < request.pid && 1 < room) = true ↔
      MayAttach context request source room := by
  simp only [Bool.and_eq_true, Bool.not_eq_true', Option.isSome_eq_false_iff, Option.isNone_iff_eq_none,
    decide_eq_true_eq]
  constructor
  · rintro ⟨⟨⟨hmemory, hallowed⟩, hprocess⟩, hseveral⟩
    exact ⟨hmemory, hallowed, hprocess, hseveral⟩
  · rintro ⟨hmemory, hallowed, hprocess, hseveral⟩
    exact ⟨⟨⟨hmemory, hallowed⟩, hprocess⟩, hseveral⟩

/-! ## Captures -/

/-- A session that has let its thread go has none to let go when it is given up. -/
theorem endSession_eq_dropSession (kernel : Kernel κ) (session : Option Session) (k : κ) :
    endSession kernel session k = dropSession kernel session k := by
  cases session with
  | none => rfl
  | some s =>
      show (s.detach kernel k).1.drop kernel (s.detach kernel k).2 = (s.detach kernel k).2
      unfold Session.drop Session.detach
      by_cases hattached : s.isAttached = true
      · simp only [if_pos hattached]
        rfl
      · simp only [if_neg hattached]

/-- What is left after a walk has ended and its session has been closed. -/
def WalkEnd.captured (last : WalkEnd κ σ) (kernel : Kernel κ) (attempt : Option (Except Error Session))
    (context : Context) : Captured κ σ :=
  let k := endSession kernel last.session last.kernel
  match last.walked.ending with
  | .error e => ⟨.failed e, last.walked.frames, context, k, last.memory⟩
  | .ok ending =>
      ⟨⟨outcome attempt, last.walked.written, some ending⟩, last.walked.frames, context, k, last.memory⟩

/-- **A capture that is not refused** attaches if it has to, uses the pool once, and walks when it has found its
    module. -/
theorem capture_of_pool {pool : Pool Module} (hpool : context.pool = some pool)
    (haccepted : context.refusal? request buffer = none) :
    context.capture kernel files request source buffer k memory =
      let attempt := context.attach kernel request source.isSome buffer.length k
      let found := pool.lookup (Module.load files) request.module
      match found.1 with
      | .error e =>
          ⟨.failed e, buffer, { context with pool := some found.2 },
            endSession kernel (openedSession attempt.1) attempt.2, memory⟩
      | .ok (m, path) =>
          (walkWith kernel m path source (openedSession attempt.1) request.registers buffer attempt.2 memory).captured
            kernel attempt.1 { context with pool := some found.2 } := by
  obtain ⟨-, hpath, hroom⟩ := accepted_of_refusal haccepted
  have hroom : buffer.isEmpty = false := by simpa using hroom
  unfold Context.capture Pool.lookup
  rw [hpool]
  simp only [hpath, hroom, Bool.false_eq_true, if_false]
  rcases pool.acquire (Module.load files) request.module with ⟨e | handle, taken⟩
  · simp only [endSession_eq_dropSession]
  · simp only
    cases hget : taken.get handle with
    | error e => rfl
    | ok m =>
        cases hpathOf : taken.pathOf handle with
        | error e => rfl
        | ok path => rfl

/-! ## Walks -/

/-- Whatever memory a capture walks with, it is that of some walk; there is none exactly when neither the caller nor a
    session has one. -/
theorem walkWith_walked (m : Module) (path : Path) (session : Option Session) (regs : RegisterSet) :
    ∃ (τ : Type) (words : Option (WordSource τ)) (state : τ),
      (walkWith kernel m path source session regs buffer k memory).walked =
        (walk m path words regs buffer state).dropMemory ∧
      (words = none ↔ source = none ∧ session = none) := by
  cases source with
  | some words => exact ⟨σ, some words, memory, rfl, by simp⟩
  | none =>
      cases session with
      | some s => exact ⟨Session × κ, some (Session.source kernel), (s, k), rfl, by simp⟩
      | none => exact ⟨Unit, none, (), rfl, by simp⟩

/-- The trail without a memory. -/
theorem trail_none (m : Module) (a : Architecture) (room : Nat) (regs : RegisterSet) (memory : σ) :
    m.trail a none room regs memory = ⟨[], if room = 0 then .bufferFull else .noMemory, memory⟩ := by
  cases room <;> rfl

/-- A walk without a session is one with the caller's memory, if there is one, and touches no other. -/
theorem walkWith_alone (m : Module) (path : Path) (regs : RegisterSet) (slot : Frame) (buffer : List Frame) :
    walkWith kernel m path source none regs (slot :: buffer) k memory =
      let w := walk m path source regs (slot :: buffer) memory
      ⟨w.dropMemory, none, k, w.memory⟩ := by
  cases source with
  | some words => rfl
  | none =>
      simp only [walkWith, walk_cons]
      cases regs.start with
      | error e => rfl
      | ok start =>
          simp only [trail_none]
          rfl

/-- A capture with a memory of the caller's own, or of no process, does not attach. -/
theorem attach_of_memory (hmemory : source = none → request.pid ≤ 0) :
    context.attach kernel request source.isSome buffer.length k = (none, k) := by
  unfold Context.attach
  refine if_neg fun htries => ?_
  have hmay := mayAttach_iff.mp htries
  have hpid := hmemory hmay.noMemory
  have hprocess := hmay.process
  omega

/-- **A capture that attaches to nothing** is one use of the pool and one walk with the caller's memory, if there is
    one. -/
theorem capture_of_memory {pool : Pool Module} (hpool : context.pool = some pool)
    (haccepted : context.refusal? request buffer = none) (hmemory : source = none → request.pid ≤ 0) :
    context.capture kernel files request source buffer k memory =
      let found := pool.lookup (Module.load files) request.module
      let after := { context with pool := some found.2 }
      match found.1 with
      | .error e => ⟨.failed e, buffer, after, k, memory⟩
      | .ok (m, path) =>
          let w := walk m path source request.registers buffer memory
          match w.ending with
          | .error e => ⟨.failed e, w.frames, after, k, w.memory⟩
          | .ok ending => ⟨⟨.ok, w.written, some ending⟩, w.frames, after, k, w.memory⟩ := by
  rw [capture_of_pool context kernel files request source buffer k memory hpool haccepted,
    attach_of_memory context kernel request source buffer k hmemory]
  rcases pool.lookup (Module.load files) request.module with ⟨e | ⟨m, path⟩, after⟩
  · rfl
  · obtain ⟨-, -, hroom⟩ := accepted_of_refusal haccepted
    cases buffer with
    | nil => exact absurd rfl hroom
    | cons slot buffer =>
        simp only [openedSession, Option.bind_none, walkWith_alone]
        rfl

end Captures

/-! ## A bare file -/

open LittleEndian (ofNat)

/-- The frame section of `bareFunction`: its common record, and its own. -/
def bareFrames : Bytes :=
  ofNat 4 14 ++ ofNat 4 0 ++ [1, 0, 1, 0x78, 16, 0x0c, 7, 8, 0x90, 1] ++
    ofNat 4 20 ++ ofNat 4 22 ++ ofNat 8 0x1000 ++ ofNat 8 0x100

/-- The names of the sections. -/
def bareNames : Bytes := Image.nameBytes ".debug_info" ++ [0] ++ Image.nameBytes ".eh_frame" ++ [0]

/-- A file of three sections: none, the frame section, and the names. -/
def bareFile : Bytes :=
  Image.magic ++ [2, 1, 1] ++ ofNat 33 0 ++ ofNat 8 64 ++ ofNat 10 0 ++ ofNat 2 64 ++ ofNat 2 3 ++ ofNat 2 2 ++
    sectionHeader 0 0 0 ++ sectionHeader 12 256 42 ++ sectionHeader 0 298 22 ++ bareFrames ++ bareNames

/-- A file system with this file only. -/
def bareFiles : FileSystem := ⟨fun path => if path.text = "bare" then .ok bareFile else .error (.errno .noEntry)⟩

/-- A request for the sample in the function of this file, of no process. -/
def bareRequest : Request := ⟨⟨"bare"⟩, bareSample, 0, 0⟩

/-- A process of the threads 100 and 101, with no memory of interest. -/
def bareProcess : LiveProcess := ⟨[], 100, 101, false, false, true⟩

/-- A capture of a request beside this file and this process, with the reads of its memory. -/
def bareCapture (context : Context) (request : Request) (source : Option (WordSource Unit)) (room : Nat) :
    Captured LiveProcess (Unit × List UInt64) :=
  context.capture LiveProcess.kernel bareFiles request (source.map (·.logged)) (List.replicate room .blank) bareProcess
    ((), [])

end Unwinder
