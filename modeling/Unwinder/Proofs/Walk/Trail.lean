import Mathlib.Logic.Relation
import Unwinder.Capture.Walk
import Unwinder.Proofs.Recovery.Plans

/-!
# `Proofs.Walk.Trail` — a walk is the iteration of one step

A walk fills a buffer, but what it finds out does not depend on the buffer beyond its length. This module takes the
walk apart into one step from a frame to its caller (`Module.advance`), the register sets that the iteration of this
step passes through (`Module.trail`), and the frames that are written for them. Everything that is proved of walks
is proved of trails.

## Contents
- **The sampled frame.** `Architecture.sampledFrame`: what a walk starts from, with `start_of_architecture` and
  `start_eq_ok`.
- **Frames of callers.** `Frame.ofCaller`: a caller's frame is determined by its registers. `Unwinds` says what
  unwinding does; it keeps registers in normal form (`Unwinds.normalize`).
- **One step.** `Module.advance`, and `walkOn_cons`, after which nothing opens the loop again.
- **Trails.** `Module.trail`, with `walkOn_eq_fill` and `walk_cons`.
- **Reads.** `ReadSteps`: the states of a memory that reads lead to, and `trail_reads`.
-/

namespace Unwinder

variable {σ : Type}

/-! ## The sampled frame -/

/-- The sampled frame, as its architecture describes it. -/
def Architecture.sampledFrame (a : Architecture) (regs : RegisterSet) : Frame :=
  { pc := regs.pc
    sp := regs.sp
    cfa := (a.frameAddress regs).toOption.getD regs.sp
    ra := (a.returnAddress regs).toOption.getD regs.pc
    isPartial := true
    module := none }

/-- Every known architecture describes the sampled frame, also where it gives it no window. -/
theorem RegisterSet.sampledFrame_of_architecture {regs : RegisterSet} {a : Architecture}
    (h : regs.architecture = .ok a) : regs.sampledFrame = .ok (a.sampledFrame regs) := by
  rw [sampledFrame, h]
  simp only [bind, Except.bind, Architecture.sampledFrame, Architecture.window, Architecture.frameAddress,
    Architecture.returnAddress]
  rcases a.frame with _ | _ | _ <;> rcases a.link with _ | _ | _ <;> rfl

/-- The tag of an architecture is the one it is found by. -/
theorem Architecture.tag_of_ofTag {tag : UInt16} {a : Architecture} (h : ofTag tag = .ok a) : a.tag = tag := by
  unfold ofTag at h
  split at h
  · cases h; rfl
  · cases h; rfl
  · cases h; rfl
  · cases h

/-- A register set is its own normal form when it names its architecture and has the current format. -/
theorem Architecture.normalize_eq_self {a : Architecture} {regs : RegisterSet} (htag : regs.tag = a.tag)
    (hversion : regs.version = registerFormat) : a.normalize regs = .ok regs := by
  rw [normalize, if_pos (.inr hversion), ← htag, ← hversion]

theorem Architecture.header_of_normalize {a : Architecture} {regs normal : RegisterSet}
    (h : a.normalize regs = .ok normal) : normal.tag = a.tag ∧ normal.version = registerFormat := by
  unfold normalize at h
  split at h
  · cases h
    exact ⟨rfl, rfl⟩
  · cases h

/-- A register set of a known architecture in a known format is where a walk starts, in the current format. -/
theorem RegisterSet.start_of_architecture {regs : RegisterSet} {a : Architecture} (h : regs.architecture = .ok a)
    (hversion : regs.version = 0 ∨ regs.version = registerFormat) :
    regs.start = .ok (a, { regs with version := registerFormat },
      a.sampledFrame { regs with version := registerFormat }) := by
  have htag : a.tag = regs.tag := Architecture.tag_of_ofTag h
  have hnormal : a.normalize regs = .ok { regs with version := registerFormat } := by
    rw [Architecture.normalize, if_pos hversion, htag]
  have harch : ({ regs with version := registerFormat } : RegisterSet).architecture = .ok a := h
  rw [start, h]
  simp only [bind, Except.bind, hnormal, sampledFrame_of_architecture harch]
  rfl

/-- **What a walk starts from.** The normal form differs from the register set in the format alone, and is its own
    normal form. -/
theorem RegisterSet.start_eq_ok {regs normal : RegisterSet} {a : Architecture} {frame : Frame}
    (h : regs.start = .ok (a, normal, frame)) :
    normal = { regs with version := registerFormat } ∧ a.normalize normal = .ok normal ∧
      frame = a.sampledFrame normal := by
  cases harch : regs.architecture with
  | error e => simp [start, bind, Except.bind, harch] at h
  | ok found =>
      by_cases hversion : regs.version = 0 ∨ regs.version = registerFormat
      · rw [start_of_architecture harch hversion] at h
        cases h
        exact ⟨rfl, Architecture.normalize_eq_self (Architecture.tag_of_ofTag harch).symm rfl, rfl⟩
      · simp [start, bind, Except.bind, harch, Architecture.normalize, hversion] at h

/-! ## Frames of callers -/

/-- The frame of a caller: its code stands at the return address, and its stack begins at the frame address. -/
def Frame.ofCaller (path : Path) (regs : RegisterSet) : Frame :=
  { pc := regs.pc, sp := regs.sp, cfa := regs.sp, ra := regs.pc, isPartial := false, module := some path }

/-- **What unwinding does**: it fails and keeps the registers, or recovers a return address, a frame address and slots,
    of which both the frame and the registers are made. -/
inductive Unwinds (regs : RegisterSet) (step : Cfi.Unwound σ) : Prop where
  | fails {e : Error} (hframe : step.frame = .error e) (hregisters : step.registers = regs)
  | recovers {r : Cfi.Recovery} {ra : UInt64} {values : List UInt64} (hframe : step.frame = .ok (r.frame ra))
      (hregisters : step.registers = r.registers regs ra values)

theorem Cfi.unwinds (source : WordSource σ) (image : Bytes) (cie : Cie) (fde : Fde) (target : UInt64)
    (regs : RegisterSet) (memory : σ) : Unwinds regs (unwind source image cie fde target regs memory) := by
  unfold unwind
  split
  · exact .fails rfl rfl
  · split
    · exact .fails rfl rfl
    · split
      · exact .fails rfl rfl
      · exact .recovers rfl rfl

theorem Module.unwinds (m : Module) (source : WordSource σ) (fde : Cfi.Fde) (target : UInt64) (regs : RegisterSet)
    (memory : σ) : Unwinds regs (m.unwind source fde target regs memory) := by
  unfold unwind
  split
  · exact .fails rfl rfl
  · exact Cfi.unwinds source _ _ fde target regs memory

/-- The frame and the registers that unwinding ends with agree. -/
theorem Unwinds.frame_eq {regs : RegisterSet} {step : Cfi.Unwound σ} (h : Unwinds regs step) {frame : Frame}
    (hframe : step.frame = .ok frame) (path : Path) :
    { frame with module := some path } = Frame.ofCaller path step.registers := by
  cases h with
  | fails hfailed => rw [hfailed] at hframe; cases hframe
  | recovers hrecovered hregisters =>
      rw [hrecovered] at hframe
      cases hframe
      rw [hregisters]
      rfl

/-- **Unwinding keeps registers in normal form**, so that a walk is never broken off after it has begun to write. -/
theorem Unwinds.normalize {a : Architecture} {regs : RegisterSet} {step : Cfi.Unwound σ}
    (h : Unwinds (a.withStackColumn regs) step) (hnormal : a.normalize regs = .ok regs) :
    a.normalize step.registers = .ok step.registers := by
  obtain ⟨htag, hversion⟩ := Architecture.header_of_normalize hnormal
  cases h with
  | fails _ hregisters => rw [hregisters]; exact Architecture.normalize_eq_self htag hversion
  | recovers _ hregisters => rw [hregisters]; exact Architecture.normalize_eq_self htag hversion

/-! ## One step -/

/-- **One step of a walk**: the registers of the caller, or why the walk ends here, with the memory after the step. -/
def Module.advance (m : Module) (a : Architecture) (source : Option (WordSource σ)) (regs : RegisterSet)
    (memory : σ) : Except Ending RegisterSet × σ :=
  match source with
  | none => (.error .noMemory, memory)
  | some words =>
      if m.index.hasRecords then
        match m.index.records.covering? regs.pc with
        | none => (.error (.noFunction regs.pc), memory)
        | some fde =>
            let step := m.unwind words fde regs.pc (a.withStackColumn regs) memory
            match step.frame with
            | .error e => (.error (.replay e), step.memory)
            | .ok _ => (.ok step.registers, step.memory)
      else (.error .noRecords, memory)

/-- **A walk takes one step and goes on from there**, or ends and leaves the buffer as it is. It is never broken off
    when its registers are in normal form. -/
theorem walkOn_cons (m : Module) (path : Path) {a : Architecture} (source : Option (WordSource σ)) (slot : Frame)
    (buffer : List Frame) {regs : RegisterSet} (hnormal : a.normalize regs = .ok regs) (memory : σ) :
    walkOn m path a source (slot :: buffer) regs memory =
      match m.advance a source regs memory with
      | (.error ending, memory) => ⟨slot :: buffer, 0, .ok ending, memory⟩
      | (.ok next, memory) => (walkOn m path a source buffer next memory).cons (.ofCaller path next) := by
  cases source with
  | none => rfl
  | some words =>
      rw [walkOn, Module.advance]
      by_cases hrecords : m.index.hasRecords = true
      · simp only [if_pos hrecords]
        cases m.index.records.covering? regs.pc with
        | none => rfl
        | some fde =>
            have hstep := m.unwinds words fde regs.pc (a.withStackColumn regs) memory
            cases hframe : (m.unwind words fde regs.pc (a.withStackColumn regs) memory).frame with
            | error e => simp only [hframe]
            | ok frame => simp only [hframe, hstep.normalize hnormal, hstep.frame_eq hframe]
      · simp only [if_neg hrecords]

/-- A step from registers in normal form leads to registers in normal form. -/
theorem Module.normalize_advance {m : Module} {a : Architecture} {source : Option (WordSource σ)}
    {regs next : RegisterSet} {memory memory' : σ} (hnormal : a.normalize regs = .ok regs)
    (h : m.advance a source regs memory = (.ok next, memory')) : a.normalize next = .ok next := by
  unfold advance at h
  split at h
  · cases h
  · split at h
    · split at h
      · cases h
      · dsimp only at h
        split at h
        · cases h
        · cases h
          exact (m.unwinds _ _ _ _ _).normalize hnormal
    · cases h

/-! ## Trails -/

/-- The register sets that a walk passes through, why it ends, and the memory after it. -/
structure Trail (σ : Type) where
  callers : List RegisterSet
  ending : Ending
  memory : σ

/-- A trail with a further caller in front. -/
def Trail.cons (next : RegisterSet) (more : Trail σ) : Trail σ := { more with callers := next :: more.callers }

/-- The trail from a register set, of `room` callers at most. -/
def Module.trail (m : Module) (a : Architecture) (source : Option (WordSource σ)) :
    Nat → RegisterSet → σ → Trail σ
  | 0, _, memory => ⟨[], .bufferFull, memory⟩
  | room + 1, regs, memory =>
      match m.advance a source regs memory with
      | (.error ending, memory) => ⟨[], ending, memory⟩
      | (.ok next, memory) => (m.trail a source room next memory).cons next

/-- A buffer with the frames of a trail written to its front. -/
def Trail.fill (trail : Trail σ) (path : Path) (buffer : List Frame) : Walked σ :=
  { frames := trail.callers.map (.ofCaller path) ++ buffer.drop trail.callers.length
    written := trail.callers.length
    ending := .ok trail.ending
    memory := trail.memory }

section Trails

variable (m : Module) (path : Path) (a : Architecture) (source : Option (WordSource σ))

theorem length_trail_le (room : Nat) (regs : RegisterSet) (memory : σ) :
    (m.trail a source room regs memory).callers.length ≤ room := by
  induction room generalizing regs memory with
  | zero => exact Nat.le_refl 0
  | succ room ih =>
      rw [Module.trail]
      rcases m.advance a source regs memory with ⟨ending | next, memory'⟩
      · exact Nat.zero_le _
      · exact Nat.succ_le_succ (ih next memory')

/-- **A walk writes the frames of its trail**, and nothing else. -/
theorem walkOn_eq_fill {a : Architecture} (buffer : List Frame) {regs : RegisterSet}
    (hnormal : a.normalize regs = .ok regs) (memory : σ) :
    walkOn m path a source buffer regs memory = (m.trail a source buffer.length regs memory).fill path buffer := by
  induction buffer generalizing regs memory with
  | nil => rfl
  | cons slot buffer ih =>
      rw [walkOn_cons m path source slot buffer hnormal, List.length_cons, Module.trail]
      rcases hstep : m.advance a source regs memory with ⟨ending | next, memory'⟩
      · rfl
      · show (walkOn m path a source buffer next memory').cons (.ofCaller path next) = _
        rw [ih (Module.normalize_advance hnormal hstep) memory']
        rfl

/-- The frame sampled, in front of those of the trail from it. -/
def Trail.walked (trail : Trail σ) (path : Path) (frame : Frame) (buffer : List Frame) : Walked σ :=
  (trail.fill path buffer).cons { frame with module := some path }

section Walked

variable (trail : Trail σ) (path : Path) (frame slot : Frame) (buffer : List Frame)

theorem Trail.walked_written : (trail.walked path frame buffer).written = trail.callers.length + 1 := rfl

theorem Trail.walked_frames :
    (trail.walked path frame buffer).frames =
      { frame with module := some path } ::
        (trail.callers.map (.ofCaller path) ++ buffer.drop trail.callers.length) := rfl

/-- The frames written for a trail with the frame sampled before them. -/
theorem Trail.take_walked :
    (trail.walked path frame buffer).frames.take (trail.walked path frame buffer).written =
      { frame with module := some path } :: trail.callers.map (.ofCaller path) := by
  rw [walked_written, walked_frames, List.take_succ_cons, List.take_left' (List.length_map _)]

/-- The rest of the buffer is as it was. -/
theorem Trail.drop_walked (hle : trail.callers.length ≤ buffer.length) :
    (trail.walked path frame buffer).frames.length = (slot :: buffer).length ∧
      (trail.walked path frame buffer).frames.drop (trail.walked path frame buffer).written =
        (slot :: buffer).drop (trail.walked path frame buffer).written := by
  rw [walked_written, walked_frames]
  constructor
  · simp only [List.length_cons, List.length_append, List.length_map, List.length_drop]
    omega
  · rw [List.drop_succ_cons, List.drop_succ_cons, List.drop_left' (List.length_map _)]

/-- The frames after the one sampled. -/
theorem Trail.getElem?_walked {i : Nat} (hi : i < trail.callers.length) :
    (trail.walked path frame buffer).frames[i + 1]? = some (.ofCaller path trail.callers[i]) := by
  rw [walked_frames, List.getElem?_cons_succ, List.getElem?_append_left (by rw [List.length_map]; exact hi),
    List.getElem?_map, List.getElem?_eq_getElem hi]
  rfl

end Walked

/-- **A walk refuses its register set, or writes the frame sampled and those of the trail from it.** Whether it
    refuses depends on the register set alone, and then it writes nothing. -/
theorem walk_cons (regs : RegisterSet) (slot : Frame) (buffer : List Frame) (memory : σ) :
    walk m path source regs (slot :: buffer) memory =
      match regs.start with
      | .error e => ⟨slot :: buffer, 0, .error e, memory⟩
      | .ok (a, normal, frame) => (m.trail a source buffer.length normal memory).walked path frame buffer := by
  unfold walk
  cases hstart : regs.start with
  | error e => rfl
  | ok start =>
      obtain ⟨a, normal, frame⟩ := start
      obtain ⟨-, hnormal, -⟩ := RegisterSet.start_eq_ok hstart
      simp only [walkOn_eq_fill m path source buffer hnormal]
      rfl

end Trails

/-! ## Reads -/

/-- One read takes a memory, if there is one, from a state to another. -/
def ReadStep (source : Option (WordSource σ)) (before after : σ) : Prop :=
  ∃ words ∈ source, ∃ address, after = (words.read address before).2

/-- The states that reads lead to. -/
abbrev ReadSteps (source : Option (WordSource σ)) : σ → σ → Prop := Relation.ReflTransGen (ReadStep source)

section Reads

variable (words : WordSource σ)

theorem Cfi.fetch_reads (o : Cfi.Origin) (memory : σ) :
    ReadSteps (some words) memory (o.fetch words memory).2 := by
  cases o with
  | known value => exact .refl
  | stored address => exact .single ⟨words, rfl, address, rfl⟩

theorem Cfi.fetchAll_reads (os : List Cfi.Origin) (memory : σ) :
    ReadSteps (some words) memory (fetchAll words os memory).2 := by
  induction os generalizing memory with
  | nil => exact .refl
  | cons o os ih =>
      have hfirst := fetch_reads words o memory
      rw [fetchAll]
      generalize o.fetch words memory = fetched at hfirst ⊢
      rcases fetched with ⟨e | value, memory'⟩
      · exact hfirst
      · have hrest := ih memory'
        simp only
        generalize fetchAll words os memory' = more at hrest ⊢
        rcases more with ⟨e | values, memory''⟩
        · exact hfirst.trans hrest
        · exact hfirst.trans hrest

theorem Cfi.unwind_reads (image : Bytes) (cie : Cie) (fde : Fde) (target : UInt64) (regs : RegisterSet) (memory : σ) :
    ReadSteps (some words) memory (unwind words image cie fde target regs memory).memory := by
  rw [unwind_eq]
  cases Recovery.plan image cie fde target regs with
  | error e => exact .refl
  | ok r =>
      have hreads := fetchAll_reads words (r.returnAddress :: r.slots.toList) memory
      simp only
      generalize fetchAll words (r.returnAddress :: r.slots.toList) memory = fetched at hreads ⊢
      rcases fetched with ⟨e | values, after⟩
      · exact hreads
      · exact hreads

theorem Module.advance_reads (m : Module) (a : Architecture) (source : Option (WordSource σ)) (regs : RegisterSet)
    (memory : σ) : ReadSteps source memory (m.advance a source regs memory).2 := by
  cases source with
  | none => exact .refl
  | some words =>
      rw [advance]
      by_cases hrecords : m.index.hasRecords = true
      · rw [if_pos hrecords]
        cases m.index.records.covering? regs.pc with
        | none => exact .refl
        | some fde =>
            have hstep : ReadSteps (some words) memory
                (m.unwind words fde regs.pc (a.withStackColumn regs) memory).memory := by
              unfold unwind
              cases m.index.records.cieOf fde with
              | error e => exact .refl
              | ok cie => exact Cfi.unwind_reads words _ _ _ _ _ _
            simp only
            split
            · exact hstep
            · exact hstep
      · rw [if_neg hrecords]

/-- **Along a trail a memory changes by reads only.** -/
theorem trail_reads (m : Module) (a : Architecture) (source : Option (WordSource σ)) (room : Nat)
    (regs : RegisterSet) (memory : σ) :
    ReadSteps source memory (m.trail a source room regs memory).memory := by
  induction room generalizing regs memory with
  | zero => exact .refl
  | succ room ih =>
      have hstep := m.advance_reads a source regs memory
      rw [Module.trail]
      generalize m.advance a source regs memory = step at hstep ⊢
      rcases step with ⟨ending | next, memory'⟩
      · exact hstep
      · exact hstep.trans (ih next memory')

/-- A walk changes a memory by reads only. -/
theorem walk_reads (m : Module) (path : Path) (source : Option (WordSource σ)) (regs : RegisterSet)
    (buffer : List Frame) (memory : σ) : ReadSteps source memory (walk m path source regs buffer memory).memory := by
  cases buffer with
  | nil =>
      unfold walk
      cases regs.start with
      | error e => exact .refl
      | ok start => exact .refl
  | cons slot buffer =>
      rw [walk_cons]
      cases regs.start with
      | error e => exact .refl
      | ok start => exact trail_reads m start.1 source buffer.length start.2.1 memory

/-- Reads only add to the list of the addresses tried. -/
theorem prefix_of_reads {source : Option (WordSource σ)} {before after : σ × List UInt64}
    (h : ReadSteps (source.map (·.logged)) before after) : before.2 <+: after.2 := by
  induction h with
  | refl => exact List.prefix_rfl
  | tail _ hread ih =>
      obtain ⟨words, hwords, address, rfl⟩ := hread
      obtain ⟨plain, -, rfl⟩ := Option.map_eq_some_iff.mp hwords
      exact ih.trans (List.prefix_append _ _)

end Reads

end Unwinder
