import Unwinder.Proofs.Capture.Histories

/-!
# `Proofs.Capture.Shapes` — a capture succeeds or leaves no trace

A capture either fails, and then the buffer is as it was and the report says so, or it reports how many frames it has
written and why no more, and then every frame up to there is whole and every frame after it as it was.

## Contents
- **The two shapes.** `Captured.Failed` and `Captured.Succeeded`.
- **Walks.** `WrittenBy` is what a walk does to a buffer; `walk_written` shows it of every walk over any memory.
- **Attempts to attach.** `FailsToAttach`, the one case of a success with another status.
- **Main statement.** `capture_fails_or_succeeds`, of every context in every state.
-/

namespace Unwinder

variable {κ σ : Type}

/-! ## The two shapes -/

/-- **The first shape**: a failure, which leaves the buffer as it was. -/
structure Captured.Failed (c : Captured κ σ) (buffer : List Frame) : Prop where
  status : c.report.status ≠ .ok
  written : c.report.written = 0
  ending : c.report.ending = none
  unchanged : c.frames = buffer

/-- Attaching to the process of a request is tried, since there is nothing else to read and something to read it for,
    and fails. -/
structure FailsToAttach (context : Context) (kernel : Kernel κ) (request : Request) (source : Option (WordSource σ))
    (room : Nat) (k : κ) (e : Error) : Prop where
  noMemory : source = none
  allowed : context.settings.attaches = true
  process : 0 < request.pid
  several : 1 < room
  fails : (Session.attach kernel true request.pid request.tid k).1 = .error e

/-- What a walk of a register set has done to a buffer: `written` frames at its front are those of the sample and of its
    callers, attributed to a path, and the rest is as it was. -/
structure WrittenBy (regs : RegisterSet) (path : Path) (buffer : List Frame) (written : Nat) (frames : List Frame) :
    Prop where
  positive : 1 ≤ written
  fits : written ≤ buffer.length
  rest : frames.length = buffer.length ∧ frames.drop written = buffer.drop written
  sampled : ∃ frame, frames[0]? = some frame ∧ frame.flags = 1 ∧ frame.pc = regs.pc ∧ frame.sp = regs.sp
  callers : ∀ i frame, 0 < i → i < written → frames[i]? = some frame →
    frame.flags = 0 ∧ frame.pc = frame.ra ∧ frame.sp = frame.cfa
  attributed : ∀ frame ∈ frames.take written, frame.module = some path

/-- **The second shape**: frames that are attributed to the module taken from the pool, and a status that tells only of
    an attempt to attach. -/
structure Captured.Succeeded (c : Captured κ σ) (context : Context) (kernel : Kernel κ) (files : FileSystem)
    (request : Request) (source : Option (WordSource σ)) (buffer : List Frame) (k : κ) : Prop where
  frames : ∃ pool handle taken m, context.pool = some pool ∧
    pool.acquire (Module.load files) request.module = (.ok handle, taken) ∧ taken.get handle = .ok m ∧
    m.path.Same request.module ∧ WrittenBy request.registers m.path buffer c.report.written c.frames
  ending : ∃ ending, c.report.ending = some ending
  attached : (∀ e, ¬ FailsToAttach context kernel request source buffer.length k e) → c.report.status = .ok
  alone : ∀ e, FailsToAttach context kernel request source buffer.length k e →
    c.report.status = e.status ∧ c.report.written = 1 ∧ c.report.ending = some .noMemory

/-! ## Walks -/

/-- What is written for a trail. -/
theorem writtenBy_walked {trail : Trail σ} (path : Path) (a : Architecture) (regs : RegisterSet) (slot : Frame)
    {buffer : List Frame} (hle : trail.callers.length ≤ buffer.length) :
    WrittenBy regs path (slot :: buffer) (trail.walked path (a.sampledFrame regs) buffer).written
      (trail.walked path (a.sampledFrame regs) buffer).frames := by
  constructor
  · exact Nat.succ_pos _
  · exact Nat.succ_le_succ hle
  · exact trail.drop_walked path (a.sampledFrame regs) slot buffer hle
  · exact ⟨_, rfl, rfl, rfl, rfl⟩
  · intro i frame hpos hi hframe
    obtain ⟨j, rfl⟩ : ∃ j, i = j + 1 := ⟨i - 1, by omega⟩
    rw [trail.getElem?_walked path (a.sampledFrame regs) buffer (Nat.lt_of_succ_lt_succ hi),
      Option.some.injEq] at hframe
    rw [← hframe]
    exact ⟨rfl, rfl, rfl⟩
  · intro frame hframe
    rw [Trail.take_walked, List.mem_cons, List.mem_map] at hframe
    rcases hframe with rfl | ⟨caller, -, rfl⟩
    · rfl
    · rfl

/-- What is written speaks of the program counter and the stack pointer only. -/
theorem WrittenBy.congr {regs normal : RegisterSet} {path : Path} {buffer frames : List Frame} {written : Nat}
    (h : WrittenBy normal path buffer written frames) (hpc : normal.pc = regs.pc) (hsp : normal.sp = regs.sp) :
    WrittenBy regs path buffer written frames := by
  refine ⟨h.positive, h.fits, h.rest, ?_, h.callers, h.attributed⟩
  rw [← hpc, ← hsp]
  exact h.sampled

/-- **What a walk writes**, over any memory: nothing if it is broken off. Without a memory it ends at the frame
    sampled. -/
theorem walk_written (m : Module) (path : Path) (words : Option (WordSource σ)) (regs : RegisterSet)
    {buffer : List Frame} (hroom : buffer ≠ []) (state : σ) :
    match (walk m path words regs buffer state).ending with
    | .error _ => (walk m path words regs buffer state).frames = buffer
    | .ok ending =>
        WrittenBy regs path buffer (walk m path words regs buffer state).written
            (walk m path words regs buffer state).frames ∧
          (words = none → 1 < buffer.length →
            (walk m path words regs buffer state).written = 1 ∧ ending = .noMemory) := by
  cases buffer with
  | nil => exact absurd rfl hroom
  | cons slot buffer =>
      rw [walk_cons]
      cases hstart : regs.start with
      | error e => rfl
      | ok start =>
          obtain ⟨a, normal, frame⟩ := start
          obtain ⟨hnormal, -, rfl⟩ := RegisterSet.start_eq_ok hstart
          have hwritten := writtenBy_walked path a normal slot (length_trail_le m a words buffer.length normal state)
          refine ⟨hwritten.congr (by rw [hnormal]) (by rw [hnormal]), ?_⟩
          rintro rfl hseveral
          have hbuffer : buffer.length ≠ 0 := Nat.ne_of_gt (Nat.lt_of_succ_lt_succ hseveral)
          have halone : m.trail a none buffer.length normal state = ⟨[], .noMemory, state⟩ := by
            rw [trail_none, if_neg hbuffer]
          constructor
          · show (m.trail a none buffer.length normal state).callers.length + 1 = 1
            rw [halone]
            rfl
          · show (m.trail a none buffer.length normal state).ending = .noMemory
            rw [halone]

/-! ## Attempts to attach -/

section Attempts

variable {context : Context} {kernel : Kernel κ} {request : Request} {source : Option (WordSource σ)} {room : Nat}
  {k : κ}

/-- There is one failure of an attempt at most. -/
theorem FailsToAttach.unique {e e' : Error} (h : FailsToAttach context kernel request source room k e)
    (h' : FailsToAttach context kernel request source room k e') : e = e' :=
  Except.error.inj (h.fails.symm.trans h'.fails)

/-- **The attempt to attach that a capture makes**, if it makes one: it fails in the one case and opens a session, or
    nothing, in the others. -/
theorem attach_outcome (context : Context) (kernel : Kernel κ) (request : Request) (source : Option (WordSource σ))
    (room : Nat) (k : κ) :
    (outcome (context.attach kernel request source.isSome room k).1 = .ok ∧
      ∀ e, ¬ FailsToAttach context kernel request source room k e) ∨
    ∃ e, (context.attach kernel request source.isSome room k).1 = some (.error e) ∧
      FailsToAttach context kernel request source room k e := by
  unfold Context.attach
  split
  · rename_i htries
    obtain ⟨hsource, hallowed, hprocess, hseveral⟩ := mayAttach_iff.mp htries
    rw [hallowed]
    rcases hattach : Session.attach kernel true request.pid request.tid k with ⟨e | session, k'⟩
    · exact .inr ⟨e, rfl, hsource, hallowed, hprocess, hseveral, by rw [hattach]⟩
    · refine .inl ⟨rfl, ?_⟩
      intro e hfails
      have herror := hfails.fails
      rw [hattach] at herror
      cases herror
  · rename_i hrefrains
    refine .inl ⟨rfl, ?_⟩
    intro e hfails
    exact hrefrains (mayAttach_iff.mpr ⟨hfails.noMemory, hfails.allowed, hfails.process, hfails.several⟩)

end Attempts

/-! ## Main statement -/

/-- A capture that reports an error has the first shape. -/
theorem failed_of_error (e : Error) (buffer : List Frame) (context : Context) (k : κ) (memory : σ) :
    Captured.Failed ⟨.failed e, buffer, context, k, memory⟩ buffer :=
  ⟨e.status_ne_ok, rfl, rfl, rfl⟩

section Main

variable (context : Context) (kernel : Kernel κ) (files : FileSystem) (request : Request)
  (source : Option (WordSource σ)) (buffer : List Frame) (k : κ) (memory : σ)

/-- Captures of a context at rest have one of the two shapes. -/
theorem shapes_of_atRest {settings : Settings} (h : context.AtRest settings fun path m => m.path = path) :
    (context.capture kernel files request source buffer k memory).Failed buffer ∨
      (context.capture kernel files request source buffer k memory).Succeeded context kernel files request source
        buffer k := by
  cases hrefusal : context.refusal? request buffer with
  | some cause =>
      rw [capture_of_refusal context kernel files request source buffer k memory hrefusal]
      exact .inl (failed_of_error _ _ _ _ _)
  | none =>
      obtain ⟨⟨pool, hpool⟩, -, hroom⟩ := accepted_of_refusal hrefusal
      have hload : ∀ m, Module.load files request.module = .ok m → m.path = request.module :=
        fun m => Module.path_of_load
      obtain ⟨-, hfound⟩ := (h.rested pool hpool).lookup settings.slots_pos hload
      rw [capture_of_pool context kernel files request source buffer k memory hpool hrefusal]
      have hattempt := attach_outcome context kernel request source buffer.length k
      generalize context.attach kernel request source.isSome buffer.length k = attempt at hattempt ⊢
      rcases hlookup : pool.lookup (Module.load files) request.module with ⟨e | ⟨m, path⟩, after⟩
      · exact .inl (failed_of_error _ _ _ _ _)
      · rw [hlookup] at hfound
        obtain ⟨hsame, rfl⟩ := hfound
        obtain ⟨handle, taken, hacquire, hget, -⟩ := Pool.lookup_eq_ok (by rw [hlookup])
        obtain ⟨τ, words, state, hwalked, hnone⟩ := walkWith_walked kernel source buffer attempt.2 memory m m.path
          (openedSession attempt.1) request.registers
        have hwritten := walk_written m m.path words request.registers hroom state
        simp only [WalkEnd.captured, hwalked, Walked.dropMemory]
        cases hending : (walk m m.path words request.registers buffer state).ending with
        | error e =>
            rw [hending] at hwritten
            exact .inl ⟨e.status_ne_ok, rfl, rfl, hwritten⟩
        | ok ending =>
            rw [hending] at hwritten
            obtain ⟨hwritten, halone⟩ := hwritten
            refine .inr ⟨⟨pool, handle, taken, m, hpool, hacquire, hget, hsame, hwritten⟩, ⟨_, rfl⟩, ?_, ?_⟩
            · intro hnever
              rcases hattempt with ⟨hok, -⟩ | ⟨e, -, hfails⟩
              · exact hok
              · exact absurd hfails (hnever e)
            · intro e hfails
              rcases hattempt with ⟨-, hnever⟩ | ⟨e', hattempt, hfails'⟩
              · exact absurd hfails (hnever e)
              · -- the attempt has left neither a session nor, as there was none, another memory
                obtain rfl := hfails.unique hfails'
                have hwords : words = none := hnone.mpr ⟨hfails.noMemory, by rw [hattempt]; rfl⟩
                obtain ⟨hone, hlast⟩ := halone hwords hfails.several
                refine ⟨?_, hone, congrArg some hlast⟩
                rw [hattempt]
                rfl

/-- Captures of a context that has been shut down fail, and say that it was used wrongly. -/
theorem failed_of_shutDown (h : context.pool = none) :
    (context.capture kernel files request source buffer k memory).Failed buffer ∧
      (context.capture kernel files request source buffer k memory).report.status = .invalidArgument := by
  have hrefusal : context.refusal? request buffer = some .shutDown := by
    rw [Context.refusal?, h]
    rfl
  rw [capture_of_refusal context kernel files request source buffer k memory hrefusal]
  exact ⟨failed_of_error _ _ _ _ _, rfl⟩

end Main

/-- **A capture fails or succeeds, and never by half.** Take any context that any captures and shut downs have led to.
    Whatever is captured then, by whomever and whatever the system answers, has one of the two shapes; and once the
    context is shut down, every later capture has the first one and reports an invalid argument. -/
theorem capture_fails_or_succeeds {settings : Settings} {context : Context}
    (hreaches : Context.Reaches Context.Anything (.ofSettings settings) context) :
    (∀ {κ σ : Type} (kernel : Kernel κ) (files : FileSystem) (request : Request) (source : Option (WordSource σ))
      (buffer : List Frame) (k : κ) (memory : σ),
      (context.capture kernel files request source buffer k memory).Failed buffer ∨
        (context.capture kernel files request source buffer k memory).Succeeded context kernel files request source
          buffer k) ∧
    ∀ later, Context.Reaches Context.Anything context.shutDown later →
      ∀ {κ σ : Type} (kernel : Kernel κ) (files : FileSystem) (request : Request) (source : Option (WordSource σ))
        (buffer : List Frame) (k : κ) (memory : σ),
        (later.capture kernel files request source buffer k memory).Failed buffer ∧
          (later.capture kernel files request source buffer k memory).report.status = .invalidArgument := by
  constructor
  · intro κ σ kernel files request source buffer k memory
    have hrest := (Context.AtRest.ofSettings settings fun path m => m.path = path).reaches
      (fun _ _ _ _ => Module.path_of_load) hreaches
    exact shapes_of_atRest context kernel files request source buffer k memory hrest
  · intro later hlater κ σ kernel files request source buffer k memory
    exact failed_of_shutDown later kernel files request source buffer k memory
      (Context.pool_of_reaches_shutDown hlater)

/-- After a capture of a snapshot, one of a process that is not there; and the same once the context is shut down. -/
theorem capture_fails_or_succeeds_attaching :
    let start := Context.ofSettings ⟨1, true⟩
    let used := (bareCapture start bareRequest (some bareStack.source) 4).context
    let stray : Request := { bareRequest with pid := 5 }
    Context.Reaches Context.Anything start used ∧
      (bareCapture used stray none 4).Succeeded used LiveProcess.kernel bareFiles stray
        ((none : Option (WordSource Unit)).map (·.logged)) (List.replicate 4 .blank) bareProcess ∧
      (bareCapture used stray none 4).report = ⟨.io, 1, some .noMemory⟩ ∧
      (bareCapture used.shutDown stray none 4).Failed (List.replicate 4 .blank) ∧
      (bareCapture used.shutDown stray none 4).report.status = .invalidArgument := by
  intro start used stray
  have hreaches : Context.Reaches Context.Anything start used := .single (.capture _ _ _ _ _ _ _ trivial)
  have hreport : (bareCapture used stray none 4).report = ⟨.io, 1, some .noMemory⟩ := by decide +kernel
  obtain ⟨hshapes, hshut⟩ := capture_fails_or_succeeds hreaches
  refine ⟨hreaches, ?_, hreport, hshut _ .refl _ _ _ _ _ _ _⟩
  refine (hshapes _ _ _ _ _ _ _).resolve_left fun hfailed => ?_
  have hwritten := hfailed.written
  unfold bareCapture at hreport
  rw [hreport] at hwritten
  cases hwritten

end Unwinder
