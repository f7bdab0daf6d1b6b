import Unwinder.Proofs.Capture.Histories
import Unwinder.Proofs.Faults
import Unwinder.Proofs.Target.Calls

/-!
# `Proofs.Capture.Returning` — every capture gives its module back

A capture takes a module from the pool and has many ways to fail after that. None of them leaves the module taken:
after every capture nothing in the pool is in use, and so a pool of one slot is enough for any number of captures.

## Contents
- **Idle contexts.** `Context.Idle`: between captures no slot is in use.
- **Kinds of failure.** Neither starting a walk, nor loading a module, nor attaching fails for want of a slot.
- **Main statement.** `GivesBack` says it of one capture, and `captures_give_back` shows it after any history.
-/

namespace Unwinder

variable {κ σ : Type}

/-! ## Idle contexts -/

/-- **Between captures**: every slot of the pool is unused or keeps a module that nobody uses. -/
def Context.Idle (context : Context) : Prop :=
  ∀ pool, context.pool = some pool → ∀ s ∈ pool.slots,
    (s.holding = .unused ∨ ∃ path m since, s.holding = .warm path m since) ∧ s.holding.count = 0

theorem Context.AtRest.idle {settings : Settings} {Known : Path → Module → Prop} {context : Context}
    (h : context.AtRest settings Known) : context.Idle := by
  intro pool hpool s hs
  rcases (h.rested pool hpool).idle s hs with hunused | ⟨path, m, since, hwarm, -⟩
  · rw [hunused]
    exact ⟨.inl rfl, rfl⟩
  · rw [hwarm]
    exact ⟨.inr ⟨path, m, since, rfl⟩, rfl⟩

/-! ## Kinds of failure -/

/-- A walk is broken off because of its register set only: by an architecture or a format that is not known. -/
theorem RegisterSet.start_fails {regs : RegisterSet} {e : Error} (h : regs.start = .error e) :
    e = .unsupportedArchitecture regs.tag ∨ e = .misuse (.registerVersion regs.version) := by
  cases harch : regs.architecture with
  | error e' =>
      simp only [start, harch, bind, Except.bind] at h
      cases h
      unfold architecture Architecture.ofTag at harch
      split at harch
      · cases harch
      · cases harch
      · cases harch
      · cases harch
        exact .inl rfl
  | ok a =>
      by_cases hversion : regs.version = 0 ∨ regs.version = registerFormat
      · rw [start_of_architecture harch hversion] at h
        cases h
      · simp only [start, harch, bind, Except.bind, Architecture.normalize, if_neg hversion] at h
        cases h
        exact .inr rfl

theorem walk_status {m : Module} {path : Path} {source : Option (WordSource σ)} {regs : RegisterSet}
    {buffer : List Frame} {memory : σ} {e : Error} (h : (walk m path source regs buffer memory).ending = .error e) :
    e.status ≠ .cacheFull := by
  have hstart : regs.start = .error e := by
    cases buffer with
    | nil =>
        unfold walk at h
        cases hstart : regs.start with
        | error e' =>
            rw [hstart] at h
            cases h
            rfl
        | ok start =>
            rw [hstart] at h
            cases h
    | cons slot buffer =>
        rw [walk_cons] at h
        cases hstart : regs.start with
        | error e' =>
            rw [hstart] at h
            cases h
            rfl
        | ok start =>
            rw [hstart] at h
            cases h
  rcases RegisterSet.start_fails hstart with rfl | rfl
  · simp [Error.status]
  · simp [Error.status]

/-- A module that does not load is not there, not well formed, or without frame records. -/
theorem load_status {files : FileSystem} {path : Path} {e : Error} (h : Module.load files path = .error e) :
    e.status = .io ∨ e.status = .badFormat ∨ e.status = .noDebugData := by
  rcases Module.load_fails h with ⟨fault, rfl⟩ | ⟨defect, rfl⟩ | ⟨place, rfl⟩
  · exact .inl rfl
  · exact .inr (.inl rfl)
  · exact .inr (.inr rfl)

/-- Attaching to a process fails because the system refuses it. -/
theorem Session.attach_status {kernel : Kernel κ} {pid tid : Int} {k : κ} {e : Error} (hpid : 0 < pid)
    (h : (attach kernel true pid tid k).1 = .error e) : e.status = .io := by
  have houtcome := attach_outcome kernel true pid tid k
  generalize attach kernel true pid tid k = outcome at h houtcome
  cases houtcome with
  | misused cause hmisuse =>
      rcases hmisuse with hdisabled | hnone
      · cases hdisabled
      · omega
  | refused hattach =>
      cases h
      rfl
  | released hattach hawait hfails =>
      cases h
      rfl
  | opened hattach hawait hstopped => cases h

/-- The attempt to attach makes a capture report nothing else than that the system refuses it. -/
theorem outcome_attach (context : Context) (kernel : Kernel κ) (request : Request) (hasMemory : Bool) (room : Nat)
    (k : κ) :
    outcome (context.attach kernel request hasMemory room k).1 = .ok ∨
      outcome (context.attach kernel request hasMemory room k).1 = .io := by
  unfold Context.attach
  split
  · rename_i htries
    simp only [Bool.and_eq_true, decide_eq_true_eq] at htries
    obtain ⟨⟨⟨-, hallowed⟩, hprocess⟩, -⟩ := htries
    rw [hallowed]
    rcases hattach : Session.attach kernel true request.pid request.tid k with ⟨e | s, k'⟩
    · exact .inr (Session.attach_status hprocess (congrArg Prod.fst hattach))
    · exact .inl rfl
  · exact .inl rfl

/-! ## Captures -/

/-- **A capture gives its module back**: nothing is in use after it. The handle it has taken, if it got one, gives
    access to the module and its path, and can be given back. It never reports the want of a slot. -/
structure GivesBack (context : Context) (files : FileSystem) (request : Request) (c : Captured κ σ) : Prop where
  idle : c.context.Idle
  handle : ∀ pool handle taken, context.pool = some pool →
    pool.acquire (Module.load files) request.module = (.ok handle, taken) →
      (∃ m, taken.get handle = .ok m) ∧ (∃ path, taken.pathOf handle = .ok path) ∧ (taken.release handle).1 = .ok ()
  status : c.report.status ≠ .cacheFull

/-- A capture of a context at rest does not report the want of a slot. -/
theorem status_of_atRest {settings : Settings} {Known : Path → Module → Prop} {context : Context}
    (hrest : context.AtRest settings Known) (kernel : Kernel κ) (files : FileSystem) (request : Request)
    (hload : ∀ m, Module.load files request.module = .ok m → Known request.module m)
    (source : Option (WordSource σ)) (buffer : List Frame) (k : κ) (memory : σ) :
    (context.capture kernel files request source buffer k memory).report.status ≠ .cacheFull := by
  cases hrefusal : context.refusal? request buffer with
  | some cause =>
      rw [capture_of_refusal context kernel files request source buffer k memory hrefusal]
      intro h
      cases h
  | none =>
      obtain ⟨⟨pool, hpool⟩, -, -⟩ := accepted_of_refusal hrefusal
      have houtcome := outcome_attach context kernel request source.isSome buffer.length k
      obtain ⟨-, hfound⟩ := (hrest.rested pool hpool).lookup settings.slots_pos hload
      rw [capture_of_pool context kernel files request source buffer k memory hpool hrefusal]
      generalize context.attach kernel request source.isSome buffer.length k = attempt at houtcome ⊢
      generalize pool.lookup (Module.load files) request.module = found at hfound ⊢
      rcases found with ⟨e | ⟨m, path⟩, after⟩
      · show e.status ≠ .cacheFull
        rcases load_status hfound with hstatus | hstatus | hstatus <;> simp [hstatus]
      · -- what is left are the ends of the walk, over whichever memory
        obtain ⟨τ, words, state, hwalked, -⟩ := walkWith_walked kernel source buffer attempt.2 memory m path
          (openedSession attempt.1) request.registers
        simp only [WalkEnd.captured, hwalked, Walked.dropMemory]
        cases hending : (walk m path words request.registers buffer state).ending with
        | error e => exact walk_status hending
        | ok ending =>
            show outcome attempt.1 ≠ .cacheFull
            rcases houtcome with hstatus | hstatus <;> simp [hstatus]

/-! ## Main statement -/

/-- **Every capture gives its module back.** Take any context, of whatever capacity, and any captures that it has seen,
    with whatever success and of whatever files, which may have changed in between. Whatever is captured next, by
    whomever and whatever the system answers, leaves nothing in use and never wants for a slot. -/
theorem captures_give_back {settings : Settings} {context : Context}
    (hreaches : Context.Reaches Context.Anything (.ofSettings settings) context) (kernel : Kernel κ)
    (files : FileSystem) (request : Request) (source : Option (WordSource σ)) (buffer : List Frame) (k : κ)
    (memory : σ) :
    GivesBack context files request (context.capture kernel files request source buffer k memory) := by
  have hstart := Context.AtRest.ofSettings settings fun _ _ => True
  have hrest := hstart.reaches (fun _ _ _ _ _ => trivial) hreaches
  have hafter := hstart.reaches (fun _ _ _ _ _ => trivial)
    (hreaches.tail (.capture kernel files request source buffer k memory trivial))
  constructor
  · exact hafter.idle
  · intro pool handle taken hpool hacquire
    exact (hrest.rested pool hpool).usable_of_acquire hacquire
  · exact status_of_atRest hrest kernel files request (fun _ _ => trivial) source buffer k memory

/-- Capacity zero, and the failures one after the other: an architecture that is not known, a format that is not known,
    a replay without the stack, and a file that is not there. -/
theorem captures_give_back_failing :
    let start := Context.ofSettings ⟨0, true⟩
    let none' : Option (WordSource Unit) := some (Snapshot.source ⟨0, []⟩)
    let strange := bareCapture start { bareRequest with registers := { bareSample with tag := 9 } } none' 4
    let newer := bareCapture strange.context { bareRequest with registers := { bareSample with version := 2 } } none' 4
    let blind := bareCapture newer.context bareRequest none' 4
    let absent := bareCapture blind.context { bareRequest with module := ⟨"absent"⟩ } none' 4
    Context.Reaches Context.Anything start blind.context ∧
      strange.report.status = .unsupportedArchitecture ∧ newer.report.status = .invalidArgument ∧
      blind.report = ⟨.ok, 1, some (.replay (.io (.snapshot 0) (.notCaptured 8 0x7000)))⟩ ∧
      absent.report.status = .io ∧
      GivesBack blind.context bareFiles { bareRequest with module := ⟨"absent"⟩ } absent := by
  intro start none' strange newer blind absent
  have hreaches : Context.Reaches Context.Anything start blind.context :=
    .tail (.tail (.single (.capture _ _ _ _ _ _ _ trivial)) (.capture _ _ _ _ _ _ _ trivial))
      (.capture _ _ _ _ _ _ _ trivial)
  refine ⟨hreaches, by decide +kernel, by decide +kernel, by decide +kernel, by decide +kernel, ?_⟩
  exact captures_give_back hreaches _ _ _ _ _ _ _

end Unwinder
