import Unwinder.Proofs.Capture.Histories

/-!
# `Proofs.Capture.Independence` — the pool does not show

A pool of modules only saves work. As long as files do not change, and no two spellings of a path are in use, a module
taken from the pool is the one that loading it now would give, so that what a capture shows its caller does not depend
on what was captured before, nor on how many modules are kept.

## Contents
- **Without a pool.** `Request.answer` is what a request shows when its module is loaded for it alone.
- **With one.** `Within` restricts histories to one file system, and `seen_of_reaches` shows that a capture after such a
  history shows the same.
- **Main statement.** `captures_independent_of_history`, of two histories.
-/

namespace Unwinder

variable {κ κ' σ : Type}

/-! ## Without a pool -/

/-- What a capture shows its caller: the report, the buffer, and the caller's memory with the reads made of it. -/
def Captured.seen (c : Captured κ σ) : Report × List Frame × σ := (c.report, c.frames, c.memory)

/-- What a request shows when there is no pool, and its module is loaded for it alone. -/
def Request.answer (request : Request) (files : FileSystem) (source : Option (WordSource σ)) (buffer : List Frame)
    (memory : σ) : Report × List Frame × σ :=
  if request.module.isEmpty then (.failed (.misuse .noPath), buffer, memory)
  else if buffer.isEmpty then (.failed (.misuse .noFrames), buffer, memory)
  else
    match Module.load files request.module with
    | .error e => (.failed e, buffer, memory)
    | .ok m =>
        let w := walk m request.module source request.registers buffer memory
        match w.ending with
        | .error e => (.failed e, w.frames, w.memory)
        | .ok ending => (⟨.ok, w.written, some ending⟩, w.frames, w.memory)

/-! ## With one -/

/-- **One file system**, and requests for modules among some paths. -/
def Within (files : FileSystem) (paths : Set Path) : FileSystem → Request → Prop :=
  fun used request => used = files ∧ request.module ∈ paths

/-- Paths with one spelling each. -/
def Unambiguous (paths : Set Path) : Prop := ∀ p ∈ paths, ∀ q ∈ paths, p.Same q → p = q

/-- What is loaded now from one of some paths. -/
def LoadedNow (files : FileSystem) (paths : Set Path) : Path → Module → Prop :=
  fun path m => path ∈ paths ∧ Module.load files path = .ok m

section Histories

variable {settings : Settings} {context : Context} {files : FileSystem} {paths : Set Path}

/-- A history within a file system leaves in the pool only what could be loaded from it now. -/
theorem Context.AtRest.of_within (hreaches : Context.Reaches (Within files paths) (.ofSettings settings) context) :
    context.AtRest settings (LoadedNow files paths) := by
  refine (Context.AtRest.ofSettings settings _).reaches ?_ hreaches
  rintro used request m ⟨rfl, hpath⟩ hload
  exact ⟨hpath, hload⟩

/-- **A use of the pool gives what loading would give**, whether it has to load or not. -/
theorem Context.AtRest.lookup_eq_load (h : context.AtRest settings (LoadedNow files paths))
    (hpaths : Unambiguous paths) {pool : Pool Module} (hpool : context.pool = some pool) {path : Path}
    (hpath : path ∈ paths) :
    (pool.lookup (Module.load files) path).1 = (Module.load files path).map fun m => (m, path) := by
  obtain ⟨-, hfound⟩ := (h.rested pool hpool).lookup settings.slots_pos fun m hload => ⟨hpath, hload⟩
  generalize (pool.lookup (Module.load files) path).1 = found at hfound ⊢
  rcases found with e | ⟨m, held⟩
  · have hfailed : Module.load files path = .error e := hfound
    rw [hfailed]
    rfl
  · obtain ⟨hsame, hheld, hload⟩ := hfound
    obtain rfl := hpaths held hheld path hpath hsame
    rw [hload]
    rfl

/-- **A capture shows what it would show without a pool**, whatever was captured before. -/
theorem seen_of_reaches (hpaths : Unambiguous paths)
    (hreaches : Context.Reaches (Within files paths) (.ofSettings settings) context)
    (hopen : context.isShutDown = false) (kernel : Kernel κ) {request : Request} (hpath : request.module ∈ paths)
    (source : Option (WordSource σ)) (hmemory : source = none → request.pid ≤ 0) (buffer : List Frame) (k : κ)
    (memory : σ) :
    (context.capture kernel files request source buffer k memory).seen =
      request.answer files source buffer memory := by
  obtain ⟨pool, hpool⟩ : ∃ pool, context.pool = some pool :=
    Option.isSome_iff_exists.mp (Option.isNone_eq_false_iff.mp hopen)
  have hrefused : context.refusal? request buffer =
      if request.module.isEmpty then some .noPath else if buffer.isEmpty then some .noFrames else none := by
    rw [Context.refusal?, hpool]
    rfl
  unfold Request.answer
  by_cases hmodule : request.module.isEmpty = true
  · rw [if_pos hmodule] at hrefused ⊢
    rw [capture_of_refusal context kernel files request source buffer k memory hrefused]
    rfl
  rw [if_neg hmodule] at hrefused ⊢
  by_cases hbuffer : buffer.isEmpty = true
  · rw [if_pos hbuffer] at hrefused ⊢
    rw [capture_of_refusal context kernel files request source buffer k memory hrefused]
    rfl
  rw [if_neg hbuffer] at hrefused ⊢
  have hload := (Context.AtRest.of_within hreaches).lookup_eq_load hpaths hpool hpath
  rw [capture_of_memory context kernel files request source buffer k memory hpool hrefused hmemory]
  generalize pool.lookup (Module.load files) request.module = found at hload ⊢
  simp only [hload]
  cases Module.load files request.module with
  | error e => rfl
  | ok m =>
      simp only [Except.map]
      cases (walk m request.module source request.registers buffer memory).ending <;> rfl

end Histories

/-! ## Main statement -/

/-- **Captures do not depend on what was captured before.** Take a file system and paths with one spelling each, and two
    contexts with any settings, each after any captures of modules among these paths and neither shut down. A request
    for such a module that comes with a memory, such as a snapshot, or concerns no process, with the same buffer, shows
    the same report and the same frames in both, for the same reads. -/
theorem captures_independent_of_history {files : FileSystem} {paths : Set Path} (hpaths : Unambiguous paths)
    {settings settings' : Settings} {context context' : Context}
    (hreaches : Context.Reaches (Within files paths) (.ofSettings settings) context)
    (hreaches' : Context.Reaches (Within files paths) (.ofSettings settings') context')
    (hopen : context.isShutDown = false) (hopen' : context'.isShutDown = false) {request : Request}
    (hpath : request.module ∈ paths) (source : Option (WordSource σ)) (hmemory : source = none → request.pid ≤ 0)
    (buffer : List Frame) (memory : σ) (kernel : Kernel κ) (k : κ) (kernel' : Kernel κ') (k' : κ') :
    (context.capture kernel files request (source.map (·.logged)) buffer k (memory, [])).seen =
      (context'.capture kernel' files request (source.map (·.logged)) buffer k' (memory, [])).seen := by
  have hmemory' : source.map (·.logged) = none → request.pid ≤ 0 := fun h => hmemory (Option.map_eq_none_iff.mp h)
  rw [seen_of_reaches hpaths hreaches hopen kernel hpath _ hmemory' buffer k,
    seen_of_reaches hpaths hreaches' hopen' kernel' hpath _ hmemory' buffer k']

/-- A context that has not captured anything, and one that keeps a single module and has just lost it to a file that is
    not there. -/
theorem captures_independent_of_history_eviction :
    let paths : Set Path := {⟨"bare"⟩, ⟨"gone"⟩}
    let start := Context.ofSettings ⟨0, false⟩
    let start' := Context.ofSettings ⟨1, true⟩
    let filled := (bareCapture start' bareRequest (some bareStack.source) 4).context
    let evicted := (bareCapture filled { bareRequest with module := ⟨"gone"⟩ } none 4).context
    Unambiguous paths ∧ Context.Reaches (Within bareFiles paths) start start ∧
      Context.Reaches (Within bareFiles paths) start' evicted ∧
      start.isShutDown = false ∧ evicted.isShutDown = false ∧ bareRequest.module ∈ paths ∧
      (some bareStack.source = none → bareRequest.pid ≤ 0) ∧
      (bareCapture start bareRequest (some bareStack.source) 4).seen =
        (bareCapture evicted bareRequest (some bareStack.source) 4).seen ∧
      (bareCapture start bareRequest (some bareStack.source) 4).report = ⟨.ok, 3, some (.noFunction 0x2000)⟩ := by
  intro paths start start' filled evicted
  have hpaths : Unambiguous paths := by
    rintro p (rfl | rfl) q (rfl | rfl) hsame
    · rfl
    · exact absurd hsame (by decide)
    · exact absurd hsame (by decide)
    · rfl
  have hpath : bareRequest.module ∈ paths := .inl rfl
  have hreaches : Context.Reaches (Within bareFiles paths) start start := .refl
  have hfilled : Context.Step (Within bareFiles paths) start' filled := .capture _ _ _ _ _ _ _ ⟨rfl, hpath⟩
  have hevicted : Context.Step (Within bareFiles paths) filled evicted := .capture _ _ _ _ _ _ _ ⟨rfl, .inr rfl⟩
  have hreaches' : Context.Reaches (Within bareFiles paths) start' evicted := .tail (.single hfilled) hevicted
  have hopen : evicted.isShutDown = false := by decide +kernel
  have hmemory : some bareStack.source = none → bareRequest.pid ≤ 0 := fun h => absurd h (Option.some_ne_none _)
  refine ⟨hpaths, hreaches, hreaches', rfl, hopen, hpath, hmemory, ?_, by decide +kernel⟩
  exact captures_independent_of_history hpaths hreaches hreaches' rfl hopen hpath (some bareStack.source) hmemory
    (List.replicate 4 .blank) () LiveProcess.kernel bareProcess LiveProcess.kernel bareProcess

end Unwinder
