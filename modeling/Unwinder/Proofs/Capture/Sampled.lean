import Mathlib.Control.Monad.Basic
import Unwinder.Proofs.Capture.Returning
import Unwinder.Proofs.Capture.Shapes
import Unwinder.Proofs.Samples

/-!
# `Proofs.Capture.Sampled` — no sample is lost between its record and its capture

The same data are checked twice: when a record is made into a request, and again when the request is captured. The first
checks are the stricter ones. Whatever passes them is never refused later on, its registers are in normal form already,
and the first frame of every capture is the one the record tells of.

## Contents
- **Starts.** `start_registersBy`: a walk starts from the registers of a sample as they are.
- **Captures.** `Served`, what becomes of a request that a walk can start from, with `AtRest.served`.
- **Main statement.** `Capturable`, of every request that a record makes (`records_make_capturable_requests`).
-/

namespace Unwinder

variable {κ σ : Type}

/-! ## Starts -/

/-- The registers of a sample are in normal form, and a walk starts from them. -/
theorem Sample.start_registersBy {s : Sample} {a : Architecture} (htag : Architecture.ofTag s.tag = .ok a) :
    (s.registersBy a).architecture = .ok a ∧ a.normalize (s.registersBy a) = .ok (s.registersBy a) ∧
      (s.registersBy a).start = .ok (a, s.registersBy a, a.sampledFrame (s.registersBy a)) := by
  have harch : (s.registersBy a).architecture = .ok a := by
    show Architecture.ofTag a.tag = .ok a
    rw [Architecture.tag_of_ofTag htag, htag]
  exact ⟨harch, Architecture.normalize_eq_self rfl rfl, RegisterSet.start_of_architecture harch (.inr rfl)⟩

/-! ## Captures -/

/-- The outcomes that blame a request. -/
def Status.BlamesRequest (status : Status) : Prop := status = .invalidArgument ∨ status = .unsupportedArchitecture

/-- **A request that is served**: it is not blamed for anything, and if its module loads, its sample is the first
    frame. -/
structure Served (files : FileSystem) (request : Request) (a : Architecture) (c : Captured κ σ) : Prop where
  blameless : ¬ c.report.status.BlamesRequest
  sampled : ∀ m, Module.load files request.module = .ok m → 1 ≤ c.report.written ∧
    ∃ frame path, c.frames[0]? = some frame ∧ path.Same request.module ∧ IsSampled a request.registers path frame

/-- A context that is in use refuses no request with a path and room for a frame. -/
theorem refusal?_eq_none {context : Context} {request : Request} {buffer : List Frame}
    (hopen : context.isShutDown = false) (hpath : request.module.isEmpty = false) (hroom : buffer ≠ []) :
    context.refusal? request buffer = none := by
  have hbuffer : buffer.isEmpty = false := by simpa using hroom
  unfold Context.isShutDown at hopen
  rw [Context.refusal?, hopen, hpath, hbuffer]
  rfl

/-- **A request that a walk can start from is served**, by every context that is at rest and in use. -/
theorem Context.AtRest.served {settings : Settings} {context : Context}
    (hrest : context.AtRest settings fun _ _ => True) (hopen : context.isShutDown = false) {request : Request}
    (hpath : request.module.isEmpty = false) {a : Architecture}
    (hstart : request.registers.start = .ok (a, request.registers, a.sampledFrame request.registers))
    {buffer : List Frame} (hroom : buffer ≠ []) (kernel : Kernel κ) (files : FileSystem)
    (source : Option (WordSource σ)) (k : κ) (memory : σ) :
    Served files request a (context.capture kernel files request source buffer k memory) := by
  have haccepted := refusal?_eq_none hopen hpath hroom
  obtain ⟨⟨pool, hpool⟩, -, -⟩ := accepted_of_refusal haccepted
  have hknown : ∀ m, Module.load files request.module = .ok m → True := fun _ _ => trivial
  obtain ⟨-, hfound⟩ := (hrest.rested pool hpool).lookup settings.slots_pos hknown
  have houtcome := outcome_attach context kernel request source.isSome buffer.length k
  rw [capture_of_pool context kernel files request source buffer k memory hpool haccepted]
  generalize context.attach kernel request source.isSome buffer.length k = attempt at houtcome ⊢
  generalize pool.lookup (Module.load files) request.module = found at hfound ⊢
  -- a pool at rest fails only as loading does
  rcases found with ⟨e | ⟨m, path⟩, after⟩
  · constructor
    · show ¬ e.status.BlamesRequest
      rcases load_status hfound with hstatus | hstatus | hstatus <;> simp [Status.BlamesRequest, hstatus]
    · intro m hload
      rw [show Module.load files request.module = .error e from hfound] at hload
      cases hload
  · obtain ⟨hsame, -⟩ := hfound
    obtain ⟨τ, words, state, hwalked, -⟩ := walkWith_walked kernel source buffer attempt.2 memory m path
      (openedSession attempt.1) request.registers
    cases buffer with
    | nil => exact absurd rfl hroom
    | cons slot buffer =>
        -- the walk is not refused, and its first frame does not depend on the memory
        rw [walk_cons, hstart] at hwalked
        simp only [WalkEnd.captured, hwalked]
        constructor
        · show ¬ (outcome attempt.1).BlamesRequest
          rcases houtcome with hstatus | hstatus <;> simp [Status.BlamesRequest, hstatus]
        · intro _ _
          exact ⟨Nat.succ_pos _, _, path, rfl, hsame, isSampled_sampledFrame a request.registers path⟩

/-! ## Main statement -/

/-- **A request that can be captured**: it is what a record asks for, it passes every check that a walk makes, and every
    context in use serves it, whatever has been captured before. -/
structure Capturable (bs : Bytes) (path : Path) (request : Request) (a : Architecture) : Prop where
  concerns : request.module = path ∧ request.pid = numberAt bs 0 4 ∧ request.tid = numberAt bs 4 4
  architecture : request.registers.tag.toNat = numberAt bs 8 2 ∧ request.registers.architecture = .ok a
  sp : request.registers.sp.toNat = numberAt bs 24 8
  pc : request.registers.pc.toNat = numberAt bs 32 8
  slots : ∀ (i : Nat) (hi : i < slotCount), (request.registers.slots[i]).toNat = numberAt bs (40 + 8 * i) 8
  normal : a.normalize request.registers = .ok request.registers
  starts : request.registers.start = .ok (a, request.registers, a.sampledFrame request.registers)
  served : ∀ {settings : Settings} {context : Context},
    Context.Reaches Context.Anything (.ofSettings settings) context → context.isShutDown = false →
      path.isEmpty = false → ∀ {κ σ : Type} (kernel : Kernel κ) (files : FileSystem) (source : Option (WordSource σ))
        {buffer : List Frame} (k : κ) (memory : σ), buffer ≠ [] →
          Served files request a (context.capture kernel files request source buffer k memory)

/-- What a sample asks for can be captured. -/
theorem Sample.StandsIn.capturable {bs : Bytes} {s : Sample} (h : s.StandsIn bs) {a : Architecture}
    (htag : Architecture.ofTag s.tag = .ok a) (path : Path) :
    Capturable bs path ⟨path, s.registersBy a, s.pid.toNat, s.tid.toNat⟩ a := by
  obtain ⟨harch, hnormal, hstart⟩ := start_registersBy htag
  constructor
  · exact ⟨rfl, congrArg Nat.cast h.pid, congrArg Nat.cast h.tid⟩
  · exact ⟨(congrArg UInt16.toNat (Architecture.tag_of_ofTag htag)).trans h.tag, harch⟩
  · exact h.sp
  · exact h.pc
  · exact h.slots
  · exact hnormal
  · exact hstart
  · intro settings context hreaches hopen hpath κ σ kernel files source buffer k memory hroom
    have hrest := (Context.AtRest.ofSettings settings fun _ _ => True).reaches (fun _ _ _ _ _ => trivial) hreaches
    exact hrest.served hopen hpath hstart hroom kernel files source k memory

/-- **A record that makes a request can be captured.** Take any byte string that is long enough for a record, and any
    path. A request is made of it exactly when its ids are not too large, its architecture is known and its registers
    are in the current format; and whatever is made of it can be captured. -/
theorem records_make_capturable_requests (bs : Bytes) (hlength : Sample.size ≤ bs.length) (path : Path) :
    ((∃ request, (Sample.decode bs >>= (·.request path)) = .ok request) ↔
      numberAt bs 0 4 ≤ 0x7fffffff ∧ numberAt bs 4 4 ≤ 0x7fffffff ∧
        (numberAt bs 8 2 = 1 ∨ numberAt bs 8 2 = 2 ∨ numberAt bs 8 2 = 3) ∧ numberAt bs 10 2 = 1) ∧
    ∀ request, (Sample.decode bs >>= (·.request path)) = .ok request → ∃ a, Capturable bs path request a := by
  have hstands := Sample.standsIn_ofRecord hlength
  have hdecode : (Sample.decode bs >>= (·.request path)) = (Sample.ofRecord bs).request path := by
    rw [Sample.decode_of_length hlength]
    rfl
  rw [hdecode]
  have hversion : (Sample.ofRecord bs).version = registerFormat ↔ numberAt bs 10 2 = 1 := by
    rw [← hstands.version]
    exact UInt16.toNat_inj.symm
  constructor
  · rw [← hstands.pid, ← hstands.tid, ← hstands.tag, ← Architecture.ofTag_isOk, ← hversion]
    constructor
    · rintro ⟨request, hrequest⟩
      obtain ⟨hpid, htid, hformat, a, htag, -⟩ := Sample.request_eq_ok.mp hrequest
      exact ⟨hpid, htid, ⟨a, htag⟩, hformat⟩
    · rintro ⟨hpid, htid, ⟨a, htag⟩, hformat⟩
      exact ⟨_, Sample.request_eq_ok.mpr ⟨hpid, htid, hformat, a, htag, rfl⟩⟩
  · intro request hrequest
    obtain ⟨-, -, -, a, htag, rfl⟩ := Sample.request_eq_ok.mp hrequest
    exact ⟨a, hstands.capturable htag path⟩

/-- The record of a sample in the function of the bare file, with padding in it and after it. -/
def bareRecord : Bytes :=
  LittleEndian.ofNat 4 100 ++ LittleEndian.ofNat 4 101 ++ [1, 0, 1, 0] ++ [0xaa, 0xaa, 0xaa, 0xaa] ++
    LittleEndian.ofNat 8 5 ++ LittleEndian.ofNat 8 0x7000 ++ LittleEndian.ofNat 8 0x1010 ++ LittleEndian.ofNat 256 0 ++
    LittleEndian.ofNat 8 0 ++ LittleEndian.ofNat 16 0x65726162 ++ [0xff]

/-- It is captured with a snapshot of the stack. -/
theorem records_make_capturable_requests_bare :
    let request : Request := ⟨⟨"bare"⟩, { bareSample with version := 1 }, 100, 101⟩
    Sample.size ≤ bareRecord.length ∧ (Sample.decode bareRecord >>= (·.request ⟨"bare"⟩)) = .ok request ∧
      (bareCapture (.ofSettings ⟨1, false⟩) request (some bareStack.source) 4).report =
        ⟨.ok, 3, some (.noFunction 0x2000)⟩ ∧
      ∃ a, Capturable bareRecord ⟨"bare"⟩ request a := by
  intro request
  have hlength : Sample.size ≤ bareRecord.length := by decide +kernel
  have hrequest : (Sample.decode bareRecord >>= (·.request ⟨"bare"⟩)) = .ok request := by
    decide +kernel
  refine ⟨hlength, hrequest, by decide +kernel, ?_⟩
  exact (records_make_capturable_requests bareRecord hlength ⟨"bare"⟩).2 request hrequest

end Unwinder
