import Unwinder.Proofs.Capture.Outcomes

/-!
# `Proofs.Capture.Room` — more room shows more of the same stack

Two captures that differ in the length of their buffers only see the same stack. The shorter buffer shows the front of
what the longer one shows, and costs a front of its reads; where it is full, it hides why the longer one ended.

## Contents
- **Trails.** `CutShort` compares two trails from one frame, and `trail_of_le` shows that less room cuts a trail short.
- **Main statement.** `capture_with_less_room`.
-/

namespace Unwinder

variable {κ σ : Type}

/-! ## Trails -/

/-- **A trail cut short** after `room` callers: what was left out is what comes after them. -/
structure CutShort (source : Option (WordSource σ)) (room : Nat) (short long : Trail σ) : Prop where
  callers : short.callers = long.callers.take room
  ending : short.ending = if room ≤ long.callers.length then .bufferFull else long.ending
  reads : ReadSteps source short.memory long.memory

/-- **Less room cuts a trail short.** -/
theorem trail_of_le (m : Module) (a : Architecture) (source : Option (WordSource σ)) {less more : Nat}
    (hle : less ≤ more) (regs : RegisterSet) (memory : σ) :
    CutShort source less (m.trail a source less regs memory) (m.trail a source more regs memory) := by
  induction less generalizing more regs memory with
  | zero =>
      refine ⟨by rw [List.take_zero]; rfl, ?_, ?_⟩
      · rw [if_pos (Nat.zero_le _)]
        rfl
      · exact trail_reads m a source more regs memory
  | succ less ih =>
      obtain ⟨more, rfl⟩ : ∃ room, more = room + 1 := ⟨more - 1, by omega⟩
      rw [Module.trail, Module.trail]
      rcases m.advance a source regs memory with ⟨ending | next, memory'⟩
      · -- both end here
        refine ⟨rfl, ?_, .refl⟩
        show ending = if less + 1 ≤ 0 then .bufferFull else ending
        rw [if_neg (Nat.not_succ_le_zero less)]
      · obtain ⟨hcallers, hending, hreads⟩ := ih (Nat.le_of_succ_le_succ hle) next memory'
        refine ⟨?_, ?_, hreads⟩
        · show next :: _ = (next :: _).take (less + 1)
          rw [List.take_succ_cons, hcallers]
        · show (m.trail a source less next memory').ending =
            if less + 1 ≤ (m.trail a source more next memory').callers.length + 1 then .bufferFull
            else (m.trail a source more next memory').ending
          rw [hending]
          simp only [Nat.add_le_add_iff_right]

/-- **A walk cut short** by its buffer. -/
theorem CutShort.walked {source : Option (WordSource σ)} {room : Nat} {few many : Trail σ}
    (h : CutShort source room few many) (path : Path) (frame : Frame) (short long : List Frame) :
    (few.walked path frame short).written = min (room + 1) (many.walked path frame long).written ∧
      (few.walked path frame short).frames.take (few.walked path frame short).written <+:
        (many.walked path frame long).frames.take (many.walked path frame long).written ∧
      few.ending = if room + 1 ≤ (many.walked path frame long).written then .bufferFull else many.ending := by
  refine ⟨?_, ?_, ?_⟩
  · show few.callers.length + 1 = min (room + 1) (many.callers.length + 1)
    rw [h.callers, List.length_take, Nat.add_min_add_right]
  · rw [Trail.take_walked, Trail.take_walked, h.callers]
    exact List.cons_prefix_cons.mpr ⟨rfl, (List.take_prefix _ _).map _⟩
  · show few.ending = if room + 1 ≤ many.callers.length + 1 then .bufferFull else many.ending
    rw [h.ending]
    simp only [Nat.add_le_add_iff_right]

/-! ## Main statement -/

/-- Buffers with room are refused alike. -/
theorem refusal?_of_room (context : Context) (request : Request) {short long : List Frame} (hshort : 1 ≤ short.length)
    (hlong : 1 ≤ long.length) : context.refusal? request short = context.refusal? request long := by
  have hempty : short.isEmpty = long.isEmpty := by
    cases short with
    | nil => cases hshort
    | cons _ _ =>
        cases long with
        | nil => cases hlong
        | cons _ _ => rfl
  rw [Context.refusal?, Context.refusal?, hempty]

/-- **More room only extends the stack.** Take any context and any request that comes with a memory, such as a snapshot,
    or concerns no process, and two buffers of which the shorter one has room. Captures into them either both fail, with
    the same status and nothing written, or both succeed. Then the shorter buffer holds as many frames as it can of
    those in the longer one, for reads that are the first of the others; and if it is not full for less, its walk ended
    for the same reason. -/
theorem capture_with_less_room (context : Context) (kernel : Kernel κ) (files : FileSystem) (request : Request)
    (source : Option (WordSource σ)) (hmemory : source = none → request.pid ≤ 0) {short long : List Frame}
    (hroom : 1 ≤ short.length) (hle : short.length ≤ long.length) (k : κ) (memory : σ) :
    let less := context.capture kernel files request (source.map (·.logged)) short k (memory, [])
    let more := context.capture kernel files request (source.map (·.logged)) long k (memory, [])
    (less.report.status ≠ .ok ∧ more.report.status = less.report.status ∧
      less.report.written = 0 ∧ more.report.written = 0 ∧ less.frames = short ∧ more.frames = long) ∨
    (less.report.status = .ok ∧ more.report.status = .ok ∧
      less.report.written = min short.length more.report.written ∧
      less.frames.take less.report.written <+: more.frames.take more.report.written ∧
      less.memory.2 <+: more.memory.2 ∧
      less.report.ending = if short.length ≤ more.report.written then some .bufferFull else more.report.ending) := by
  have hmemory' : source.map (·.logged) = none → request.pid ≤ 0 := fun h => hmemory (Option.map_eq_none_iff.mp h)
  have halike := refusal?_of_room context request hroom (Nat.le_trans hroom hle)
  cases hrefusal : context.refusal? request short with
  | some cause =>
      rw [capture_of_refusal _ _ _ _ _ _ _ _ hrefusal, capture_of_refusal _ _ _ _ _ _ _ _ (halike ▸ hrefusal)]
      exact .inl ⟨(Error.misuse cause).status_ne_ok, rfl, rfl, rfl, rfl, rfl⟩
  | none =>
      obtain ⟨⟨pool, hpool⟩, -, -⟩ := accepted_of_refusal hrefusal
      rw [capture_of_memory _ _ _ _ _ _ _ _ hpool hrefusal hmemory',
        capture_of_memory _ _ _ _ _ _ _ _ hpool (halike ▸ hrefusal) hmemory']
      rcases pool.lookup (Module.load files) request.module with ⟨e | ⟨m, path⟩, after⟩
      · exact .inl ⟨e.status_ne_ok, rfl, rfl, rfl, rfl, rfl⟩
      · cases short with
        | nil => cases hroom
        | cons slot short =>
            cases long with
            | nil => cases hle
            | cons slot' long =>
                simp only [walk_cons]
                rcases request.registers.start with e | ⟨a, regs, frame⟩
                · exact .inl ⟨e.status_ne_ok, rfl, rfl, rfl, rfl, rfl⟩
                · have hcut := trail_of_le m a (source.map (·.logged)) (Nat.le_of_succ_le_succ hle) regs (memory, [])
                  obtain ⟨hwritten, hframes, hending⟩ := hcut.walked path frame short long
                  refine .inr ⟨rfl, rfl, hwritten, hframes, prefix_of_reads hcut.reads, ?_⟩
                  exact (congrArg some hending).trans (apply_ite some _ _ _)

/-- Room for two of the three frames of a stack. -/
theorem capture_with_less_room_two_of_three :
    (some bareStack.source = none → bareRequest.pid ≤ 0) ∧ 1 ≤ (List.replicate 2 Frame.blank).length ∧
      (List.replicate 2 Frame.blank).length ≤ (List.replicate 4 Frame.blank).length ∧
      let less := bareCapture (.ofSettings ⟨1, false⟩) bareRequest (some bareStack.source) 2
      let more := bareCapture (.ofSettings ⟨1, false⟩) bareRequest (some bareStack.source) 4
      less.report = ⟨.ok, 2, some .bufferFull⟩ ∧ more.report = ⟨.ok, 3, some (.noFunction 0x2000)⟩ ∧
        less.frames.take 2 <+: more.frames.take 3 ∧ less.memory.2 <+: more.memory.2 := by
  have hmemory : some bareStack.source = none → bareRequest.pid ≤ 0 := fun h => absurd h (Option.some_ne_none _)
  have hroom : 1 ≤ (List.replicate 2 Frame.blank).length := by decide
  have hle : (List.replicate 2 Frame.blank).length ≤ (List.replicate 4 Frame.blank).length := by decide
  have hless : (bareCapture (.ofSettings ⟨1, false⟩) bareRequest (some bareStack.source) 2).report =
      ⟨.ok, 2, some .bufferFull⟩ := by decide +kernel
  have hmore : (bareCapture (.ofSettings ⟨1, false⟩) bareRequest (some bareStack.source) 4).report =
      ⟨.ok, 3, some (.noFunction 0x2000)⟩ := by decide +kernel
  refine ⟨hmemory, hroom, hle, hless, hmore, ?_⟩
  have hcaptures := capture_with_less_room (.ofSettings ⟨1, false⟩) LiveProcess.kernel bareFiles bareRequest
    (some bareStack.source) hmemory hroom hle bareProcess ()
  unfold bareCapture at hless hmore ⊢
  simp only [hless, hmore] at hcaptures
  rcases hcaptures with hfailed | ⟨-, -, -, hframes, hreads, -⟩
  · exact absurd rfl hfailed.1
  · exact ⟨hframes, hreads⟩

end Unwinder
