import Unwinder.Proofs.Capture.Outcomes

/-!
# `Proofs.Capture.Histories` — contexts over many captures

A context outlives captures, and with it the pool of modules. Whatever was captured before, by whomever and with
whatever success, the pool is at rest again: each capture takes one module at most and gives it back.

## Contents
- **Histories.** `Context.Step`, a capture or the end of a context, and `Context.Reaches`, any number of them.
- **Rest.** `Context.AtRest`, kept by every step (`AtRest.step`) and so by every history (`AtRest.reaches`).
- **Shut down.** `pool_of_reaches_shutDown`: a context that has been shut down stays so.
- **Modules.** `Module.path_of_load`: a module knows the path it was loaded from.
-/

namespace Unwinder

/-- Every pool is asked for a slot at least. -/
theorem Settings.slots_pos (settings : Settings) : 0 < max settings.capacity 1 :=
  Nat.lt_of_lt_of_le Nat.one_pos (Nat.le_max_right _ _)

namespace Context

/-! ## Histories -/

/-- **What may happen to a context**: a capture, whatever its caller brings along and whatever the system answers, or
    its end. Only some files and requests may be `Allowed`. -/
inductive Step (Allowed : FileSystem → Request → Prop) (context : Context) : Context → Prop where
  | capture {κ σ : Type} (kernel : Kernel κ) (files : FileSystem) (request : Request) (source : Option (WordSource σ))
      (buffer : List Frame) (k : κ) (memory : σ) (hallowed : Allowed files request) :
      Step Allowed context (context.capture kernel files request source buffer k memory).context
  | shutDown : Step Allowed context context.shutDown

/-- The contexts that come after one. -/
abbrev Reaches (Allowed : FileSystem → Request → Prop) : Context → Context → Prop :=
  Relation.ReflTransGen (Step Allowed)

/-- No restriction on what is captured. -/
def Anything : FileSystem → Request → Prop := fun _ _ => True

/-- The context after a capture. -/
theorem capture_context {κ σ : Type} (context : Context) (kernel : Kernel κ) (files : FileSystem) (request : Request)
    (source : Option (WordSource σ)) (buffer : List Frame) (k : κ) (memory : σ) :
    (context.capture kernel files request source buffer k memory).context = context ∨
      ∃ pool, context.pool = some pool ∧ (context.capture kernel files request source buffer k memory).context =
        { context with pool := some (pool.lookup (Module.load files) request.module).2 } := by
  cases hrefusal : context.refusal? request buffer with
  | some cause =>
      rw [capture_of_refusal context kernel files request source buffer k memory hrefusal]
      exact .inl rfl
  | none =>
      obtain ⟨⟨pool, hpool⟩, -, -⟩ := accepted_of_refusal hrefusal
      refine .inr ⟨pool, hpool, ?_⟩
      rw [capture_of_pool context kernel files request source buffer k memory hpool hrefusal]
      rcases pool.lookup (Module.load files) request.module with ⟨e | ⟨m, path⟩, after⟩
      · rfl
      · simp only [WalkEnd.captured]
        split <;> rfl

/-! ## Rest -/

/-- **Rest**: a context whose pool, if it still has one, is at rest, with as many slots as were asked for and at least
    one. -/
structure AtRest (settings : Settings) (Known : Path → Module → Prop) (context : Context) : Prop where
  configured : context.settings = settings
  rested : ∀ pool, context.pool = some pool → pool.AtRest (max settings.capacity 1) Known

variable {settings : Settings} {Known : Path → Module → Prop} {Allowed : FileSystem → Request → Prop}

theorem AtRest.ofSettings (settings : Settings) (Known : Path → Module → Prop) :
    (ofSettings settings).AtRest settings Known := by
  refine ⟨rfl, ?_⟩
  intro pool hpool
  cases hpool
  exact .ofCapacity _ _

/-- **Every step keeps a context at rest.** -/
theorem AtRest.step {context after : Context} (h : context.AtRest settings Known)
    (hload : ∀ files request m, Allowed files request → Module.load files request.module = .ok m →
      Known request.module m) (hstep : Step Allowed context after) : after.AtRest settings Known := by
  cases hstep with
  | capture kernel files request source buffer k memory hallowed =>
      rcases context.capture_context kernel files request source buffer k memory with hsame | ⟨pool, hpool, hafter⟩
      · rw [hsame]
        exact h
      · obtain ⟨hrest, -⟩ :=
          (h.rested pool hpool).lookup settings.slots_pos fun m => hload files request m hallowed
        rw [hafter]
        refine ⟨h.configured, ?_⟩
        intro pool' hpool'
        rw [← Option.some.inj hpool']
        exact hrest
  | shutDown =>
      refine ⟨h.configured, ?_⟩
      intro pool hpool
      cases hpool

/-- **A context is at rest after every history.** -/
theorem AtRest.reaches {context after : Context} (h : context.AtRest settings Known)
    (hload : ∀ files request m, Allowed files request → Module.load files request.module = .ok m →
      Known request.module m) (hreaches : Reaches Allowed context after) : after.AtRest settings Known := by
  induction hreaches with
  | refl => exact h
  | tail _ hstep ih => exact ih.step hload hstep

/-! ## Shut down -/

/-- **A context that has been shut down stays so.** -/
theorem pool_of_reaches_shutDown {context later : Context} (h : Reaches Allowed context.shutDown later) :
    later.pool = none := by
  induction h with
  | refl => rfl
  | tail _ hstep ih =>
      cases hstep with
      | capture kernel files request source buffer k memory _ =>
          rcases capture_context _ kernel files request source buffer k memory with hsame | ⟨pool, hpool, -⟩
          · rw [hsame]
            exact ih
          · rw [ih] at hpool
            cases hpool
      | shutDown => rfl

end Context

/-! ## Modules -/

/-- An image knows the path it was read from. -/
theorem Image.path_of_ofBytes {path : Path} {bs : Bytes} {image : Image} (h : ofBytes path bs = .ok image) :
    image.path = path := by
  unfold ofBytes at h
  simp only [bind, Except.bind, pure, Except.pure, throw, throwThe, MonadExceptOf.throw] at h
  -- every way out but the last refuses the file
  repeat' split at h
  all_goals cases h
  rfl

theorem Image.path_of_load {files : FileSystem} {path : Path} {image : Image} (h : load files path = .ok image) :
    image.path = path := by
  unfold load at h
  split at h
  · cases h
  · cases h
  · exact path_of_ofBytes h

/-- **A module knows the path it was loaded from.** -/
theorem Module.path_of_load {files : FileSystem} {path : Path} {m : Module} (h : load files path = .ok m) :
    m.path = path := by
  unfold load at h
  cases himage : Image.load files path with
  | error e => simp [bind, Except.bind, himage] at h
  | ok image =>
      cases hindex : Cfi.FrameIndex.ofImage image with
      | error e => simp [bind, Except.bind, himage, hindex] at h
      | ok index =>
          simp only [bind, Except.bind, himage, hindex, pure, Except.pure, Except.ok.injEq] at h
          rw [← h]
          exact Image.path_of_load himage

end Unwinder
