import Unwinder.Proofs.Capture.Outcomes
import Unwinder.Proofs.Target.Calls

/-!
# `Proofs.Capture.Attachment` — every thread that is stopped is let go

A capture may stop a thread to read its stack. A thread that is not let go again stays stopped for good, and one that is
let go twice may by then be another one. This module follows the calls of a capture to the system, whatever the answers
are and wherever the capture ends: there is one thread at most, and letting it go is the last thing that is asked.

## Contents
- **Walks.** `Carries`: what a walk makes of a session, with `walkWith_carries` and `capture_carries`.
- **Episodes.** `Episode` is the form of the calls of a capture that attaches; `episode_of_capture`, and `calls_eq_nil`
  for the captures that do not.
- **Balance.** `Balanced`, read off an episode by `Episode.balanced`.
- **Main statement.** `captures_detach`.
-/

namespace Unwinder

variable {κ σ : Type}

/-! ## Walks -/

/-- Reading through a session is reading of memory. -/
theorem Session.readsMemory_of_reads {kernel : Kernel κ} {before after : Session × κ × List SystemEvent}
    (h : ReadSteps (some (source kernel.logged)) before after) : ReadsMemory before after := by
  induction h with
  | refl => exact .refl _
  | tail _ hread ih =>
      obtain ⟨words, hwords, address, rfl⟩ := hread
      cases hwords
      exact ih.trans (word_reads kernel _ address _)

/-- **What a walk makes of a session** and of the record of calls: nothing where there is no session, and else memory is
    read through it. -/
inductive Carries (k : κ × List SystemEvent) : Option Session → Option Session → κ × List SystemEvent → Prop where
  | nothing : Carries k none none k
  | session {s s' : Session} {k' : κ × List SystemEvent} (hreads : Session.ReadsMemory (s, k) (s', k')) :
      Carries k (some s) (some s') k'

theorem walkWith_carries (kernel : Kernel κ) (m : Module) (path : Path) (source : Option (WordSource σ))
    (session : Option Session) (regs : RegisterSet) (buffer : List Frame) (k : κ × List SystemEvent) (memory : σ) :
    Carries k session (walkWith kernel.logged m path source session regs buffer k memory).session
      (walkWith kernel.logged m path source session regs buffer k memory).kernel := by
  cases session with
  | none =>
      cases source with
      | none => exact .nothing
      | some words => exact .nothing
  | some s =>
      cases source with
      | none =>
          apply Carries.session
          apply Session.readsMemory_of_reads
          exact walk_reads m path (some (Session.source kernel.logged)) regs buffer (s, k)
      | some words => exact .session (.refl _)

/-- The system after a walk and the end of its session. -/
theorem WalkEnd.captured_kernel (last : WalkEnd κ σ) (kernel : Kernel κ) (attempt : Option (Except Error Session))
    (context : Context) :
    (last.captured kernel attempt context).kernel = endSession kernel last.session last.kernel := by
  unfold captured
  cases last.walked.ending with
  | error e => rfl
  | ok ending => rfl

/-- **A capture that is not refused** asks for what attaching takes, for memory, and for the end of its session. -/
theorem capture_carries (context : Context) (kernel : Kernel κ) (files : FileSystem) (request : Request)
    (source : Option (WordSource σ)) (buffer : List Frame) (k : κ × List SystemEvent) (memory : σ)
    (haccepted : context.refusal? request buffer = none) :
    ∃ session k',
      Carries (context.attach kernel.logged request source.isSome buffer.length k).2
        (openedSession (context.attach kernel.logged request source.isSome buffer.length k).1) session k' ∧
      (context.capture kernel.logged files request source buffer k memory).kernel =
        endSession kernel.logged session k' := by
  obtain ⟨⟨pool, hpool⟩, -, -⟩ := accepted_of_refusal haccepted
  rw [capture_of_pool context kernel.logged files request source buffer k memory hpool haccepted]
  generalize context.attach kernel.logged request source.isSome buffer.length k = attempt
  rcases pool.lookup (Module.load files) request.module with ⟨e | ⟨m, path⟩, after⟩
  · -- the module is not there: the session is given up as it is
    refine ⟨openedSession attempt.1, attempt.2, ?_, rfl⟩
    cases openedSession attempt.1 with
    | none => exact .nothing
    | some s => exact .session (.refl _)
  · refine ⟨_, _, walkWith_carries kernel m path source (openedSession attempt.1) request.registers buffer attempt.2
      memory, ?_⟩
    exact WalkEnd.captured_kernel _ _ _ _

/-! ## Episodes -/

/-- **The calls of a capture that attaches** to a thread of a process: the attempt to trace the thread is refused, or the
    thread is traced and waited for, memory is read if it has stopped, and it is let go. -/
inductive Episode (pid tid : Int) : List SystemEvent → Prop where
  | refused (e : Errno) : Episode pid tid [⟨.attach tid, .error e⟩]
  | held {waited : Except Errno UInt32} {reads : List SystemEvent} {freed : Except Errno Unit}
      (hreads : ∀ event ∈ reads, event.call.isMemory pid = true)
      (hstopped : (∀ status, waited = .ok status → status &&& 0xff ≠ 0x7f) → reads = []) :
      Episode pid tid (⟨.attach tid, .ok ()⟩ :: ⟨.await tid, waited⟩ :: (reads ++ [⟨.detach tid, freed⟩]))

theorem Episode.ne_nil {pid tid : Int} {log : List SystemEvent} (h : Episode pid tid log) : log ≠ [] := by
  cases h with
  | refused e => simp
  | held hreads hstopped => simp

/-- The calls of an attempt to attach to a process: an episode if it fails, else the beginning of one. -/
theorem episode_of_attach (kernel : Kernel κ) {enabled : Bool} (henabled : enabled = true) {pid : Int} (hpid : 0 < pid)
    (tid : Int) (k : κ) :
    match Session.attach kernel.logged enabled pid tid (k, []) with
    | (.error _, after) => Episode pid (Session.threadOf pid tid) after.2
    | (.ok s, after) =>
        s = ⟨pid, Session.threadOf pid tid, .direct⟩ ∧ ∃ status : UInt32, status &&& 0xff = 0x7f ∧
          after.2 = [⟨.attach (Session.threadOf pid tid), .ok ()⟩,
            ⟨.await (Session.threadOf pid tid), .ok status⟩] := by
  have houtcome := Session.attach_outcome kernel.logged enabled pid tid (k, [])
  generalize Session.threadOf pid tid = thread at houtcome ⊢
  generalize Session.attach kernel.logged enabled pid tid (k, []) = outcome at houtcome ⊢
  cases houtcome with
  | misused cause hmisuse =>
      rcases hmisuse with hdisabled | hnone
      · rw [henabled] at hdisabled
        cases hdisabled
      · omega
  | refused hattach =>
      show Episode pid thread _
      rw [Kernel.record_of_call hattach]
      exact .refused _
  | @released k₁ k₂ waited fault hattach hawait hfails =>
      show Episode pid thread (k₂.2 ++ [⟨.detach thread, _⟩])
      rw [Kernel.record_of_call hawait, Kernel.record_of_call hattach]
      exact @Episode.held pid thread waited [] _ (by simp) fun _ => rfl
  | opened hattach hawait hstopped =>
      refine ⟨rfl, _, hstopped, ?_⟩
      rw [Kernel.record_of_call hawait, Kernel.record_of_call hattach]
      rfl

/-- A session that has been read through still holds its thread, and its end completes the episode. -/
theorem episode_of_reads {kernel : Kernel κ} {pid tid : Int} {status : UInt32} {k k' : κ × List SystemEvent}
    {s : Session} (hstopped : status &&& 0xff = 0x7f)
    (hbegun : k.2 = [⟨.attach tid, .ok ()⟩, ⟨.await tid, .ok status⟩])
    (hreads : Session.ReadsMemory (⟨pid, tid, .direct⟩, k) (s, k')) :
    Episode pid tid (endSession kernel.logged (some s) k').2 := by
  obtain ⟨freed, hfreed⟩ := Session.detach_of_attached kernel (hreads.held.trans rfl) k'
  obtain ⟨reads, hcalls, hmemory⟩ := hreads.calls
  rw [endSession_eq_dropSession]
  show Episode pid tid (s.detach kernel.logged k').2.2
  rw [hfreed, hcalls, hbegun, hreads.tid]
  exact .held hmemory fun hfails => absurd hstopped (hfails status rfl)

section Calls

variable (context : Context) (kernel : Kernel κ) (files : FileSystem) (request : Request)
  (source : Option (WordSource σ)) (buffer : List Frame) (k : κ) (memory : σ)

/-- An attempt to attach that fails has been an episode. -/
theorem episode_of_failure {e : Error} {after : κ × List SystemEvent}
    (hfails : context.attach kernel.logged request source.isSome buffer.length (k, []) = (some (.error e), after)) :
    Episode request.pid (Session.threadOf request.pid request.tid) after.2 := by
  unfold Context.attach at hfails
  split at hfails
  · rename_i hmay
    obtain ⟨-, hallowed, hprocess, -⟩ := mayAttach_iff.mp hmay
    have hattach := episode_of_attach kernel hallowed hprocess request.tid k
    rcases hsession : Session.attach kernel.logged context.settings.attaches request.pid request.tid (k, []) with
      ⟨e' | s, after'⟩
    · rw [hsession] at hattach hfails
      cases hfails
      exact hattach
    · rw [hsession] at hfails
      cases hfails
  · cases hfails

/-- **The calls of a capture are an episode** when it may attach and is not refused. -/
theorem episode_of_capture (haccepted : context.refusal? request buffer = none)
    (hmay : MayAttach context request source buffer.length) :
    Episode request.pid (Session.threadOf request.pid request.tid)
      (context.capture kernel.logged files request source buffer (k, []) memory).kernel.2 := by
  obtain ⟨session, k', hcarries, hended⟩ :=
    capture_carries context kernel files request source buffer (k, []) memory haccepted
  rw [hended]
  have hattach := episode_of_attach kernel hmay.allowed hmay.process request.tid k
  unfold Context.attach at hcarries
  rw [if_pos (mayAttach_iff.mpr hmay)] at hcarries
  rcases hsession : Session.attach kernel.logged context.settings.attaches request.pid request.tid (k, []) with
    ⟨e | s, after⟩
  · rw [hsession] at hattach hcarries
    cases hcarries
    exact hattach
  · rw [hsession] at hattach hcarries
    obtain ⟨rfl, status, hstopped, hbegun⟩ := hattach
    cases hcarries with
    | session hreads => exact episode_of_reads hstopped hbegun hreads

/-- Otherwise it makes no calls. -/
theorem calls_eq_nil (hnot : ¬ (context.refusal? request buffer = none ∧ MayAttach context request source buffer.length)) :
    (context.capture kernel.logged files request source buffer (k, []) memory).kernel.2 = [] := by
  cases hrefusal : context.refusal? request buffer with
  | some cause =>
      rw [capture_of_refusal context kernel.logged files request source buffer (k, []) memory hrefusal]
  | none =>
      obtain ⟨session, k', hcarries, hended⟩ :=
        capture_carries context kernel files request source buffer (k, []) memory hrefusal
      have hmay : ¬ MayAttach context request source buffer.length := fun hmay => hnot ⟨hrefusal, hmay⟩
      unfold Context.attach at hcarries
      rw [if_neg fun htried => hmay (mayAttach_iff.mp htried)] at hcarries
      rw [hended]
      cases hcarries
      rfl

end Calls

/-! ## Balance -/

/-- The thread that an event has begun to trace. -/
def SystemEvent.traced? : SystemEvent → Option Int
  | ⟨.attach tid, .ok _⟩ => some tid
  | _ => none

/-- The thread that an event lets go. -/
def SystemEvent.released? : SystemEvent → Option Int
  | ⟨.detach tid, _⟩ => some tid
  | _ => none

/-- **Balance** of the calls about a thread. -/
structure Balanced (tid : Int) (log : List SystemEvent) : Prop where
  /-- No other thread is asked for. -/
  target : ∀ event ∈ log, ∀ thread, event.call = .attach thread → thread = tid
  /-- The threads let go are those that were traced. -/
  settled : log.filterMap SystemEvent.released? = log.filterMap SystemEvent.traced?
  once : (log.filterMap SystemEvent.traced?).length ≤ 1
  /-- Letting a thread go comes after tracing it, and nothing comes after that. -/
  last : ∀ front event rest, log = front ++ event :: rest → event.released?.isSome →
    (∃ before ∈ front, before.traced? = event.released?) ∧ rest = []
  /-- A thread is let go at once if waiting for it fails, or if the low byte of its status is not that of a stop. -/
  unstopped : ∀ front thread waited rest, log = front ++ ⟨.await thread, waited⟩ :: rest →
    (∀ status, waited = .ok status → status &&& 0xff ≠ 0x7f) → ∃ freed, rest = [⟨.detach thread, freed⟩]

theorem SystemEvent.quiet_of_memory {event : SystemEvent} {pid : Int} (h : event.call.isMemory pid = true) :
    event.traced? = none ∧ event.released? = none := by
  obtain ⟨call, answer⟩ := event
  cases call with
  | attach | await | detach => cases h
  | readRemote | openMemory | readMemory => exact ⟨rfl, rfl⟩

/-- Where only the last event lets a thread go, one that does is the last. -/
theorem last_of_released {before front rest : List SystemEvent} {final event : SystemEvent}
    (hquiet : ∀ e ∈ before, e.released? = none) (hlog : before ++ [final] = front ++ event :: rest)
    (hreleased : event.released?.isSome) : front = before ∧ event = final ∧ rest = [] := by
  rcases List.eq_nil_or_concat rest with rfl | ⟨rest, last, rfl⟩
  · obtain ⟨hfront, hevent⟩ := List.append_inj' hlog rfl
    cases hevent
    exact ⟨hfront.symm, rfl, rfl⟩
  · have hbefore : before ++ [final] = (front ++ event :: rest) ++ [last] := by
      rw [hlog, List.concat_eq_append, List.append_assoc, List.cons_append]
    obtain ⟨hbefore, -⟩ := List.append_inj' hbefore rfl
    rw [hquiet event (by rw [hbefore]; simp)] at hreleased
    cases hreleased

section Held

variable {pid tid : Int} {waited : Except Errno UInt32} {reads : List SystemEvent} {freed : Except Errno Unit}
  (hreads : ∀ event ∈ reads, event.call.isMemory pid = true)

include hreads

/-- One thread is traced. -/
theorem traced_held :
    List.filterMap SystemEvent.traced?
      (⟨.attach tid, .ok ()⟩ :: ⟨.await tid, waited⟩ :: (reads ++ [⟨.detach tid, freed⟩])) = [tid] := by
  show tid :: (reads ++ [(⟨.detach tid, freed⟩ : SystemEvent)]).filterMap SystemEvent.traced? = [tid]
  have hquiet : reads.filterMap SystemEvent.traced? = [] := by
    rw [List.filterMap_eq_nil_iff]
    intro event hevent
    exact (SystemEvent.quiet_of_memory (hreads event hevent)).1
  rw [List.filterMap_append, hquiet]
  rfl

/-- The same thread is let go. -/
theorem released_held :
    List.filterMap SystemEvent.released?
      (⟨.attach tid, .ok ()⟩ :: ⟨.await tid, waited⟩ :: (reads ++ [⟨.detach tid, freed⟩])) = [tid] := by
  show (reads ++ [(⟨.detach tid, freed⟩ : SystemEvent)]).filterMap SystemEvent.released? = [tid]
  have hquiet : reads.filterMap SystemEvent.released? = [] := by
    rw [List.filterMap_eq_nil_iff]
    intro event hevent
    exact (SystemEvent.quiet_of_memory (hreads event hevent)).2
  rw [List.filterMap_append, hquiet]
  rfl

/-- **A thread that is held is let go at the end**, and at once if it is not seen to stop. -/
theorem balanced_held (hstopped : (∀ status, waited = .ok status → status &&& 0xff ≠ 0x7f) → reads = []) :
    Balanced tid (⟨.attach tid, .ok ()⟩ :: ⟨.await tid, waited⟩ :: (reads ++ [⟨.detach tid, freed⟩])) := by
  refine ⟨?_, (released_held hreads).trans (traced_held hreads).symm, ?_, ?_, ?_⟩
  · intro event hevent thread hattach
    simp only [List.mem_cons, List.mem_append, List.not_mem_nil, or_false] at hevent
    rcases hevent with rfl | rfl | hread | rfl
    · cases hattach
      rfl
    · cases hattach
    · have hmemory := hreads event hread
      rw [hattach] at hmemory
      cases hmemory
    · cases hattach
  · rw [traced_held hreads]
    exact Nat.le_refl 1
  · intro front event rest hlog hrelease
    have hquiet : ∀ e ∈ (⟨.attach tid, .ok ()⟩ :: ⟨.await tid, waited⟩ :: reads : List SystemEvent),
        e.released? = none := by
      simp only [List.mem_cons]
      rintro e (rfl | rfl | hread)
      · rfl
      · rfl
      · exact (SystemEvent.quiet_of_memory (hreads e hread)).2
    obtain ⟨rfl, rfl, rfl⟩ := last_of_released hquiet hlog hrelease
    exact ⟨⟨_, List.mem_cons_self, rfl⟩, rfl⟩
  · intro front thread waited' rest hlog hfails
    -- the thread is waited for once, right after it has been traced
    rcases front with _ | ⟨first, _ | ⟨second, front⟩⟩
    · cases hlog
    · cases hlog
      rw [hstopped hfails]
      exact ⟨freed, rfl⟩
    · simp only [List.cons_append, List.cons.injEq] at hlog
      have hawait : (⟨.await thread, waited'⟩ : SystemEvent) ∈ reads ++ [⟨.detach tid, freed⟩] := by
        rw [hlog.2.2]
        simp
      rcases List.mem_append.mp hawait with hread | hdetach
      · cases hreads _ hread
      · cases List.mem_singleton.mp hdetach

end Held

theorem balanced_nil (tid : Int) : Balanced tid [] := by
  refine ⟨by simp, rfl, Nat.zero_le _, ?_, ?_⟩
  · intro front event rest hlog
    simp at hlog
  · intro front thread waited rest hlog
    simp at hlog

/-- **An episode is balanced.** -/
theorem Episode.balanced {pid tid : Int} {log : List SystemEvent} (h : Episode pid tid log) : Balanced tid log := by
  cases h with
  | refused e =>
      have hmem : ∀ {front rest : List SystemEvent} {event : SystemEvent},
          [⟨.attach tid, .error e⟩] = front ++ event :: rest → event = ⟨.attach tid, .error e⟩ := by
        intro front rest event hlog
        rw [← List.mem_singleton, hlog]
        simp
      refine ⟨?_, rfl, Nat.zero_le _, ?_, ?_⟩
      · intro event hevent thread hattach
        rw [List.mem_singleton.mp hevent] at hattach
        cases hattach
        rfl
      · intro front event rest hlog hreleased
        rw [hmem hlog] at hreleased
        cases hreleased
      · intro front thread waited rest hlog
        cases hmem hlog
  | held hreads hstopped => exact balanced_held hreads hstopped

/-! ## Main statement -/

/-- **Every thread that a capture stops is let go.** Whatever is captured, in whatever state the context is and whatever
    the system answers:
    * the calls of the capture are balanced, wherever it ends: they are about one thread, which is let go as often as it
      was traced, once at most, and after everything else;
    * there are any exactly when the capture is not refused and may attach;
    * if attaching fails, the calls made until then are balanced already. -/
theorem captures_detach (context : Context) (kernel : Kernel κ) (files : FileSystem) (request : Request)
    (source : Option (WordSource σ)) (buffer : List Frame) (k : κ) (memory : σ) :
    let calls := (context.capture kernel.logged files request source buffer (k, []) memory).kernel.2
    Balanced (Session.threadOf request.pid request.tid) calls ∧
      (calls ≠ [] ↔
        context.refusal? request buffer = none ∧ MayAttach context request source buffer.length) ∧
      ∀ e after, context.attach kernel.logged request source.isSome buffer.length (k, []) = (some (.error e), after) →
        Balanced (Session.threadOf request.pid request.tid) after.2 := by
  intro calls
  have hfailed : ∀ e after,
      context.attach kernel.logged request source.isSome buffer.length (k, []) = (some (.error e), after) →
        Balanced (Session.threadOf request.pid request.tid) after.2 := by
    intro e after hfails
    exact (episode_of_failure context kernel request source buffer k hfails).balanced
  by_cases hmay : context.refusal? request buffer = none ∧ MayAttach context request source buffer.length
  · have hepisode := episode_of_capture context kernel files request source buffer k memory hmay.1 hmay.2
    exact ⟨hepisode.balanced, ⟨fun _ => hmay, fun _ => hepisode.ne_nil⟩, hfailed⟩
  · have hnone : calls = [] := calls_eq_nil context kernel files request source buffer k memory hmay
    rw [hnone]
    exact ⟨balanced_nil _, ⟨fun hsome => absurd rfl hsome, fun hsome => absurd hsome hmay⟩, hfailed⟩

/-- A kernel on which every thread can be traced and has a status, and no memory can be read. -/
def statusKernel (status : UInt32) : Kernel Unit where
  call
    | .attach _, _ => (.ok (), ())
    | .await _, _ => (.ok status, ())
    | .detach _, _ => (.ok (), ())
    | .readRemote _ _ _, _ => (.error .noProcess, ())
    | .openMemory _, _ => (.error .noEntry, ())
    | .readMemory _ _ _, _ => (.error .inputOutput, ())

/-- The memory of a process cannot be read, neither directly nor as a file, and its thread is let go. Another process is
    not there, so that there is nothing to let go. A thread that goes on instead of stopping is let go at once. -/
theorem captures_detach_unreadable :
    let start := Context.ofSettings ⟨1, true⟩
    let calls := (start.capture LiveProcess.kernel.logged bareFiles { bareRequest with pid := 100 }
      (none : Option (WordSource Unit)) (List.replicate 4 .blank) (bareProcess, []) ()).kernel.2
    let absent : List SystemEvent := [⟨.attach 5, .error .noProcess⟩]
    let goesOn := (start.capture (statusKernel 0xffff).logged bareFiles { bareRequest with pid := 100 }
      (none : Option (WordSource Unit)) (List.replicate 4 .blank) ((), []) ()).kernel.2
    let released : List SystemEvent := [⟨.attach 100, .ok ()⟩, ⟨.await 100, .ok 0xffff⟩, ⟨.detach 100, .ok ()⟩]
    (calls.map (·.call) =
        [.attach 100, .await 100, .readRemote 100 0x7000 8, .openMemory 100, .readMemory 100 0x7000 8, .detach 100] ∧
      Balanced 100 calls) ∧
      (start.attach LiveProcess.kernel.logged { bareRequest with pid := 5 } false 4 (bareProcess, []) =
          (some (.error (.io (.attaching 5) (.errno .noProcess))), bareProcess, absent) ∧
        Balanced 5 absent) ∧
      goesOn.map (·.call) = [.attach 100, .await 100, .detach 100] ∧ Balanced 100 goesOn ∧
      start.attach (statusKernel 0xffff).logged { bareRequest with pid := 100 } false 4 ((), []) =
        (some (.error (.io (.awaiting 100) (.notStopped 100 0xffff))), (), released) ∧
      Balanced 100 released := by
  intro start calls absent goesOn released
  have hlive := captures_detach start LiveProcess.kernel bareFiles { bareRequest with pid := 100 }
    (none : Option (WordSource Unit)) (List.replicate 4 .blank) bareProcess ()
  have hgone := captures_detach start LiveProcess.kernel bareFiles { bareRequest with pid := 5 }
    (none : Option (WordSource Unit)) (List.replicate 4 .blank) bareProcess ()
  have hfails : start.attach LiveProcess.kernel.logged { bareRequest with pid := 5 } false 4 (bareProcess, []) =
      (some (.error (.io (.attaching 5) (.errno .noProcess))), bareProcess, absent) := rfl
  have hgoesOn := captures_detach start (statusKernel 0xffff) bareFiles { bareRequest with pid := 100 }
    (none : Option (WordSource Unit)) (List.replicate 4 .blank) () ()
  have hreleased : start.attach (statusKernel 0xffff).logged { bareRequest with pid := 100 } false 4 ((), []) =
      (some (.error (.io (.awaiting 100) (.notStopped 100 0xffff))), (), released) := rfl
  exact ⟨⟨by decide +kernel, hlive.1⟩, ⟨hfails, hgone.2.2 _ _ hfails⟩, by decide +kernel, hgoesOn.1, hreleased,
    hgoesOn.2.2 _ _ hreleased⟩

end Unwinder
