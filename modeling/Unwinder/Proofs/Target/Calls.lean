import Unwinder.Target.Session

/-!
# `Proofs.Target.Calls` — what a session asks of the system

A session asks the system to stop a thread, to read memory, and to let the thread go. This module says what each
operation of a session asks, whatever the answers are: attaching has five outcomes, reading asks for memory only, and
of any number of attempts to let the thread go the first one asks for it.

## Contents
- **Records.** `SystemEvent`, a call with its answer; `Kernel.logged` keeps them in order.
- **Beginning.** `Attaches`, the outcomes of `Session.attach`.
- **Reading.** `ReadsMemory`, with `Session.read_reads`.
- **Ending.** `Session.detach_of_attached`.
-/

namespace Unwinder

variable {κ : Type}

/-! ## Records -/

/-- A call to the system, with its answer. -/
structure SystemEvent where
  call : SystemCall
  answer : call.Answer

/-- The same kernel, keeping a record of the calls. -/
def Kernel.logged (kernel : Kernel κ) : Kernel (κ × List SystemEvent) where
  call c state :=
    let (answer, after) := kernel.call c state.1
    (answer, after, state.2 ++ [⟨c, answer⟩])

theorem Kernel.record_of_call {kernel : Kernel κ} {c : SystemCall} {state after : κ × List SystemEvent}
    {answer : c.Answer} (h : kernel.logged.call c state = (answer, after)) :
    after.2 = state.2 ++ [⟨c, answer⟩] := by
  cases h
  rfl

/-- Whether a call asks for memory of a process. -/
def SystemCall.isMemory (pid : Int) : SystemCall → Bool
  | .readRemote id _ _ => id = pid
  | .openMemory id => id = pid
  | .readMemory id _ _ => id = pid
  | _ => false

namespace Session

/-! ## Beginning -/

/-- The thread to stop: the one asked for, or the main thread of the process. -/
def threadOf (pid tid : Int) : Int := if tid ≤ 0 then pid else tid

/-- **Outcomes of attaching** to a thread of a process, with the system after it. -/
inductive Attaches (kernel : Kernel κ) (enabled : Bool) (pid tid : Int) (k : κ) : Except Error Session × κ → Prop where
  /-- The caller asks for what is switched off, or for no process. -/
  | misused (cause : Misuse) (hmisuse : enabled = false ∨ pid ≤ 0) :
      Attaches kernel enabled pid tid k (.error (.misuse cause), k)
  /-- The thread cannot be traced. -/
  | refused {e : Errno} {k₁ : κ} (hattach : kernel.call (.attach tid) k = (.error e, k₁)) :
      Attaches kernel enabled pid tid k (.error (.io (.attaching tid) (.errno e)), k₁)
  /-- The thread is traced, but is not seen to stop, and is let go. -/
  | released {k₁ k₂ : κ} {waited : Except Errno UInt32} {fault : IoFault}
      (hattach : kernel.call (.attach tid) k = (.ok (), k₁)) (hawait : kernel.call (.await tid) k₁ = (waited, k₂))
      (hfails : ∀ status, waited = .ok status → status &&& 0xff ≠ 0x7f) :
      Attaches kernel enabled pid tid k (.error (.io (.awaiting tid) fault), letGo kernel tid k₂)
  /-- The thread has stopped. -/
  | opened {k₁ k₂ : κ} {status : UInt32} (hattach : kernel.call (.attach tid) k = (.ok (), k₁))
      (hawait : kernel.call (.await tid) k₁ = (.ok status, k₂)) (hstopped : status &&& 0xff = 0x7f) :
      Attaches kernel enabled pid tid k (.ok ⟨pid, tid, .direct⟩, k₂)

theorem attach_outcome (kernel : Kernel κ) (enabled : Bool) (pid tid : Int) (k : κ) :
    Attaches kernel enabled pid (threadOf pid tid) k (attach kernel enabled pid tid k) := by
  unfold attach threadOf
  by_cases hdisabled : (!enabled) = true
  · rw [if_pos hdisabled]
    exact .misused _ (.inl (by simpa using hdisabled))
  rw [if_neg hdisabled]
  by_cases hpid : pid ≤ 0
  · rw [if_pos hpid]
    exact .misused _ (.inr hpid)
  rw [if_neg hpid]
  dsimp only
  generalize (if tid ≤ 0 then pid else tid) = thread
  rcases hattach : kernel.call (.attach thread) k with ⟨e | ⟨⟨⟩⟩, k₁⟩
  · exact .refused hattach
  · dsimp only
    rcases hawait : kernel.call (.await thread) k₁ with ⟨e | status, k₂⟩
    · refine .released hattach hawait ?_
      intro status hstatus
      cases hstatus
    · dsimp only
      by_cases hstopped : status &&& 0xff = 0x7f
      · rw [if_pos (isStopped_iff.mpr hstopped)]
        exact .opened hattach hawait hstopped
      · rw [if_neg (mt isStopped_iff.mp hstopped)]
        refine .released hattach hawait ?_
        rintro _ ⟨⟩
        exact hstopped

/-! ## Reading -/

/-- **Reading of memory**: from a session and a record of calls to those after, with calls for memory of the process
    only. The session stays with its thread. -/
structure ReadsMemory (before after : Session × κ × List SystemEvent) : Prop where
  pid : after.1.pid = before.1.pid
  tid : after.1.tid = before.1.tid
  held : after.1.isAttached = before.1.isAttached
  calls : ∃ reads, after.2.2 = before.2.2 ++ reads ∧ ∀ event ∈ reads, event.call.isMemory before.1.pid = true

theorem ReadsMemory.refl (state : Session × κ × List SystemEvent) : ReadsMemory state state :=
  ⟨rfl, rfl, rfl, [], (List.append_nil _).symm, by simp⟩

theorem ReadsMemory.trans {first second third : Session × κ × List SystemEvent} (h : ReadsMemory first second)
    (h' : ReadsMemory second third) : ReadsMemory first third := by
  obtain ⟨reads, hreads, hmemory⟩ := h.calls
  obtain ⟨reads', hreads', hmemory'⟩ := h'.calls
  refine ⟨h'.pid.trans h.pid, h'.tid.trans h.tid, h'.held.trans h.held, reads ++ reads', ?_, ?_⟩
  · rw [hreads', hreads, List.append_assoc]
  · intro event hevent
    rcases List.mem_append.mp hevent with hfirst | hsecond
    · exact hmemory event hfirst
    · rw [← h.pid]
      exact hmemory' event hsecond

section Reading

variable (kernel : Kernel κ) (s : Session) (address : UInt64) (length : Nat) (k : κ × List SystemEvent)

/-- One call for memory, after which the session may read in another way. -/
theorem reads_of_call {kernel : Kernel κ} {s : Session} {k after : κ × List SystemEvent} {c : SystemCall}
    {answer : c.Answer} (hcall : kernel.logged.call c k = (answer, after)) (hmemory : c.isMemory s.pid = true)
    (channel : Channel) (hheld : ({ s with channel } : Session).isAttached = s.isAttached) :
    ReadsMemory (s, k) ({ s with channel }, after) := by
  refine ⟨rfl, rfl, hheld, [⟨c, answer⟩], Kernel.record_of_call hcall, ?_⟩
  intro event hevent
  rw [List.mem_singleton.mp hevent]
  exact hmemory

theorem readOpenFile_reads (hattached : s.isAttached = true) :
    ReadsMemory (s, k) (readOpenFile kernel.logged s address length k).2 := by
  unfold readOpenFile
  dsimp only
  rcases hread : kernel.logged.call (.readMemory s.pid address length) k with ⟨e | bs, k'⟩
  · exact reads_of_call hread (by simp [SystemCall.isMemory]) (.memoryFile true) hattached.symm
  · exact reads_of_call hread (by simp [SystemCall.isMemory]) (.memoryFile true) hattached.symm

theorem readFile_reads (isOpen : Bool) (hattached : s.isAttached = true) :
    ReadsMemory (s, k) (readFile kernel.logged s isOpen address length k).2 := by
  unfold readFile
  by_cases hopen : isOpen = true
  · rw [if_pos hopen]
    exact readOpenFile_reads kernel s address length k hattached
  · rw [if_neg hopen]
    rcases hcall : kernel.logged.call (.openMemory s.pid) k with ⟨e | ⟨⟨⟩⟩, k'⟩
    · exact reads_of_call hcall (by simp [SystemCall.isMemory]) (.memoryFile false) hattached.symm
    · have hopened := reads_of_call (s := s) hcall (by simp [SystemCall.isMemory]) s.channel rfl
      exact hopened.trans (readOpenFile_reads kernel s address length k' hattached)

/-- **A read asks for memory only**, and for nothing once the thread has been let go. -/
theorem read_reads : ReadsMemory (s, k) (s.read kernel.logged address length k).2 := by
  unfold read
  by_cases hempty : length = 0
  · rw [if_pos hempty]
    exact .refl _
  · rw [if_neg hempty]
    cases hchannel : s.channel with
    | closed => exact .refl _
    | memoryFile isOpen =>
        exact readFile_reads kernel s address length k isOpen (by simp [isAttached, hchannel])
    | direct =>
        have hattached : s.isAttached = true := by simp [isAttached, hchannel]
        rcases hcall : kernel.logged.call (.readRemote s.pid address length) k with ⟨e | bs, k'⟩
        · have hread := reads_of_call (s := s) hcall (by simp [SystemCall.isMemory]) s.channel rfl
          dsimp only
          by_cases hrefusal : isRefusal e = true
          · rw [if_pos hrefusal]
            exact hread.trans (readFile_reads kernel s address length k' false hattached)
          · rw [if_neg hrefusal]
            exact hread
        · exact reads_of_call hcall (by simp [SystemCall.isMemory]) s.channel rfl

theorem word_reads : ReadsMemory (s, k) (s.word kernel.logged address k).2 := by
  have hread := read_reads kernel s address 8 k
  unfold word
  generalize s.read kernel.logged address 8 k = result at hread ⊢
  rcases result with ⟨e | bs, s', k'⟩
  · exact hread
  · exact hread

end Reading

/-! ## Ending -/

/-- Letting a thread go asks the system for it once. -/
theorem detach_of_attached (kernel : Kernel κ) {s : Session} (hattached : s.isAttached = true)
    (k : κ × List SystemEvent) :
    ∃ freed, (s.detach kernel.logged k).2.2 = k.2 ++ [⟨.detach s.tid, freed⟩] := by
  unfold detach
  rw [if_pos hattached]
  exact ⟨_, rfl⟩

end Session

end Unwinder
