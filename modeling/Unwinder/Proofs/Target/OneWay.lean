import Unwinder.Proofs.Target.Calls
import Unwinder.Target.LiveProcess

/-!
# `Proofs.Target.OneWay` — a session goes through its channels in one direction

A session copies memory directly until the system refuses that, reads the memory file from then on, and reads nothing
any more once it has let its thread go. This module follows a session through any reads and detachments, in any order
and whatever the system answers: no channel is taken up again, the memory file is opened once, and the thread is let go
once.

## Contents
- **Channels.** `Channel.Moves`, the order in which a session goes through them.
- **Histories.** `Use`, what may be done with a session, and `Session.run`, any number of uses.
- **One use.** `Session.Does` lists all that a use can do; `perform_does` shows that there is nothing else.
- **Conduct.** `Conduct` says what a use keeps to, whatever happens (`Does.conduct`).
- **Records.** `Ledger`, what the record of all calls shows: kept by every use (`Ledger.does`) and so by every history
  (`Ledger.run`).
- **Main statement.** `session_moves_one_way`.
-/

namespace Unwinder

variable {κ : Type}

/-! ## Channels -/

/-- **The ways of a channel**: from copying to the memory file, once the file is open it stays open, and from both to
    the end. -/
inductive Channel.Moves : Channel → Channel → Prop where
  | stays (c : Channel) : Moves c c
  | goesOver (isOpen : Bool) : Moves .direct (.memoryFile isOpen)
  | opens : Moves (.memoryFile false) (.memoryFile true)
  | ends (c : Channel) : Moves c .closed

namespace Channel

theorem Moves.trans {first second third : Channel} (h : Moves first second) (h' : Moves second third) :
    Moves first third := by
  cases h with
  | stays => exact h'
  | goesOver isOpen =>
      cases h' with
      | stays => exact .goesOver isOpen
      | opens => exact .goesOver true
      | ends => exact .ends _
  | opens =>
      cases h' with
      | stays => exact .opens
      | ends => exact .ends _
  | ends =>
      cases h' with
      | stays => exact .ends _
      | ends => exact .ends _

/-- The first channel is never come back to. -/
theorem Moves.eq_direct {c : Channel} (h : Moves c .direct) : c = .direct := by
  cases h
  rfl

/-- How many memory files are open. -/
def files : Channel → Nat
  | .memoryFile true => 1
  | _ => 0

theorem files_le_one (c : Channel) : c.files ≤ 1 := by
  unfold files
  split
  · exact Nat.le_refl 1
  · exact Nat.zero_le 1

/-- The call by which memory is read through a channel. The memory file has to be open. -/
def call? (pid : Int) (address : UInt64) (length : Nat) : Channel → Option SystemCall
  | .direct => some (.readRemote pid address length)
  | .memoryFile true => some (.readMemory pid address length)
  | _ => none

end Channel

/-! ## Calls -/

/-- Whether a call copies memory directly. -/
def SystemCall.isCopy : SystemCall → Bool
  | .readRemote _ _ _ => true
  | _ => false

/-- Whether a call lets a thread go. -/
def SystemCall.isDetach : SystemCall → Bool
  | .detach _ => true
  | _ => false

/-- Whether an event has opened a memory file. -/
def SystemEvent.opens : SystemEvent → Bool
  | ⟨.openMemory _, .ok _⟩ => true
  | _ => false

/-- The bytes that an event has delivered. -/
def SystemEvent.delivered? : SystemEvent → Option Bytes
  | ⟨.readRemote _ _ _, .ok bs⟩ => some bs
  | ⟨.readMemory _ _ _, .ok bs⟩ => some bs
  | _ => none

/-! ## Histories -/

/-- What can be done with a session before it is given up. -/
inductive Use where
  | read (address : UInt64) (length : Nat)
  | detach
  deriving DecidableEq

namespace Session

/-- A use of a session: its answer, if it is a read, with the session and the system after it. -/
def perform (kernel : Kernel κ) (s : Session) (k : κ) : Use → Option (Except Error Bytes) × Session × κ
  | .read address length => (some (s.read kernel address length k).1, (s.read kernel address length k).2)
  | .detach => (none, s.detach kernel k)

/-- A session and the system after some uses. -/
def run (kernel : Kernel κ) : List Use → Session × κ → Session × κ
  | [], state => state
  | use :: uses, state => run kernel uses (state.1.perform kernel state.2 use).2

theorem run_append (kernel : Kernel κ) (uses more : List Use) (state : Session × κ) :
    run kernel (uses ++ more) state = run kernel more (run kernel uses state) := by
  induction uses generalizing state with
  | nil => rfl
  | cons use uses ih => exact ih _

/-! ## One use -/

/-- **What a read of the memory file does**, by whether the file is open: its answer, whether the file is open
    afterwards, and the calls made. -/
inductive ReadsFile (s : Session) (address : UInt64) (length : Nat) :
    Bool → Except Error Bytes → Bool → List SystemEvent → Prop where
  | unopened (e : Errno) :
      ReadsFile s address length false (.error (.io (.openingMemory s.pid) (.errno e))) false
        [⟨.openMemory s.pid, .error e⟩]
  | opened {answer : Except Error Bytes} {event : SystemEvent}
      (hread : ReadsFile s address length true answer true [event]) :
      ReadsFile s address length false answer true [⟨.openMemory s.pid, .ok ()⟩, event]
  | failed (e : Errno) :
      ReadsFile s address length true (.error (.io (.memoryRead s.pid address) (.errno e))) true
        [⟨.readMemory s.pid address length, .error e⟩]
  | answered (bs : Bytes) :
      ReadsFile s address length true (s.whole address length bs) true [⟨.readMemory s.pid address length, .ok bs⟩]

/-- **What a read does**: its answer, the session after it, and the calls made. -/
inductive Reads (s : Session) (address : UInt64) (length : Nat) :
    Except Error Bytes → Session → List SystemEvent → Prop where
  | empty (hempty : length = 0) : Reads s address length (.error (.misuse .emptyRead)) s []
  | detached (hasked : 0 < length) (hchannel : s.channel = .closed) :
      Reads s address length (.error (.misuse (.detached s.pid))) s []
  /-- The system copies memory, perhaps less than was asked for. -/
  | copied (hasked : 0 < length) (hchannel : s.channel = .direct) (bs : Bytes) :
      Reads s address length (s.whole address length bs) s [⟨.readRemote s.pid address length, .ok bs⟩]
  /-- It fails to. -/
  | failed (hasked : 0 < length) (hchannel : s.channel = .direct) {e : Errno} (hfails : isRefusal e = false) :
      Reads s address length (.error (.io (.remoteRead s.pid address) (.errno e))) s
        [⟨.readRemote s.pid address length, .error e⟩]
  /-- It refuses to, and the memory file is read instead. -/
  | refused (hasked : 0 < length) (hchannel : s.channel = .direct) {e : Errno} (hrefuses : isRefusal e = true)
      {answer : Except Error Bytes} {isOpen : Bool} {calls : List SystemEvent}
      (hfile : ReadsFile s address length false answer isOpen calls) :
      Reads s address length answer { s with channel := .memoryFile isOpen }
        (⟨.readRemote s.pid address length, .error e⟩ :: calls)
  | fromFile (hasked : 0 < length) {wasOpen : Bool} (hchannel : s.channel = .memoryFile wasOpen)
      {answer : Except Error Bytes} {isOpen : Bool} {calls : List SystemEvent}
      (hfile : ReadsFile s address length wasOpen answer isOpen calls) :
      Reads s address length answer { s with channel := .memoryFile isOpen } calls

/-- **What a use does.** -/
inductive Does (s : Session) : Use → Option (Except Error Bytes) → Session → List SystemEvent → Prop where
  | reads {address : UInt64} {length : Nat} {answer : Except Error Bytes} {after : Session} {calls : List SystemEvent}
      (hreads : Reads s address length answer after calls) :
      Does s (.read address length) (some answer) after calls
  /-- The thread has been let go before. -/
  | rests (hchannel : s.channel = .closed) : Does s .detach none s []
  | letsGo (hchannel : s.channel ≠ .closed) (freed : Except Errno Unit) :
      Does s .detach none { s with channel := .closed } [⟨.detach s.tid, freed⟩]

section Outcomes

variable (kernel : Kernel κ) (s : Session) (address : UInt64) (length : Nat) (k : κ × List SystemEvent)

theorem readOpenFile_does :
    ∃ calls, (readOpenFile kernel.logged s address length k).2.2.2 = k.2 ++ calls ∧
      (∃ event, calls = [event]) ∧
      (readOpenFile kernel.logged s address length k).2.1 = { s with channel := .memoryFile true } ∧
      ReadsFile s address length true (readOpenFile kernel.logged s address length k).1 true calls := by
  unfold readOpenFile
  dsimp only
  rcases hread : kernel.logged.call (.readMemory s.pid address length) k with ⟨e | bs, k'⟩
  · exact ⟨_, Kernel.record_of_call hread, ⟨_, rfl⟩, rfl, .failed e⟩
  · exact ⟨_, Kernel.record_of_call hread, ⟨_, rfl⟩, rfl, .answered bs⟩

theorem readFile_does (wasOpen : Bool) :
    ∃ calls isOpen, (readFile kernel.logged s wasOpen address length k).2.2.2 = k.2 ++ calls ∧
      (readFile kernel.logged s wasOpen address length k).2.1 = { s with channel := .memoryFile isOpen } ∧
      ReadsFile s address length wasOpen (readFile kernel.logged s wasOpen address length k).1 isOpen calls := by
  unfold readFile
  cases wasOpen with
  | true =>
      obtain ⟨calls, hrecord, -, hafter, hread⟩ := readOpenFile_does kernel s address length k
      exact ⟨calls, true, hrecord, hafter, hread⟩
  | false =>
      simp only [Bool.false_eq_true, if_false]
      rcases hopen : kernel.logged.call (.openMemory s.pid) k with ⟨e | ⟨⟨⟩⟩, k'⟩
      · exact ⟨_, false, Kernel.record_of_call hopen, rfl, .unopened e⟩
      · obtain ⟨calls, hrecord, ⟨event, rfl⟩, hafter, hread⟩ := readOpenFile_does kernel s address length k'
        refine ⟨_, true, ?_, hafter, .opened hread⟩
        simp only
        rw [hrecord, Kernel.record_of_call hopen, List.append_assoc]
        rfl

theorem read_does :
    ∃ calls, (s.read kernel.logged address length k).2.2.2 = k.2 ++ calls ∧
      Reads s address length (s.read kernel.logged address length k).1 (s.read kernel.logged address length k).2.1
        calls := by
  unfold read
  by_cases hempty : length = 0
  · rw [if_pos hempty]
    exact ⟨[], (List.append_nil _).symm, .empty hempty⟩
  · rw [if_neg hempty]
    have hasked : 0 < length := Nat.pos_of_ne_zero hempty
    cases hchannel : s.channel with
    | closed => exact ⟨[], (List.append_nil _).symm, .detached hasked hchannel⟩
    | memoryFile wasOpen =>
        obtain ⟨calls, isOpen, hrecord, hafter, hread⟩ := readFile_does kernel s address length k wasOpen
        refine ⟨calls, hrecord, ?_⟩
        dsimp only
        rw [hafter]
        exact .fromFile hasked hchannel hread
    | direct =>
        dsimp only
        rcases hcopy : kernel.logged.call (.readRemote s.pid address length) k with ⟨e | bs, k'⟩
        · dsimp only
          cases hrefusal : isRefusal e with
          | false => exact ⟨_, Kernel.record_of_call hcopy, .failed hasked hchannel hrefusal⟩
          | true =>
              obtain ⟨calls, isOpen, hrecord, hafter, hread⟩ := readFile_does kernel s address length k' false
              refine ⟨⟨.readRemote s.pid address length, .error e⟩ :: calls, ?_, ?_⟩
              · rw [if_pos rfl, hrecord, Kernel.record_of_call hcopy, List.append_assoc]
                rfl
              · rw [if_pos rfl, hafter]
                exact .refused hasked hchannel hrefusal hread
        · exact ⟨_, Kernel.record_of_call hcopy, .copied hasked hchannel bs⟩

/-- **A use does what `Does` lists**, and adds its calls to the record. -/
theorem perform_does (use : Use) :
    ∃ calls, (s.perform kernel.logged k use).2.2.2 = k.2 ++ calls ∧
      Does s use (s.perform kernel.logged k use).1 (s.perform kernel.logged k use).2.1 calls := by
  cases use with
  | read address length =>
      obtain ⟨calls, hrecord, hreads⟩ := read_does kernel s address length k
      exact ⟨calls, hrecord, .reads hreads⟩
  | detach =>
      unfold perform detach isAttached
      by_cases hchannel : s.channel = .closed
      · simp only [hchannel, ne_eq, not_true_eq_false, decide_false, Bool.false_eq_true, if_false]
        exact ⟨[], (List.append_nil _).symm, .rests hchannel⟩
      · simp only [ne_eq, hchannel, not_false_eq_true, decide_true, if_true]
        exact ⟨_, rfl, .letsGo hchannel _⟩

end Outcomes

/-! ## Reads -/

theorem isRefusal_iff {e : Errno} :
    isRefusal e = true ↔ e = .noCall ∨ e = .notPermitted ∨ e = .noProcess ∨ e = .badAddress := by
  unfold isRefusal
  simp only [Bool.or_eq_true, decide_eq_true_eq, or_assoc]

theorem whole_eq_ok {s : Session} {address : UInt64} {length : Nat} {bs cs : Bytes}
    (h : s.whole address length bs = .ok cs) : bs = cs ∧ cs.length = length := by
  unfold whole at h
  split at h
  · rename_i hlength
    cases h
    exact ⟨rfl, hlength⟩
  · cases h

/-- The failure of a read that is short. -/
theorem whole_of_short (s : Session) (address : UInt64) {length : Nat} {bs : Bytes} (hshort : bs.length ≠ length) :
    s.whole address length bs = .error (.io (.memory s.pid) (.short bs.length length address)) := if_neg hshort

section Files

variable {s : Session} {address : UInt64} {length : Nat} {wasOpen isOpen : Bool} {answer : Except Error Bytes}
  {calls : List SystemEvent}

/-- Reading the memory file neither copies memory directly nor lets the thread go. -/
theorem ReadsFile.quiet (h : ReadsFile s address length wasOpen answer isOpen calls) :
    ∀ event ∈ calls, event.call.isCopy = false ∧ event.call.isDetach = false := by
  induction h with
  | unopened | failed | answered =>
      intro event hevent
      rw [List.mem_singleton.mp hevent]
      exact ⟨rfl, rfl⟩
  | opened _ ih =>
      intro event hevent
      rcases List.mem_cons.mp hevent with rfl | hevent
      · exact ⟨rfl, rfl⟩
      · exact ih event hevent

/-- A file that is open stays open. -/
theorem ReadsFile.moves (h : ReadsFile s address length wasOpen answer isOpen calls) :
    (Channel.memoryFile wasOpen).Moves (.memoryFile isOpen) := by
  cases h with
  | unopened | failed | answered => exact .stays _
  | opened => exact .opens

/-- A file that is open is not opened again. -/
theorem ReadsFile.opens (h : ReadsFile s address length wasOpen answer isOpen calls) :
    (Channel.memoryFile wasOpen).files + (calls.filter (·.opens)).length = (Channel.memoryFile isOpen).files := by
  cases h with
  | unopened | failed | answered => rfl
  | opened hread =>
      cases hread with
      | failed | answered => rfl

/-- The last call of a read that succeeds has delivered its bytes. -/
theorem ReadsFile.delivers (h : ReadsFile s address length wasOpen answer isOpen calls) {bs : Bytes}
    (hanswer : answer = .ok bs) :
    isOpen = true ∧ bs.length = length ∧
      ∃ front, calls = front ++ [⟨.readMemory s.pid address length, .ok bs⟩] := by
  induction h with
  | unopened | failed => cases hanswer
  | answered cs =>
      obtain ⟨rfl, hlength⟩ := whole_eq_ok hanswer
      exact ⟨rfl, hlength, [], rfl⟩
  | opened _ ih =>
      obtain ⟨hopen, hlength, front, hcalls⟩ := ih hanswer
      exact ⟨hopen, hlength, _ :: front, by rw [hcalls]; rfl⟩

/-- A short count is the end of a read. -/
theorem ReadsFile.short (h : ReadsFile s address length wasOpen answer isOpen calls) {event : SystemEvent} {bs : Bytes}
    (hevent : event ∈ calls) (hdelivered : event.delivered? = some bs) (hshort : bs.length ≠ length) :
    calls.getLast? = some event ∧
      answer = .error (.io (.memory s.pid) (.short bs.length length address)) := by
  induction h with
  | unopened | failed =>
      rw [List.mem_singleton.mp hevent] at hdelivered
      cases hdelivered
  | answered cs =>
      obtain rfl := List.mem_singleton.mp hevent
      cases hdelivered
      exact ⟨rfl, whole_of_short s address hshort⟩
  | opened _ ih =>
      rcases List.mem_cons.mp hevent with rfl | hevent
      · cases hdelivered
      · exact ih hevent

end Files

section Reads

variable {s after : Session} {address : UInt64} {length : Nat} {answer : Except Error Bytes} {calls : List SystemEvent}
  (h : Reads s address length answer after calls)

include h

theorem Reads.target : after.pid = s.pid ∧ after.tid = s.tid := by
  cases h with
  | empty | detached | copied | failed | refused | fromFile => exact ⟨rfl, rfl⟩

theorem Reads.moves : s.channel.Moves after.channel := by
  cases h with
  | empty | detached | copied | failed => exact .stays _
  | refused _ hchannel =>
      rw [hchannel]
      exact .goesOver _
  | fromFile _ hchannel hfile =>
      rw [hchannel]
      exact hfile.moves

/-- Reading does not let the thread go. -/
theorem Reads.closed_iff : after.channel = .closed ↔ s.channel = .closed := by
  cases h with
  | empty | detached | copied | failed => exact Iff.rfl
  | refused _ hchannel => simp [hchannel]
  | fromFile _ hchannel => simp [hchannel]

theorem Reads.released : ∀ event ∈ calls, event.call.isDetach = false := by
  intro event hevent
  cases h with
  | empty | detached => cases hevent
  | copied | failed =>
      rw [List.mem_singleton.mp hevent]
      rfl
  | refused _ _ _ hfile =>
      rcases List.mem_cons.mp hevent with rfl | hevent
      · rfl
      · exact (hfile.quiet event hevent).2
  | fromFile _ _ hfile => exact (hfile.quiet event hevent).2

theorem Reads.opens : s.channel.files + (calls.filter (·.opens)).length = after.channel.files := by
  cases h with
  | empty | detached | copied | failed => rfl
  | refused _ hchannel _ hfile =>
      rw [hchannel, List.filter_cons_of_neg Bool.false_ne_true]
      exact hfile.opens
  | fromFile _ hchannel hfile =>
      rw [hchannel]
      exact hfile.opens

/-- **Going over to the memory file** takes a refusal, and is done in the course of the same read. -/
theorem Reads.goesOver {isOpen : Bool} (hbefore : s.channel = .direct) (hafter : after.channel = .memoryFile isOpen) :
    ∃ e retry, (e = .noCall ∨ e = .notPermitted ∨ e = .noProcess ∨ e = .badAddress) ∧
      calls = ⟨.readRemote s.pid address length, .error e⟩ :: retry ∧
      ReadsFile s address length false answer isOpen retry := by
  cases h with
  | empty | detached | copied | failed =>
      rw [hbefore] at hafter
      cases hafter
  | refused _ _ hrefuses hfile =>
      cases hafter
      exact ⟨_, _, isRefusal_iff.mp hrefuses, rfl, hfile⟩
  | fromFile _ hchannel _ =>
      rw [hbefore] at hchannel
      cases hchannel

theorem Reads.copies (hgone : s.channel ≠ .direct) : ∀ event ∈ calls, event.call.isCopy = false := by
  intro event hevent
  cases h with
  | empty | detached => cases hevent
  | copied _ hchannel | failed _ hchannel | refused _ hchannel => exact absurd hchannel hgone
  | fromFile _ _ hfile => exact (hfile.quiet event hevent).1

/-- **A read that succeeds** has been answered in full by its last call. -/
theorem Reads.delivers {bs : Bytes} (hanswer : answer = .ok bs) :
    0 < length ∧ bs.length = length ∧ ∃ front event, calls = front ++ [event] ∧
      after.channel.call? s.pid address length = some event.call ∧ event.delivered? = some bs := by
  cases h with
  | empty | detached | failed => cases hanswer
  | copied hasked hchannel cs =>
      obtain ⟨rfl, hlength⟩ := whole_eq_ok hanswer
      exact ⟨hasked, hlength, [], _, rfl, by rw [hchannel]; rfl, rfl⟩
  | refused hasked _ _ hfile =>
      obtain ⟨rfl, hlength, front, rfl⟩ := hfile.delivers hanswer
      exact ⟨hasked, hlength, _ :: front, _, rfl, rfl, rfl⟩
  | fromFile hasked _ hfile =>
      obtain ⟨rfl, hlength, front, rfl⟩ := hfile.delivers hanswer
      exact ⟨hasked, hlength, front, _, rfl, rfl, rfl⟩

/-- **A read that is answered in part** fails at once. -/
theorem Reads.short {event : SystemEvent} {bs : Bytes} (hevent : event ∈ calls)
    (hdelivered : event.delivered? = some bs) (hshort : bs.length ≠ length) :
    calls.getLast? = some event ∧ (event.call.isCopy = true → after = s) ∧
      answer = .error (.io (.memory s.pid) (.short bs.length length address)) := by
  cases h with
  | empty | detached => cases hevent
  | failed =>
      rw [List.mem_singleton.mp hevent] at hdelivered
      cases hdelivered
  | copied _ _ cs =>
      obtain rfl := List.mem_singleton.mp hevent
      cases hdelivered
      exact ⟨rfl, fun _ => rfl, whole_of_short s address hshort⟩
  | refused _ _ _ hfile =>
      rcases List.mem_cons.mp hevent with rfl | hevent
      · cases hdelivered
      · obtain ⟨hlast, hanswer⟩ := hfile.short hevent hdelivered hshort
        refine ⟨by rw [List.getLast?_cons, hlast]; rfl, fun hcopy => ?_, hanswer⟩
        rw [(hfile.quiet event hevent).1] at hcopy
        cases hcopy
  | fromFile _ _ hfile =>
      obtain ⟨hlast, hanswer⟩ := hfile.short hevent hdelivered hshort
      refine ⟨hlast, fun hcopy => ?_, hanswer⟩
      rw [(hfile.quiet event hevent).1] at hcopy
      cases hcopy

theorem Reads.rests (hclosed : s.channel = .closed) :
    calls = [] ∧ after = s ∧ (0 < length → answer = .error (.misuse (.detached s.pid))) := by
  cases h with
  | empty hempty => exact ⟨rfl, rfl, fun hasked => by omega⟩
  | detached => exact ⟨rfl, rfl, fun _ => rfl⟩
  | copied _ hchannel | failed _ hchannel | refused _ hchannel | fromFile _ hchannel =>
      rw [hclosed] at hchannel
      cases hchannel

end Reads

/-! ## Conduct -/

/-- **The conduct of a session in one use**, from the session before it to that after it, by its answer and the calls it
    makes. -/
structure Conduct (before : Session) (use : Use) (answer : Option (Except Error Bytes)) (after : Session)
    (calls : List SystemEvent) : Prop where
  /-- The session stays with its process and its thread. -/
  target : after.pid = before.pid ∧ after.tid = before.tid
  moves : before.channel.Moves after.channel
  /-- It ends by letting its thread go, and by nothing else. -/
  ends : after.channel = .closed ↔ before.channel = .closed ∨ use = .detach
  /-- It goes over to the memory file when the system refuses to copy memory, for one of four reasons, and then the same
      read is made there. -/
  goesOver : ∀ isOpen, before.channel = .direct → after.channel = .memoryFile isOpen →
    ∃ address length e retried retry, use = .read address length ∧
      (e = .noCall ∨ e = .notPermitted ∨ e = .noProcess ∨ e = .badAddress) ∧
      calls = ⟨.readRemote before.pid address length, .error e⟩ :: retry ∧
      answer = some retried ∧ ReadsFile before address length false retried isOpen retry
  /-- Once it has gone over, memory is not copied directly any more. -/
  copies : before.channel ≠ .direct → ∀ event ∈ calls, event.call.isCopy = false
  /-- A read that succeeds has asked for something, and the last call, by the channel that the session has then, has
      delivered all of it. -/
  delivers : ∀ bs, answer = some (.ok bs) →
    ∃ address length front event, use = .read address length ∧ 0 < length ∧ bs.length = length ∧
      calls = front ++ [event] ∧ after.channel.call? before.pid address length = some event.call ∧
      event.delivered? = some bs
  /-- A short count is the end of a read, and no reason to go over. -/
  short : ∀ address length event bs, use = .read address length → event ∈ calls → event.delivered? = some bs →
    bs.length ≠ length → calls.getLast? = some event ∧ (event.call.isCopy = true → after = before) ∧
      answer = some (.error (.io (.memory before.pid) (.short bs.length length address)))
  /-- A session that has let its thread go asks the system for nothing, and to read through it is an invalid
      argument. -/
  rests : before.channel = .closed → calls = [] ∧ after = before ∧
    ∀ address length, use = .read address length → 0 < length →
      ∃ e, answer = some (.error e) ∧ e = .misuse (.detached before.pid) ∧ e.status = .invalidArgument

theorem Does.conduct {s after : Session} {use : Use} {answer : Option (Except Error Bytes)} {calls : List SystemEvent}
    (h : Does s use answer after calls) : Conduct s use answer after calls := by
  cases h with
  | @reads address length answer after calls hreads =>
      refine ⟨hreads.target, hreads.moves, by simp [hreads.closed_iff], ?_, hreads.copies, ?_, ?_, ?_⟩
      · intro isOpen hbefore hafter
        obtain ⟨e, retry, hreason, hcalls, hfile⟩ := hreads.goesOver hbefore hafter
        exact ⟨address, length, e, answer, retry, rfl, hreason, hcalls, rfl, hfile⟩
      · intro bs hanswer
        obtain ⟨hasked, hlength, front, event, hcalls, hcall, hdelivered⟩ := hreads.delivers (Option.some.inj hanswer)
        exact ⟨address, length, front, event, rfl, hasked, hlength, hcalls, hcall, hdelivered⟩
      · rintro _ _ event bs ⟨⟩ hevent hdelivered hshort
        obtain ⟨hlast, hstays, hanswer⟩ := hreads.short hevent hdelivered hshort
        exact ⟨hlast, hstays, congrArg some hanswer⟩
      · intro hclosed
        obtain ⟨hcalls, hafter, hanswer⟩ := hreads.rests hclosed
        refine ⟨hcalls, hafter, ?_⟩
        rintro _ _ ⟨⟩ hasked
        exact ⟨_, congrArg some (hanswer hasked), rfl, rfl⟩
  | rests hchannel =>
      refine ⟨⟨rfl, rfl⟩, .stays _, by simp [hchannel], ?_, by simp, by simp, by simp, fun _ => ⟨rfl, rfl, by simp⟩⟩
      intro isOpen hbefore
      rw [hchannel] at hbefore
      cases hbefore
  | letsGo hchannel freed =>
      refine ⟨⟨rfl, rfl⟩, .ends _, by simp, by simp, ?_, by simp, by simp, fun hclosed => absurd hclosed hchannel⟩
      intro _ event hevent
      rw [List.mem_singleton.mp hevent]
      rfl

/-! ## Records -/

/-- **What the record shows** of a session, from how it began to how it is now. -/
structure Ledger (s now : Session) (record : List SystemEvent) : Prop where
  target : now.pid = s.pid ∧ now.tid = s.tid
  moves : s.channel.Moves now.channel
  /-- The memory file is opened once at most, and is open as long as the session reads from it. -/
  once : s.channel.files + (record.filter (·.opens)).length ≤ 1
  opened : now.channel ≠ .closed → s.channel.files + (record.filter (·.opens)).length = now.channel.files
  /-- The thread is let go when the session ends, and then only. -/
  released : (record.map (·.call)).filter (·.isDetach) = if now.channel = .closed then [.detach s.tid] else []

theorem Ledger.start {s : Session} (hattached : s.isAttached = true) : Ledger s s [] := by
  have hchannel : s.channel ≠ .closed := by simpa [isAttached] using hattached
  exact ⟨⟨rfl, rfl⟩, .stays _, s.channel.files_le_one, fun _ => rfl, (if_neg hchannel).symm⟩

/-- Calls that let no thread go do not count. -/
theorem filter_isDetach_of_quiet {calls : List SystemEvent} (h : ∀ event ∈ calls, event.call.isDetach = false) :
    (calls.map (·.call)).filter (·.isDetach) = [] := by
  rw [List.filter_eq_nil_iff]
  intro call hcall
  obtain ⟨event, hevent, rfl⟩ := List.mem_map.mp hcall
  simp [h event hevent]

/-- **Every use keeps the record.** -/
theorem Ledger.does {s now after : Session} {record calls : List SystemEvent} {use : Use}
    {answer : Option (Except Error Bytes)} (h : Ledger s now record) (hdoes : Does now use answer after calls) :
    Ledger s after (record ++ calls) := by
  have hconduct := hdoes.conduct
  have htarget : after.pid = s.pid ∧ after.tid = s.tid :=
    ⟨hconduct.target.1.trans h.target.1, hconduct.target.2.trans h.target.2⟩
  have hmoves := h.moves.trans hconduct.moves
  cases hdoes with
  | reads hreads =>
      refine ⟨htarget, hmoves, ?_, ?_, ?_⟩
      · by_cases hclosed : now.channel = .closed
        · rw [(hreads.rests hclosed).1, List.append_nil]
          exact h.once
        · rw [List.filter_append, List.length_append, ← Nat.add_assoc, h.opened hclosed, hreads.opens]
          exact Channel.files_le_one _
      · intro hclosed
        rw [ne_eq, hreads.closed_iff] at hclosed
        rw [List.filter_append, List.length_append, ← Nat.add_assoc, h.opened hclosed, hreads.opens]
      · rw [List.map_append, List.filter_append, filter_isDetach_of_quiet hreads.released, List.append_nil, h.released]
        simp only [hreads.closed_iff]
  | rests hchannel =>
      rw [List.append_nil]
      exact h
  | letsGo hchannel freed =>
      refine ⟨htarget, hmoves, ?_, fun hclosed => absurd rfl hclosed, ?_⟩
      · rw [List.filter_append, List.filter_cons_of_neg Bool.false_ne_true, List.filter_nil, List.append_nil]
        exact h.once
      · rw [List.map_append, List.filter_append, h.released, if_neg hchannel, if_pos rfl, ← h.target.2]
        rfl

section Runs

variable (kernel : Kernel κ)

/-- **Every history keeps the record.** -/
theorem Ledger.run {s : Session} (uses : List Use) {state : Session × κ × List SystemEvent}
    (h : Ledger s state.1 state.2.2) :
    Ledger s (Session.run kernel.logged uses state).1 (Session.run kernel.logged uses state).2.2 := by
  induction uses generalizing state with
  | nil => exact h
  | cons use uses ih =>
      obtain ⟨calls, hrecord, hdoes⟩ := perform_does kernel state.1 state.2 use
      apply ih
      rw [hrecord]
      exact h.does hdoes

/-- **A session that has gone over copies nothing any more**, up to its end. -/
theorem run_copies (uses : List Use) {state : Session × κ × List SystemEvent} (hgone : state.1.channel ≠ .direct) :
    (run kernel.logged uses state).1.channel ≠ .direct ∧
      ∃ calls, (run kernel.logged uses state).2.2 = state.2.2 ++ calls ∧
        ∀ event ∈ calls, event.call.isCopy = false := by
  induction uses generalizing state with
  | nil => exact ⟨hgone, [], (List.append_nil _).symm, by simp⟩
  | cons use uses ih =>
      obtain ⟨calls, hrecord, hdoes⟩ := perform_does kernel state.1 state.2 use
      have hconduct := hdoes.conduct
      have hnext : (state.1.perform kernel.logged state.2 use).2.1.channel ≠ .direct := by
        intro hdirect
        exact hgone (hdirect ▸ hconduct.moves).eq_direct
      obtain ⟨hlast, more, hmore, hquiet⟩ := ih hnext
      refine ⟨hlast, calls ++ more, ?_, ?_⟩
      · rw [run, hmore, hrecord, List.append_assoc]
      · intro event hevent
        rcases List.mem_append.mp hevent with hfirst | hsecond
        · exact hconduct.copies hgone event hfirst
        · exact hquiet event hsecond

/-- A session that has let its thread go has ended. -/
theorem run_ended (uses : List Use) (state : Session × κ × List SystemEvent)
    (h : state.1.channel = .closed ∨ .detach ∈ uses) : (run kernel.logged uses state).1.channel = .closed := by
  induction uses generalizing state with
  | nil =>
      rcases h with hclosed | hdetach
      · exact hclosed
      · cases hdetach
  | cons use uses ih =>
      obtain ⟨calls, -, hdoes⟩ := perform_does kernel state.1 state.2 use
      apply ih
      rw [hdoes.conduct.ends]
      rcases h with hclosed | hdetach
      · exact .inl (.inl hclosed)
      · rcases List.mem_cons.mp hdetach with rfl | hlater
        · exact .inl (.inr rfl)
        · exact .inr hlater

/-- Giving a session up is a last detachment. -/
theorem drop_eq_perform (s : Session) (k : κ) : s.drop kernel k = (s.perform kernel k .detach).2.2 := rfl

end Runs

/-! ## Main statement -/

/-- **One way**: what holds of a session after some uses, whatever is done with it next. -/
structure OneWay (kernel : Kernel κ) (s : Session) (uses : List Use) (now : Session × κ × List SystemEvent) : Prop where
  /-- Up to now the channel has moved in one direction. -/
  moves : s.channel.Moves now.1.channel
  /-- So it does in the next use, whose calls are added to the record. -/
  next : ∀ use, ∃ calls, (now.1.perform kernel.logged now.2 use).2.2.2 = now.2.2 ++ calls ∧
    Does now.1 use (now.1.perform kernel.logged now.2 use).1 (now.1.perform kernel.logged now.2 use).2.1 calls ∧
    Conduct now.1 use (now.1.perform kernel.logged now.2 use).1 (now.1.perform kernel.logged now.2 use).2.1 calls
  /-- Once the session has gone over, memory is not copied directly again, whatever is done up to its end. -/
  copies : now.1.channel ≠ .direct → ∀ more, ∃ calls,
    ((run kernel.logged more now).1.drop kernel.logged (run kernel.logged more now).2).2 = now.2.2 ++ calls ∧
      ∀ event ∈ calls, event.call.isCopy = false
  /-- Once it has let its thread go, it has ended. -/
  ended : .detach ∈ uses → now.1.channel = .closed
  /-- Given up now, it has opened the memory file once at most. -/
  opens : ((now.1.drop kernel.logged now.2).2.filter (·.opens)).length ≤ 1
  /-- Given up now, it has let its thread go once, and no other. -/
  releases : ((now.1.drop kernel.logged now.2).2.map (·.call)).filter (·.isDetach) = [.detach s.tid]

/-- **A session goes one way.** Take a session that holds its thread, and read through it and detach it as often as
    desired and in any order, whatever the system answers: at every point of the history the session has gone one way,
    and will do so whatever is done next. -/
theorem session_moves_one_way (kernel : Kernel κ) {s : Session} (hattached : s.isAttached = true) (k : κ)
    (uses : List Use) : OneWay kernel s uses (run kernel.logged uses (s, k, [])) := by
  have hledger : Ledger s (run kernel.logged uses (s, k, [])).1 (run kernel.logged uses (s, k, [])).2.2 :=
    Ledger.run kernel uses (Ledger.start hattached)
  have hended := run_ended kernel uses (s, k, [])
  generalize run kernel.logged uses (s, k, []) = now at hledger hended
  -- giving the session up is one use more
  obtain ⟨calls, hrecord, hdoes⟩ := perform_does kernel now.1 now.2 .detach
  have hlast := hledger.does hdoes
  rw [← hrecord, ← drop_eq_perform] at hlast
  refine ⟨hledger.moves, ?_, ?_, fun hdetach => hended (.inr hdetach), ?_, ?_⟩
  · intro use
    obtain ⟨calls, hrecord, hdoes⟩ := perform_does kernel now.1 now.2 use
    exact ⟨calls, hrecord, hdoes, hdoes.conduct⟩
  · intro hgone more
    obtain ⟨-, calls, hcalls, hquiet⟩ := run_copies kernel (more ++ [.detach]) hgone
    rw [run_append] at hcalls
    exact ⟨calls, hcalls, hquiet⟩
  · exact Nat.le_trans (Nat.le_add_left _ _) hlast.once
  · rw [hlast.released, if_pos (hdoes.conduct.ends.mpr (.inr rfl))]

/-- A process with a page that may be copied and one that may not, whose main thread is held. -/
def guardedProcess : LiveProcess :=
  { segments := [⟨0x10000, [1, 2], true⟩, ⟨0x20000, [3, 4], false⟩], main := 100, second := 101, mainTraced := true,
    secondTraced := false, alive := true }

/-- The first page is copied. The second one is refused and read from the memory file, and the first one is then read
    from there as well, until the thread is let go. -/
theorem session_moves_one_way_guarded :
    let s : Session := ⟨100, 100, .direct⟩
    let uses : List Use := [.read 0x10000 2, .read 0x20000 2, .read 0x10000 1, .detach, .read 0x10000 1, .detach]
    let now := run LiveProcess.kernel.logged uses (s, guardedProcess, [])
    s.isAttached = true ∧ now.1.channel = .closed ∧
      now.2.2.map (·.call) = [.readRemote 100 0x10000 2, .readRemote 100 0x20000 2, .openMemory 100,
        .readMemory 100 0x20000 2, .readMemory 100 0x10000 1, .detach 100] ∧
      OneWay LiveProcess.kernel s uses now := by
  intro s uses now
  have hattached : s.isAttached = true := rfl
  refine ⟨hattached, by decide +kernel, by decide +kernel, ?_⟩
  exact session_moves_one_way LiveProcess.kernel hattached guardedProcess uses

end Session

end Unwinder
