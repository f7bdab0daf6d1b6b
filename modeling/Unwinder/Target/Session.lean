import Unwinder.Stack.Source
import Unwinder.Target.Kernel

/-!
# `Unwinder.Target.Session` — reading the memory of a stopped process

A session begins by stopping a thread and ends by letting it go. In between, memory is copied out of the
process directly; where the system refuses that, the session goes over to the memory file of the process and
stays with it.

## Contents
- **Sessions.** `Channel`, the way memory is read at present, and `Session`.
- **Beginning.** `Session.attach`; a thread that does not stop is let go again.
- **Reading.** `Session.read`, which delivers all the bytes asked for or fails, and `Session.source`.
- **Ending.** `Session.detach`, of which only the first does anything, and `Session.drop` at the end of a session.
-/

namespace Unwinder

variable {κ : Type}

/-! ## Sessions -/

/-- How memory is read. -/
inductive Channel where
  /-- By copying out of the process. -/
  | direct
  /-- Through the memory file, which is opened when it is first read. -/
  | memoryFile (isOpen : Bool)
  /-- The thread has been let go, and nothing can be read. -/
  | closed
  deriving DecidableEq

/-- The name of a channel. -/
def Channel.name : Channel → String
  | .direct => "ProcessVm"
  | .memoryFile _ => "ProcMem"
  | .closed => "None"

/-- A stopped thread `tid`, through which the memory of the process `pid` is read. -/
structure Session where
  pid : Int
  tid : Int
  channel : Channel
  deriving DecidableEq

namespace Session

/-- Whether the thread is still held. -/
def isAttached (s : Session) : Bool := s.channel ≠ .closed

/-! ## Beginning -/

/-- Lets a thread go; that it fails makes no difference. -/
def letGo (kernel : Kernel κ) (tid : Int) (k : κ) : κ := (kernel.call (.detach tid) k).2

/-- Stops the thread `tid`, or the main thread of `pid` when `tid` is not positive. -/
def attach (kernel : Kernel κ) (enabled : Bool) (pid tid : Int) (k : κ) : Except Error Session × κ :=
  if !enabled then (.error (.misuse .attachDisabled), k)
  else if pid ≤ 0 then (.error (.misuse (.processId pid)), k)
  else
    let tid := if tid ≤ 0 then pid else tid
    match kernel.call (.attach tid) k with
    | (.error e, k) => (.error (.io (.attaching tid) (.errno e)), k)
    | (.ok (), k) =>
        match kernel.call (.await tid) k with
        | (.error e, k) => (.error (.io (.awaiting tid) (.errno e)), letGo kernel tid k)
        | (.ok status, k) =>
            if isStopped status then (.ok ⟨pid, tid, .direct⟩, k)
            else (.error (.io (.awaiting tid) (.notStopped tid status)), letGo kernel tid k)

/-! ## Reading -/

/-- The failures that mean that memory cannot be copied directly: no such call, not permitted, no such process,
    and an address range that is not readable in this way. -/
def isRefusal (e : Errno) : Bool :=
  e = .noCall || e = .notPermitted || e = .noProcess || e = .badAddress

/-- All of the bytes asked for, or the failure of a short read. -/
def whole (s : Session) (address : UInt64) (length : Nat) (bs : Bytes) : Except Error Bytes :=
  if bs.length = length then .ok bs else .error (.io (.memory s.pid) (.short bs.length length address))

/-- Reads the open memory file. -/
def readOpenFile (kernel : Kernel κ) (s : Session) (address : UInt64) (length : Nat) (k : κ) :
    Except Error Bytes × Session × κ :=
  let s := { s with channel := .memoryFile true }
  match kernel.call (.readMemory s.pid address length) k with
  | (.error e, k) => (.error (.io (.memoryRead s.pid address) (.errno e)), s, k)
  | (.ok bs, k) => (s.whole address length bs, s, k)

/-- Reads the memory file, opening it first when it is not open. -/
def readFile (kernel : Kernel κ) (s : Session) (isOpen : Bool) (address : UInt64) (length : Nat) (k : κ) :
    Except Error Bytes × Session × κ :=
  if isOpen then readOpenFile kernel s address length k
  else
    match kernel.call (.openMemory s.pid) k with
    | (.error e, k) => (.error (.io (.openingMemory s.pid) (.errno e)), { s with channel := .memoryFile false }, k)
    | (.ok (), k) => readOpenFile kernel s address length k

/-- Reads `length` bytes at an address of the process. -/
def read (kernel : Kernel κ) (s : Session) (address : UInt64) (length : Nat) (k : κ) :
    Except Error Bytes × Session × κ :=
  if length = 0 then (.error (.misuse .emptyRead), s, k)
  else
    match s.channel with
    | .closed => (.error (.misuse (.detached s.pid)), s, k)
    | .memoryFile isOpen => readFile kernel s isOpen address length k
    | .direct =>
        match kernel.call (.readRemote s.pid address length) k with
        | (.ok bs, k) => (s.whole address length bs, s, k)
        | (.error e, k) =>
            if isRefusal e then readFile kernel s false address length k
            else (.error (.io (.remoteRead s.pid address) (.errno e)), s, k)

/-- Reads a word of eight bytes, lowest byte first. -/
def word (kernel : Kernel κ) (s : Session) (address : UInt64) (k : κ) : Except Error UInt64 × Session × κ :=
  match s.read kernel address 8 k with
  | (.ok bs, s, k) => (.ok (UInt64.ofNat (LittleEndian.toNat bs)), s, k)
  | (.error e, s, k) => (.error e, s, k)

/-- A session as a memory. -/
def source (kernel : Kernel κ) : WordSource (Session × κ) where
  read address state := state.1.word kernel address state.2

/-! ## Ending -/

/-- Lets the thread go, unless that has been done. -/
def detach (kernel : Kernel κ) (s : Session) (k : κ) : Session × κ :=
  if s.isAttached then ({ s with channel := .closed }, letGo kernel s.tid k) else (s, k)

/-- Gives a session up, which lets the thread go if it is still held. -/
def drop (kernel : Kernel κ) (s : Session) (k : κ) : κ := (s.detach kernel k).2

end Session

end Unwinder
