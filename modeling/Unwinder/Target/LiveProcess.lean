import Unwinder.Target.Kernel

/-!
# `Unwinder.Target.LiveProcess` — a process of two threads, as a kernel shows it

A process has pages of memory at fixed addresses, some of them closed to other processes, and a main thread and
a second one, each of which is traced or not. It may have been killed.

## Contents
- **Memory.** `Segment`, and `LiveProcess.bytesFrom`, which copies up to the first page that is not there.
- **Threads.** `LiveProcess.thread?` and `LiveProcess.setTraced`.
- **`LiveProcess.kernel`** answers the calls that attach to the process and read it.
-/

namespace Unwinder

/-! ## Memory -/

/-- Size of a page. -/
def pageSize : Nat := 4096

/-- Bytes mapped at an address. All the pages that hold them are mapped, and are zero elsewhere. -/
structure Segment where
  base : Nat
  bytes : Bytes
  /-- Whether other processes may copy from the pages. -/
  isReadable : Bool
  deriving DecidableEq

namespace Segment

/-- Whether a page of the segment holds an address. -/
def maps (s : Segment) (address : Nat) : Bool :=
  s.base / pageSize ≤ address / pageSize && address / pageSize ≤ (s.base + s.bytes.length - 1) / pageSize
    && !s.bytes.isEmpty

/-- The byte at an address of the segment's pages. -/
def byteAt (s : Segment) (address : Nat) : UInt8 :=
  if s.base ≤ address then s.bytes[address - s.base]?.getD 0 else 0

end Segment

/-- Whose call it is that a process is asked about: the main thread or the second one. -/
inductive ThreadRole where
  | main
  | second
  deriving DecidableEq

/-- A process of two threads. -/
structure LiveProcess where
  segments : List Segment
  /-- Id of the process and of its main thread. -/
  main : Int
  /-- Id of the second thread. -/
  second : Int
  mainTraced : Bool
  secondTraced : Bool
  alive : Bool
  deriving DecidableEq

namespace LiveProcess

/-- The bytes from an address on, up to `length` of them and up to the first that lies in no segment of those
    given. -/
def bytesFrom (segments : List Segment) (address : Nat) : Nat → Bytes
  | 0 => []
  | length + 1 =>
      match segments.find? (·.maps address) with
      | some s => s.byteAt address :: bytesFrom segments (address + 1) length
      | none => []

/-- What a copy of memory answers: the bytes there are, or a failure when there are none. -/
def copy (segments : List Segment) (refusal : Errno) (address length : Nat) : Except Errno Bytes :=
  match bytesFrom segments address length with
  | [] => if length = 0 then .ok [] else .error refusal
  | bs => .ok bs

/-! ## Threads -/

/-- The thread with an id. -/
def thread? (p : LiveProcess) (id : Int) : Option ThreadRole :=
  if id = p.main then some .main else if id = p.second then some .second else none

/-- Whether a thread is traced. -/
def isTraced (p : LiveProcess) : ThreadRole → Bool
  | .main => p.mainTraced
  | .second => p.secondTraced

/-- The process with a thread traced or not. -/
def setTraced (p : LiveProcess) (traced : Bool) : ThreadRole → LiveProcess
  | .main => { p with mainTraced := traced }
  | .second => { p with secondTraced := traced }

/-- The status of a thread that has stopped at the signal to stop. -/
def stoppedStatus : UInt32 := 0x137f

/-- The addresses from here on are no file positions. -/
def fileEnd : Nat := 0x8000000000000000

/-- What a killed process answers: it cannot be traced, and has no memory left. -/
def answerDead (p : LiveProcess) : (c : SystemCall) → c.Answer
  | .attach id => .error (if (p.thread? id).isSome then .notPermitted else .noProcess)
  | .await _ => .error .noProcess
  | .detach _ => .error .noProcess
  | .readRemote _ _ _ => .error .noProcess
  | .openMemory id => .error (if (p.thread? id).isSome then .noProcess else .noEntry)
  | .readMemory _ _ _ => .ok []

/-- What a running process answers. The id of either thread names its memory. -/
def answer (p : LiveProcess) : (c : SystemCall) → c.Answer × LiveProcess
  | .attach id =>
      match p.thread? id with
      | none => (.error .noProcess, p)
      | some role => if p.isTraced role then (.error .notPermitted, p) else (.ok (), p.setTraced true role)
  | .await id => (match p.thread? id with | none => .error .noProcess | some _ => .ok stoppedStatus, p)
  | .detach id =>
      match p.thread? id with
      | none => (.error .noProcess, p)
      | some role => (.ok (), p.setTraced false role)
  | .readRemote id address length =>
      (match p.thread? id with
        | none => .error .noProcess
        | some _ => copy (p.segments.filter (·.isReadable)) .badAddress address.toNat length, p)
  | .openMemory id => (match p.thread? id with | none => .error .noEntry | some _ => .ok (), p)
  | .readMemory _ address length =>
      (if fileEnd ≤ address.toNat then .error .invalidArgument
        else copy p.segments .inputOutput address.toNat length, p)

/-- A kernel on which this is the only process that can be reached. -/
def kernel : Kernel LiveProcess where
  call c p := if p.alive then p.answer c else (p.answerDead c, p)

/-- The process after it has been killed. -/
def kill (p : LiveProcess) : LiveProcess := { p with alive := false, mainTraced := false, secondTraced := false }

end LiveProcess

end Unwinder
