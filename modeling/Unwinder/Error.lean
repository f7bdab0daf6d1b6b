import Unwinder.Bytes.Utf8
import Unwinder.Cfi.PointerKind
import Unwinder.Errno
import Unwinder.Path
import Unwinder.Pool.Handle

/-!
# `Unwinder.Error` — everything that can go wrong, by cause

A failure is kept as its cause; its wording is in `Unwinder.Error.Message`. Callers that only need the kind of
a failure use `Error.status`.

## Contents
- **Causes.** `Misuse` (the caller broke a contract), `Feature` (valid input that is not interpreted), `Defect`
  (malformed input), `Activity` with `IoFault` (the system or a memory refused).
- **`Error`** joins them, and **`Status`** is the coarse outcome with its stable code.
-/

namespace Unwinder

/-! ## Causes -/

/-- How a caller can break what is asked of it. -/
inductive Misuse where
  /-- A register set of a format this library does not know. -/
  | registerVersion (found : UInt16)
  /-- A probe record whose registers are of a format this library does not know. -/
  | recordVersion (found : UInt16)
  /-- A process id out of range. -/
  | processId (pid : Int)
  /-- A thread id out of range. -/
  | threadId (tid : Int)
  /-- A code address outside the range it is looked up in. -/
  | outsideRange (pc first last : UInt64)
  /-- A handle whose contents are gone. -/
  | staleHandle (handle : Handle)
  /-- A handle given back more often than it was taken. -/
  | unheldHandle (handle : Handle)
  | shutDown
  | noPath
  | noFrames
  | noContext
  | noRequest
  /-- Attaching is switched off. -/
  | attachDisabled
  /-- A read of no bytes. -/
  | emptyRead
  /-- A read through a session that has let its target go. -/
  | detached (pid : Int)
  deriving DecidableEq

/-- What valid input can ask for that is not interpreted. -/
inductive Feature where
  /-- A frame record with a 64-bit length. -/
  | wideRecord (offset : Nat)
  | pointerForm (form encoding : UInt8)
  | pointerEncoding (encoding : UInt8)
  | pointerBase (base : Cfi.PointerBase)
  /-- An instruction whose operand is an expression. -/
  | expression (opcode : UInt8)
  | instruction (opcode : UInt8)
  /-- An architecture that does not say where the frame address comes from. -/
  | frameAddressOf (architecture : String)
  /-- An architecture that does not say where the return address comes from. -/
  | returnAddressOf (architecture : String)
  /-- A row that names no register for the frame address. -/
  | noFrameRule
  /-- A frame address counted from a register that is not sampled. -/
  | frameRegister (register : UInt64)
  /-- A return address in a column that is not sampled. -/
  | returnColumn (column : UInt64)
  /-- A return address that the row declares lost. -/
  | returnLost
  deriving DecidableEq

/-- How input can be malformed. -/
inductive Defect where
  /-- A probe record shorter than a record is. -/
  | shortRecord (size expected : Nat)
  | noMagic
  | byteOrder (mark : UInt8)
  | fileClass (mark : UInt8)
  | shortHeader
  | noSections
  | smallEntries (size : Nat)
  /-- A section header table that ends past the largest address. -/
  | tableOverflow
  | tableOutside (finish size : Nat)
  | nameTableIndex (index count : Nat)
  | sectionOutside (offset length size : Nat)
  | nameOutside (offset : Nat)
  | nameOpen
  | emptyFile (path : Path)
  | frameSectionOutside
  | recordOverrun (offset length size : Nat)
  | truncated (wanted left : Nat)
  | unknownCie (offset id : Nat)
  | cieVersion (version : UInt8)
  | augmentationOpen
  | augmentationText (fault : Utf8.Fault)
  | unsignedOverflow
  | signedOverflow
  | addressSize (size : UInt8)
  | programOutside
  /-- A function record without the common record it refers to. -/
  | orphan (offset : Nat)
  deriving DecidableEq

/-- What was being done when the system or a memory refused. -/
inductive Activity where
  | snapshot (base : UInt64)
  | file (path : Path)
  | attaching (tid : Int)
  | awaiting (tid : Int)
  | memory (pid : Int)
  | remoteRead (pid : Int) (address : UInt64)
  | openingMemory (pid : Int)
  | memoryRead (pid : Int) (address : UInt64)
  deriving DecidableEq

/-- How it was refused. -/
inductive IoFault where
  | errno (e : Errno)
  /-- A path that holds the character that ends paths. -/
  | terminatorInPath
  | notCaptured (length : Nat) (address : UInt64)
  | short (got wanted : Nat) (address : UInt64)
  | notStopped (tid : Int) (status : UInt32)
  deriving DecidableEq

/-! ## Errors and their kinds -/

/-- A failure, by its cause. -/
inductive Error where
  | misuse (cause : Misuse)
  | unsupportedArchitecture (tag : UInt16)
  | unsupported (feature : Feature)
  | io (activity : Activity) (fault : IoFault)
  | malformed (defect : Defect)
  | noDebugData (path : Path)
  | poolFull (slots : Nat)
  deriving DecidableEq

/-- The coarse outcome of an operation. -/
inductive Status where
  | ok
  | invalidArgument
  | unsupportedArchitecture
  | notImplemented
  | io
  | badFormat
  | noDebugData
  | cacheFull
  deriving DecidableEq

/-- The stable number of an outcome, zero for success and negative for failures. -/
def Status.code : Status → Int
  | .ok => 0
  | .invalidArgument => -1
  | .unsupportedArchitecture => -2
  | .notImplemented => -3
  | .io => -4
  | .badFormat => -5
  | .noDebugData => -6
  | .cacheFull => -7

/-- The name of an outcome. -/
def Status.name : Status → String
  | .ok => "Ok"
  | .invalidArgument => "InvalidArgument"
  | .unsupportedArchitecture => "UnsupportedArchitecture"
  | .notImplemented => "NotImplemented"
  | .io => "Io"
  | .badFormat => "BadFormat"
  | .noDebugData => "NoDebugData"
  | .cacheFull => "CacheFull"

/-- The kind of a failure. -/
def Error.status : Error → Status
  | .misuse _ => .invalidArgument
  | .unsupportedArchitecture _ => .unsupportedArchitecture
  | .unsupported _ => .notImplemented
  | .io _ _ => .io
  | .malformed _ => .badFormat
  | .noDebugData _ => .noDebugData
  | .poolFull _ => .cacheFull

/-- No failure has the outcome of a success. -/
theorem Error.status_ne_ok (e : Error) : e.status ≠ .ok := by
  cases e <;> simp [Error.status]

end Unwinder
