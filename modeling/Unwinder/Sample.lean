import Unwinder.Architecture
import Unwinder.Bytes.Field
import Unwinder.Capture.Request

/-!
# `Unwinder.Sample` — the records a probe writes

A probe writes one record of 320 bytes per sample: who was running, and its registers.

## Contents
- **Records.** `Sample`, `Sample.decode`; padding inside the record and bytes after it have no meaning.
- **Use.** `Sample.registerSet` and `Sample.request` check that the record can be unwound.
-/

namespace Unwinder

/-! ## Records -/

/-- One probe record. -/
structure Sample where
  pid : UInt32
  tid : UInt32
  /-- Tag of the architecture. -/
  tag : UInt16
  /-- Format of the registers. -/
  version : UInt16
  /-- Time of the sample in nanoseconds. -/
  time : UInt64
  sp : UInt64
  pc : UInt64
  slots : Vector UInt64 slotCount
  cookie : UInt64
  /-- The name of the thread, up to its first zero byte. -/
  command : Vector UInt8 16
  deriving DecidableEq

namespace Sample

/-- Size of a record. -/
def size : Nat := 320

/-- The same field `n` times over. -/
def fields {α : Type} (field : Field α) : (n : Nat) → Field (Vector α n)
  | 0 => return #v[]
  | n + 1 => do
      let before ← fields field n
      return before.push (← field)

/-- The fields of a record in the order they are stored. Four bytes of padding follow the version. -/
def record : Field Sample := do
  let pid ← Field.u32
  let tid ← Field.u32
  let tag ← Field.u16
  let version ← Field.u16
  let _ ← Field.take 4
  let time ← Field.u64
  let sp ← Field.u64
  let pc ← Field.u64
  let slots ← fields Field.u64 slotCount
  let cookie ← Field.u64
  let command ← fields Field.u8 16
  return { pid, tid, tag, version, time, sp, pc, slots, cookie, command }

/-- Reads the record at the front of a byte string. -/
def decode (bs : Bytes) : Except Error Sample :=
  if bs.length < size then .error (.malformed (.shortRecord bs.length size)) else (record bs).map (·.1)

/-- The name of the thread as text. -/
def processName (s : Sample) : String := Utf8.decodeLossy (s.command.toList.takeWhile (· ≠ 0))

/-! ## Use -/

/-- The registers of a record, when they are of a known architecture and in the current format. -/
def registerSet (s : Sample) : Except Error RegisterSet := do
  let architecture ← Architecture.ofTag s.tag
  if s.version = registerFormat then
    return { architecture.blank with sp := s.sp, pc := s.pc, slots := s.slots }
  else throw (.misuse (.recordVersion s.version))

/-- The largest process or thread id. -/
def maxId : Nat := 0x7fffffff

/-- A request to unwind the sampled thread with the frame records of a module. -/
def request (s : Sample) (module : Path) : Except Error Request := do
  if maxId < s.pid.toNat then throw (.misuse (.processId s.pid.toNat))
  else if maxId < s.tid.toNat then throw (.misuse (.threadId s.tid.toNat))
  else return { module, registers := ← s.registerSet, pid := s.pid.toNat, tid := s.tid.toNat }

end Sample

end Unwinder
