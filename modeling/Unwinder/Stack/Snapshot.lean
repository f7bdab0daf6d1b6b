import Unwinder.Bytes.Field
import Unwinder.Stack.Source

/-!
# `Unwinder.Stack.Snapshot` — a copy of a window of the stack

A snapshot is taken while the target stands still. A read succeeds when all of its bytes lie in the window,
counted without wrapping at the largest address.

## Contents
- **Reads.** `Snapshot.read`, and `Snapshot.word` for a word of eight bytes; `Snapshot.source`, a snapshot as a memory.
- **Buffers.** `Snapshot.fill` reads into a buffer, with the steps by which machine words find the bytes
  (`Snapshot.stretch?`).
-/

namespace Unwinder

/-- The bytes of the stack from `base` on. -/
structure Snapshot where
  base : UInt64
  bytes : Bytes
  deriving DecidableEq

namespace Snapshot

/-! ## Reads -/

/-- Whether `length` bytes at an address lie in the window. -/
def Holds (s : Snapshot) (address : UInt64) (length : Nat) : Prop :=
  s.base ≤ address ∧ address.toNat - s.base.toNat + length ≤ s.bytes.length

instance (s : Snapshot) (address : UInt64) (length : Nat) : Decidable (s.Holds address length) :=
  inferInstanceAs (Decidable (_ ∧ _))

/-- The `length` bytes at an address. -/
def read (s : Snapshot) (address : UInt64) (length : Nat) : Except Error Bytes :=
  if s.Holds address length then .ok ((s.bytes.drop (address.toNat - s.base.toNat)).take length)
  else .error (.io (.snapshot s.base) (.notCaptured length address))

/-- The word of eight bytes at an address, lowest byte first. -/
def word (s : Snapshot) (address : UInt64) : Except Error UInt64 := do
  return UInt64.ofNat (LittleEndian.toNat (← s.read address 8))

/-- A snapshot as a memory, which never changes. -/
def source (s : Snapshot) : WordSource Unit where
  read address state := (s.word address, state)

/-! ## Buffers -/

/-- The `length` bytes at an address, in steps each of which can fail: how far the address is behind the base, where the
    bytes end, and whether the window reaches that far. -/
def stretch? (s : Snapshot) (address : UInt64) (length : Nat) : Option Bytes := do
  let start ← if s.base ≤ address then some (address - s.base).toNat else none
  let finish ← LittleEndian.inWord? (start + length)
  if finish ≤ s.bytes.length then some ((s.bytes.drop start).take (finish - start)) else none

/-- Fills a buffer with the bytes at an address. A buffer that cannot be filled stays as it is. -/
def fill (s : Snapshot) (address : UInt64) (buffer : Bytes) : Except Error Unit × Bytes :=
  match s.stretch? address buffer.length with
  | some bytes => (.ok (), bytes)
  | none => (.error (.io (.snapshot s.base) (.notCaptured buffer.length address)), buffer)

end Snapshot

end Unwinder
