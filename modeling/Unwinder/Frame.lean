import Unwinder.Path

/-!
# `Unwinder.Frame` — one entry of a call stack
-/

namespace Unwinder

/-- A frame: where its code stands, its stack pointer, its canonical frame address and its return address. -/
structure Frame where
  pc : UInt64
  sp : UInt64
  cfa : UInt64
  ra : UInt64
  /-- Whether the frame comes from registers alone. -/
  isPartial : Bool
  /-- The module whose call frame information the frame is attributed to. -/
  module : Option Path
  deriving DecidableEq

namespace Frame

/-- The frame that buffers are filled with before a capture. -/
def blank : Frame := ⟨0, 0, 0, 0, false, none⟩

/-- The flag word of a frame: bit 0 says that it is partial. -/
def flags (f : Frame) : UInt32 := if f.isPartial then 1 else 0

end Frame

end Unwinder
