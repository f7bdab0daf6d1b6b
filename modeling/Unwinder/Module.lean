import Unwinder.Cfi.Index
import Unwinder.Cfi.Recovery

/-!
# `Unwinder.Module` — loaded modules

A module is an object file that has been read and indexed. Files come from a `FileSystem`, which is a parameter.
-/

namespace Unwinder

/-- Where files come from: what reading the whole file at a path gives. -/
structure FileSystem where
  read : Path → Except IoFault Bytes

/-- Reads and accepts the image at a path. -/
def Image.load (files : FileSystem) (path : Path) : Except Error Image :=
  match files.read path with
  | .error fault => .error (.io (.file path) fault)
  | .ok [] => .error (.malformed (.emptyFile path))
  | .ok bs => Image.ofBytes path bs

/-- A loaded module. -/
structure Module where
  image : Image
  index : Cfi.FrameIndex
  deriving DecidableEq

namespace Module

/-- Loads the module at a path. -/
def load (files : FileSystem) (path : Path) : Except Error Module := do
  let image ← Image.load files path
  let index ← Cfi.FrameIndex.ofImage image
  return ⟨image, index⟩

/-- The path a module was loaded from, as it was written. -/
def path (m : Module) : Path := m.image.path

variable {σ : Type}

/-- Unwinds a frame that stands at `target` in the code of a function of the module. -/
def unwind (m : Module) (source : WordSource σ) (fde : Cfi.Fde) (target : UInt64) (regs : RegisterSet)
    (memory : σ) : Cfi.Unwound σ :=
  match m.index.records.cieOf fde with
  | .error e => ⟨.error e, regs, memory⟩
  | .ok cie => Cfi.unwind source m.image.bytes cie fde target regs memory

end Module

end Unwinder
