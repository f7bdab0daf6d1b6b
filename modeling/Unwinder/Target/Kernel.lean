import Unwinder.Bytes.Field

/-!
# `Unwinder.Target.Kernel` — what is asked of the operating system

A live process is stopped, read and let go through a few calls. What they answer is a parameter: a kernel gives
an answer to each call and may change its state.
-/

namespace Unwinder

/-- A call to the operating system. -/
inductive SystemCall where
  /-- Begin to trace a thread, which stops it. -/
  | attach (tid : Int)
  /-- Wait for a traced thread to change its state. -/
  | await (tid : Int)
  /-- Let a traced thread go. -/
  | detach (tid : Int)
  /-- Copy memory out of a process. -/
  | readRemote (pid : Int) (address : UInt64) (length : Nat)
  /-- Open the memory file of a process. -/
  | openMemory (pid : Int)
  /-- Read the open memory file of a process. -/
  | readMemory (pid : Int) (address : UInt64) (length : Nat)
  deriving DecidableEq

/-- What a call answers: a wait status, the bytes read, or nothing but success. -/
def SystemCall.Answer : SystemCall → Type
  | .attach _ => Except Errno Unit
  | .await _ => Except Errno UInt32
  | .detach _ => Except Errno Unit
  | .readRemote _ _ _ => Except Errno Bytes
  | .openMemory _ => Except Errno Unit
  | .readMemory _ _ _ => Except Errno Bytes

/-- A kernel with states in `κ`. -/
structure Kernel (κ : Type) where
  call : (c : SystemCall) → κ → c.Answer × κ

/-- Whether a wait status says that the thread has stopped. -/
def isStopped (status : UInt32) : Bool := status &&& 0xff = 0x7f

theorem isStopped_iff {status : UInt32} : isStopped status = true ↔ status &&& 0xff = 0x7f := decide_eq_true_iff

end Unwinder
