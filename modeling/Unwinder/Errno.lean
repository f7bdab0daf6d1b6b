/-!
# `Unwinder.Errno` — the error numbers of the operating system

System calls and file operations fail with a number. The unwinder tells a few of them apart, and writes each
as its text and its number.
-/

namespace Unwinder

/-- An error number. -/
structure Errno where
  number : Nat
  deriving DecidableEq

namespace Errno

/-! ## The numbers that matter -/

def notPermitted : Errno := ⟨1⟩
def noEntry : Errno := ⟨2⟩
def noProcess : Errno := ⟨3⟩
def inputOutput : Errno := ⟨5⟩
def badAddress : Errno := ⟨14⟩
def notDirectory : Errno := ⟨20⟩
def isDirectory : Errno := ⟨21⟩
def invalidArgument : Errno := ⟨22⟩
def nameTooLong : Errno := ⟨36⟩
def noCall : Errno := ⟨38⟩

/-! ## Their texts -/

/-- The system's text for a number. -/
def text (e : Errno) : String :=
  match e.number with
  | 1 => "Operation not permitted"
  | 2 => "No such file or directory"
  | 3 => "No such process"
  | 5 => "Input/output error"
  | 14 => "Bad address"
  | 20 => "Not a directory"
  | 21 => "Is a directory"
  | 22 => "Invalid argument"
  | 36 => "File name too long"
  | 38 => "Function not implemented"
  | n => s!"Unknown error {n}"

/-- The text, with the number after it. -/
def message (e : Errno) : String := s!"{e.text} (os error {e.number})"

end Errno

end Unwinder
