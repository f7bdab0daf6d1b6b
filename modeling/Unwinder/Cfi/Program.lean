import Unwinder.Cfi.Instruction

/-!
# `Unwinder.Cfi.Program` — instruction streams

A program is read to its end or to the first thing in it that is not an instruction.

## Contents
- **`Program`** holds the instructions before the fault, and the fault if there is one.
- **`Program.decode`** reads a byte string as a program. Every instruction takes a byte at least, which is why
  the reading ends.
-/

namespace Unwinder.Cfi

/-- The instructions of a byte string, and why it could not be read on when that is so. -/
structure Program where
  instructions : List Instruction
  fault : Option Error
  deriving DecidableEq

namespace Program

/-- A program with one instruction more in front. -/
def cons (i : Instruction) (p : Program) : Program := { p with instructions := i :: p.instructions }

/-- Reads a byte string as a program. -/
def decode (addressSize : UInt8) : Bytes → Program
  | [] => ⟨[], none⟩
  | opcode :: bs =>
      match h : Instruction.afterOpcode addressSize opcode bs with
      | .error e => ⟨[], some e⟩
      | .ok (i, rest) =>
          have : rest.length < (opcode :: bs).length :=
            Nat.lt_succ_of_le (Instruction.afterOpcode_consumes addressSize opcode bs i rest h).length_le
          cons i (decode addressSize rest)
termination_by bs => bs.length
decreasing_by exact this

@[simp] theorem decode_nil (addressSize : UInt8) : decode addressSize [] = ⟨[], none⟩ := by
  rw [decode]

theorem decode_cons_error {addressSize opcode : UInt8} {bs : Bytes} {e : Error}
    (h : Instruction.afterOpcode addressSize opcode bs = .error e) :
    decode addressSize (opcode :: bs) = ⟨[], some e⟩ := by
  rw [decode]
  split
  · rename_i e' he
    rw [h] at he
    cases he
    rfl
  · rename_i i rest hi
    rw [h] at hi
    cases hi

theorem decode_cons_ok {addressSize opcode : UInt8} {bs rest : Bytes} {i : Instruction}
    (h : Instruction.afterOpcode addressSize opcode bs = .ok (i, rest)) :
    decode addressSize (opcode :: bs) = cons i (decode addressSize rest) := by
  rw [decode]
  split
  · rename_i e he
    rw [h] at he
    cases he
  · rename_i i' rest' hi
    rw [h] at hi
    cases hi
    rfl

end Program

end Unwinder.Cfi
