import Unwinder.Cfi.Program

/-!
# `Proofs.Programs.Items` — a program asked for one item at a time

A program can be read as far as it is needed: each request gives the next instruction, or what cannot be read, and after
that nothing. This module shows that the requests give the items of the program that is decoded at once.

## Contents
- **Requests.** `Program.next` answers one, `Program.answer` a given one of many.
- **Items.** `Program.items`, with `answer_eq`.
-/

namespace Unwinder.Cfi.Program

/-- **One request**: the item at the front of the bytes that are left, and what is left then. Nothing is left behind what
    cannot be read. -/
def next (addressSize : UInt8) : Bytes → Option (Except Error Instruction) × Bytes
  | [] => (none, [])
  | opcode :: bs =>
      match Instruction.afterOpcode addressSize opcode bs with
      | .ok (i, rest) => (some (.ok i), rest)
      | .error e => (some (.error e), [])

/-- The answer to a request, with as many requests before it as the number says. -/
def answer (addressSize : UInt8) : Nat → Bytes → Option (Except Error Instruction)
  | 0, bs => (next addressSize bs).1
  | earlier + 1, bs => answer addressSize earlier (next addressSize bs).2

/-- The items of a program: its instructions, and its fault behind them. -/
def items (p : Program) : List (Except Error Instruction) := p.instructions.map .ok ++ (p.fault.map .error).toList

/-- **Requests are answered by the items of the program**, one after the other, and by nothing after the last. -/
theorem answer_eq (addressSize : UInt8) (n : Nat) (bs : Bytes) :
    answer addressSize n bs = (decode addressSize bs).items[n]? := by
  induction n generalizing bs with
  | zero =>
      cases bs with
      | nil => rw [decode_nil]; rfl
      | cons opcode bs =>
          rw [answer, next]
          cases hread : Instruction.afterOpcode addressSize opcode bs with
          | error e => rw [decode_cons_error hread]; rfl
          | ok pair => rw [decode_cons_ok hread]; rfl
  | succ n ih =>
      cases bs with
      | nil =>
          rw [answer, next, ih, decode_nil]
          rfl
      | cons opcode bs =>
          rw [answer, next]
          cases hread : Instruction.afterOpcode addressSize opcode bs with
          | error e =>
              rw [decode_cons_error hread]
              show answer addressSize n [] = none
              rw [ih, decode_nil]
              rfl
          | ok pair =>
              rw [decode_cons_ok hread]
              show answer addressSize n pair.2 = (decode addressSize pair.2).items[n]?
              exact ih pair.2

end Unwinder.Cfi.Program
