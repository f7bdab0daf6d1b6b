/-!
# `Unwinder.Bytes.Utf8` — where a byte string stops being UTF-8

Names and augmentation strings come from files and kernels as bytes. A byte string is either well-formed
UTF-8 (Unicode, table 3-7) or has a first fault, and text made from it puts U+FFFD where the faults are.

## Contents
- **One character.** `next` takes the longest well-formed prefix of one character off the front.
- **Faults.** `fault?` finds the first ill-formed place of a byte string; `IsText` says that there is none.
- **Text.** `decodeLossy` replaces every maximal ill-formed part by U+FFFD.
-/

namespace Unwinder.Utf8

/-! ## One character -/

/-- The first ill-formed place of a byte string: how many bytes before it are well formed, and how many bytes
    the ill-formed part has. A part that the end of the input cuts off has no length. -/
structure Fault where
  validUpTo : Nat
  length : Option Nat
  deriving DecidableEq

/-- The ranges that the bytes after a leading byte have to lie in, or none when no character begins so.
    The second byte is restricted where an overlong form, a surrogate or a value past U+10FFFF would begin. -/
def followers (lead : UInt8) : Option (List (UInt8 × UInt8)) :=
  if lead < 0x80 then some []
  else if lead < 0xc2 then none
  else if lead < 0xe0 then some [(0x80, 0xbf)]
  else if lead = 0xe0 then some [(0xa0, 0xbf), (0x80, 0xbf)]
  else if lead = 0xed then some [(0x80, 0x9f), (0x80, 0xbf)]
  else if lead < 0xf0 then some [(0x80, 0xbf), (0x80, 0xbf)]
  else if lead = 0xf0 then some [(0x90, 0xbf), (0x80, 0xbf), (0x80, 0xbf)]
  else if lead < 0xf4 then some [(0x80, 0xbf), (0x80, 0xbf), (0x80, 0xbf)]
  else if lead = 0xf4 then some [(0x80, 0x8f), (0x80, 0xbf), (0x80, 0xbf)]
  else none

/-- What the front of a byte string holds. -/
inductive Lexeme where
  /-- A character, by its code point and its number of bytes. -/
  | character (point size : Nat)
  /-- An ill-formed part of this many bytes. -/
  | broken (size : Nat)
  /-- A character that the end of the input cuts off. -/
  | cut
  deriving DecidableEq

/-- Reads the bytes after the lead: `point` holds the bits so far and `size` counts the bytes taken. -/
def Lexeme.finish (point size : Nat) : List (UInt8 × UInt8) → List UInt8 → Lexeme
  | [], _ => .character point size
  | _ :: _, [] => .cut
  | (low, high) :: ranges, b :: bs =>
      if low ≤ b ∧ b ≤ high then finish (point * 64 + (b.toNat - 0x80)) (size + 1) ranges bs else .broken size

/-- The payload bits of a leading byte, by the number of bytes that follow it. -/
def leadBits (lead : UInt8) : Nat → Nat
  | 0 => lead.toNat
  | 1 => lead.toNat % 0x20
  | 2 => lead.toNat % 0x10
  | _ => lead.toNat % 0x08

/-- The lexeme at the front of the byte string that begins with `lead`. -/
def next (lead : UInt8) (rest : List UInt8) : Lexeme :=
  match followers lead with
  | none => .broken 1
  | some ranges => Lexeme.finish (leadBits lead ranges.length) 1 ranges rest

/-! ## Faults -/

/-- The first fault of a byte string that stands at `position`; its first `skip` bytes belong to the character
    before it. -/
def faultFrom (position : Nat) : Nat → List UInt8 → Option Fault
  | _, [] => none
  | skip + 1, _ :: bs => faultFrom (position + 1) skip bs
  | 0, b :: bs =>
      match next b bs with
      | .character _ size => faultFrom (position + 1) (size - 1) bs
      | .broken size => some ⟨position, some size⟩
      | .cut => some ⟨position, none⟩

/-- The first fault of a byte string, none when it is well-formed UTF-8. -/
def fault? (bs : List UInt8) : Option Fault := faultFrom 0 0 bs

/-- Well-formed UTF-8. -/
def IsText (bs : List UInt8) : Prop := fault? bs = none

instance (bs : List UInt8) : Decidable (IsText bs) := inferInstanceAs (Decidable (fault? bs = none))

/-! ## Text -/

/-- What stands for an ill-formed part. -/
def replacement : Char := Char.ofNat 0xfffd

/-- The characters of a byte string, the first `skip` bytes of which have been used already. -/
def charactersFrom : Nat → List UInt8 → List Char
  | _, [] => []
  | skip + 1, _ :: bs => charactersFrom skip bs
  | 0, b :: bs =>
      match next b bs with
      | .character point size => Char.ofNat point :: charactersFrom (size - 1) bs
      | .broken size => replacement :: charactersFrom (size - 1) bs
      | .cut => [replacement]

/-- The text of a byte string, each maximal ill-formed part of it replaced by U+FFFD. -/
def decodeLossy (bs : List UInt8) : String := String.ofList (charactersFrom 0 bs)

end Unwinder.Utf8
