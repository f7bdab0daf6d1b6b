import Unwinder.Bytes.Field

/-!
# `Unwinder.Image.Layout` — where the fields of an object file lie

Object files come in two classes, of 32-bit and of 64-bit words. They hold the same fields at different
places, so that one table per class is all that tells them apart.

## Contents
- **Classes.** `FileClass` and its `Layout`.
- **Fields.** `numberAt`, the little-endian number at a place of a byte string, which depends on the bytes there only
  (`numberAt_congr`).
-/

namespace Unwinder

/-- The class of an object file. -/
inductive FileClass where
  | bits32
  | bits64
  deriving DecidableEq

/-- The places of the fields of a class: those of the file header, counted from the start of the file, and
    those of a section header, counted from the header's own start. -/
structure Layout where
  /-- Size of the file header. -/
  fileHeader : Nat
  /-- Width of addresses, offsets and sizes. -/
  word : Nat
  /-- Offset of the section header table. -/
  table : Nat
  /-- Size of a section header. -/
  entrySize : Nat
  /-- Number of section headers. -/
  count : Nat
  /-- Index of the section that holds the section names. -/
  names : Nat
  /-- Least size of a section header. -/
  sectionHeader : Nat
  address : Nat
  offset : Nat
  length : Nat

namespace FileClass

/-- The layout of a class. -/
def layout : FileClass → Layout
  | .bits32 =>
    { fileHeader := 52, word := 4, table := 0x20, entrySize := 0x2e, count := 0x30, names := 0x32,
      sectionHeader := 40, address := 12, offset := 16, length := 20 }
  | .bits64 =>
    { fileHeader := 64, word := 8, table := 0x28, entrySize := 0x3a, count := 0x3c, names := 0x3e,
      sectionHeader := 64, address := 16, offset := 24, length := 32 }

/-- Number of bits of a word. -/
def bits : FileClass → Nat
  | .bits32 => 32
  | .bits64 => 64

/-- Size of a target address. -/
def addressSize : FileClass → UInt8
  | .bits32 => 4
  | .bits64 => 8

/-- A class as diagnostics show it. -/
def text : FileClass → String
  | .bits32 => "Elf32"
  | .bits64 => "Elf64"

end FileClass

/-- The number of `width` bytes at an offset; what lies past the end counts as zero. -/
def numberAt (bs : Bytes) (offset width : Nat) : Nat := LittleEndian.toNat ((bs.drop offset).take width)

/-- A stretch of a byte string depends on its own bytes only. -/
theorem stretch_congr {bs bs' : Bytes} {offset width : Nat}
    (h : ∀ p, offset ≤ p → p < offset + width → bs'[p]? = bs[p]?) :
    (bs'.drop offset).take width = (bs.drop offset).take width := by
  apply List.ext_getElem?
  intro k
  rw [List.getElem?_take, List.getElem?_take, List.getElem?_drop, List.getElem?_drop]
  split
  · exact h (offset + k) (Nat.le_add_right _ _) (by omega)
  · rfl

/-- A number depends on its own bytes only. -/
theorem numberAt_congr {bs bs' : Bytes} {offset width : Nat}
    (h : ∀ p, offset ≤ p → p < offset + width → bs'[p]? = bs[p]?) :
    numberAt bs' offset width = numberAt bs offset width := congrArg LittleEndian.toNat (stretch_congr h)

end Unwinder
