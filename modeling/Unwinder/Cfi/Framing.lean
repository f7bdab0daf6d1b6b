import Unwinder.Bytes.Field

/-!
# `Unwinder.Cfi.Framing` — cutting a frame section into records

A frame section is a run of records, each behind a word with its length. A length of zero ends the run, and so
does a rest too short for a length word.

## Contents
- **`RawRecord`**, a record before it is read.
- **`Framing.cut`** gives the records up to the end or to the first length that cannot be right, and the fault
  in that case. Every record takes a length word at least, which is why the cutting ends.
-/

namespace Unwinder.Cfi

/-- A record before it is read. -/
structure RawRecord where
  /-- Offset of the length word in the section. -/
  offset : Nat
  /-- The bytes after the length word. -/
  body : Bytes
  deriving DecidableEq

/-- The section offset after a record. -/
def RawRecord.finish (r : RawRecord) : Nat := r.offset + 4 + r.body.length

/-- The records of a section, and why they end early when they do. -/
structure Framing where
  records : List RawRecord
  fault : Option Error
  deriving DecidableEq

namespace Framing

/-- The length that announces a length of 64 bits. -/
def wideMark : Nat := 0xffffffff

/-- Cuts the bytes from `offset` on of a section of `size` bytes. -/
def cutFrom (size offset : Nat) (bs : Bytes) : Framing :=
  if bs.length < 4 then ⟨[], none⟩
  else
    let length := LittleEndian.toNat (bs.take 4)
    let rest := bs.drop 4
    if length = 0 then ⟨[], none⟩
    else if length = wideMark then ⟨[], some (.unsupported (.wideRecord offset))⟩
    else if rest.length < length then ⟨[], some (.malformed (.recordOverrun offset length size))⟩
    else
      let more := cutFrom size (offset + 4 + length) (rest.drop length)
      ⟨⟨offset, rest.take length⟩ :: more.records, more.fault⟩
termination_by bs.length
decreasing_by
  simp only [List.length_drop]
  omega

/-- Cuts a section into its records. -/
def cut (bs : Bytes) : Framing := cutFrom bs.length 0 bs

end Framing

end Unwinder.Cfi
