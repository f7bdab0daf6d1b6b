import Unwinder.Cfi.Program

/-!
# `Proofs.Reading` — what a reader takes off the front of its input

A field is read from the front of what is left of a record. This module separates the bytes that a reader takes
from those it leaves: what it takes it would take in front of anything else, so that a value never depends on
the bytes behind it.

## Contents
- **`Field.Reads`**: a byte string is read as a value, whatever follows it. It composes along `>>=`.
- **`Field.Exact`**: a reader takes nothing but byte strings it reads. All readers of instructions are exact.
- **Programs.** `Program.decode_append`: a program that decodes to its end is decoded the same in front of any
  other bytes, and the decoding goes on with those. `Program.decode_eq_cons`: the bytes of the first instruction.
-/

namespace Unwinder

namespace Field

/-! ## Spellings of a value -/

/-- **Spelling.** In front of anything, `bs` is read as `a`, and what follows is left. -/
def Reads {α : Type} (field : Field α) (bs : Bytes) (a : α) : Prop :=
  ∀ rest, field (bs ++ rest) = .ok (a, rest)

theorem Reads.pure {α : Type} (a : α) : Reads (Pure.pure a : Field α) [] a := fun _ => rfl

/-- Spellings of two readers in sequence are joined. -/
theorem Reads.bind {α β : Type} {first : Field α} {next : α → Field β} {bs cs : Bytes} {a : α} {b : β}
    (hfirst : Reads first bs a) (hnext : Reads (next a) cs b) : Reads (first >>= next) (bs ++ cs) b := by
  intro rest
  rw [List.append_assoc, bind_of_ok (hfirst (cs ++ rest))]
  exact hnext rest

/-- A computed value takes no bytes of its own. -/
theorem Reads.map {α β : Type} {field : Field α} {bs : Bytes} {a : α} (h : Reads field bs a) (f : α → β) :
    Reads (field >>= fun a => Pure.pure (f a)) bs (f a) := by
  intro rest
  rw [bind_of_ok (h rest), pure_apply]

/-- A check that succeeds reads nothing and gives its value. -/
theorem check_ok {α : Type} (a : α) : check (.ok a) = Pure.pure a := rfl

theorem reads_take (bs : Bytes) : Reads (take bs.length) bs bs := take_append bs

/-- A number that fits its width is spelled by its bytes. -/
theorem reads_number {width n : Nat} (h : n < LittleEndian.limit width) :
    Reads (number width) (LittleEndian.ofNat width n) n := number_append h

theorem reads_u8 (b : UInt8) : Reads u8 [b] b := by
  have hlt : b.toNat < LittleEndian.limit 1 := b.toNat_lt
  have h := (reads_number hlt).map UInt8.ofNat
  rwa [UInt8.ofNat_toNat, LittleEndian.ofNat, LittleEndian.ofNat, UInt8.ofNat_toNat] at h

theorem reads_u32 {n : Nat} (h : n < LittleEndian.limit 4) :
    Reads u32 (LittleEndian.ofNat 4 n) (UInt32.ofNat n) := (reads_number h).map UInt32.ofNat

theorem reads_u64 (n : UInt64) : Reads u64 (LittleEndian.ofNat 8 n.toNat) n := by
  have hlt : n.toNat < LittleEndian.limit 8 := n.toNat_lt
  have h := (reads_number hlt).map UInt64.ofNat
  rwa [UInt64.ofNat_toNat] at h

/-! ## Readers that look at nothing they leave -/

/-- **Exactness.** What a reader takes is a spelling of its value. -/
def Exact {α : Type} (field : Field α) : Prop :=
  ∀ bs a rest, field bs = .ok (a, rest) → ∃ front, bs = front ++ rest ∧ Reads field front a

theorem exact_pure {α : Type} (a : α) : Exact (pure a : Field α) := by
  intro bs a' rest h
  cases h
  exact ⟨[], rfl, Reads.pure a⟩

theorem exact_refuse {α : Type} (e : Error) : Exact (refuse e : Field α) := by
  intro bs a rest h
  cases h

theorem Exact.bind {α β : Type} {first : Field α} {next : α → Field β} (hfirst : Exact first)
    (hnext : ∀ a, Exact (next a)) : Exact (first >>= next) := by
  intro bs b rest h
  obtain ⟨a, mid, hmid, hrest⟩ := bind_eq_ok.mp h
  obtain ⟨front, hbs, hreads⟩ := hfirst bs a mid hmid
  obtain ⟨back, hback, hreads'⟩ := hnext a mid b rest hrest
  refine ⟨front ++ back, ?_, hreads.bind hreads'⟩
  rw [hbs, hback, List.append_assoc]

theorem Exact.map {α β : Type} {field : Field α} (h : Exact field) (f : α → β) :
    Exact (field >>= fun a => pure (f a)) := h.bind fun a => exact_pure (f a)

theorem exact_take (n : Nat) : Exact (take n) := by
  intro bs a rest h
  unfold take at h
  split at h
  · rename_i hn
    cases h
    refine ⟨bs.take n, (List.take_append_drop n bs).symm, ?_⟩
    have hreads := reads_take (bs.take n)
    rwa [List.length_take_of_le hn] at hreads
  · cases h

theorem exact_number (width : Nat) : Exact (number width) := (exact_take width).map _

theorem exact_u8 : Exact u8 := (exact_number 1).map _

theorem exact_u16 : Exact u16 := (exact_number 2).map _

theorem exact_u32 : Exact u32 := (exact_number 4).map _

theorem exact_address (size : UInt8) : Exact (address size) := by
  unfold address
  split
  · exact (exact_number size.toNat).map _
  · exact exact_refuse _

end Field

/-! ## Numerals and instructions -/

namespace Leb128

theorem exact_groups (defect : Defect) (count : Nat) : Field.Exact (groups defect count) := by
  induction count with
  | zero => exact Field.exact_u8.bind fun _ => Field.exact_refuse _
  | succ count ih =>
      refine Field.exact_u8.bind fun b => ?_
      split
      · exact Field.exact_pure _
      · exact ih.map _

theorem exact_unsigned : Field.Exact unsigned := (exact_groups _ _).map _

theorem exact_signed : Field.Exact signed := (exact_groups _ _).map _

end Leb128

namespace Cfi

theorem Instruction.exact_operands (addressSize opcode : UInt8) :
    Field.Exact (Instruction.operands addressSize opcode) := by
  have hunsigned := Leb128.exact_unsigned
  have hsigned := Leb128.exact_signed
  -- a layout of operands in each case
  unfold Instruction.operands
  split
  · exact Field.exact_pure _
  · exact (Field.exact_address addressSize).map _
  · exact Field.exact_u8.map _
  · exact Field.exact_u16.map _
  · exact Field.exact_u32.map _
  · exact hunsigned.bind fun _ => hunsigned.map _
  · exact hunsigned.map _
  · exact hunsigned.map _
  · exact hunsigned.map _
  · exact hunsigned.bind fun _ => hunsigned.map _
  · exact hunsigned.map _
  · exact hunsigned.map _
  · exact Field.exact_refuse _
  · exact Field.exact_refuse _
  · exact hunsigned.bind fun _ => hsigned.map _
  · exact hunsigned.bind fun _ => hsigned.map _
  · exact hsigned.map _
  · exact Field.exact_refuse _

theorem Instruction.exact_afterOpcode (addressSize opcode : UInt8) :
    Field.Exact (Instruction.afterOpcode addressSize opcode) := by
  unfold Instruction.afterOpcode
  split
  · exact Field.exact_pure _
  · exact Leb128.exact_unsigned.map _
  · exact Field.exact_pure _
  · exact Instruction.exact_operands addressSize opcode

/-! ## Programs in front of other bytes -/

namespace Program

/-- **Whole programs.** A program that decodes to its end is decoded the same in front of any bytes; then the
    decoding goes on with those. -/
theorem decode_append (addressSize : UInt8) (more : Bytes) (bs : Bytes)
    (h : (decode addressSize bs).fault = none) :
    decode addressSize (bs ++ more) =
      ⟨(decode addressSize bs).instructions ++ (decode addressSize more).instructions,
        (decode addressSize more).fault⟩ := by
  -- along the decoding of `bs`: each instruction read there is read the same in front of `more`
  induction hlen : bs.length using Nat.strongRecOn generalizing bs with
  | ind n ih =>
      cases bs with
      | nil => rw [decode_nil, List.nil_append, List.nil_append]
      | cons opcode bs =>
          cases hread : Instruction.afterOpcode addressSize opcode bs with
          | error e =>
              rw [decode_cons_error hread] at h
              cases h
          | ok pair =>
              obtain ⟨i, rest⟩ := pair
              obtain ⟨front, hbs, hreads⟩ := Instruction.exact_afterOpcode _ _ _ _ _ hread
              have hread' : Instruction.afterOpcode addressSize opcode (bs ++ more) = .ok (i, rest ++ more) := by
                rw [hbs, List.append_assoc]
                exact hreads (rest ++ more)
              have hlt : rest.length < n := by
                rw [← hlen, List.length_cons, hbs, List.length_append]
                omega
              rw [decode_cons_ok hread] at h ⊢
              rw [List.cons_append, decode_cons_ok hread', ih rest.length hlt rest h rfl]
              rfl

/-- **The first instruction of a program has bytes of its own.** What is behind them is decoded as the rest. -/
theorem decode_eq_cons {addressSize : UInt8} {bs : Bytes} {i : Instruction} {is : List Instruction} {fault : Option Error}
    (h : decode addressSize bs = ⟨i :: is, fault⟩) :
    ∃ opcode front rest, bs = opcode :: (front ++ rest) ∧
      Field.Reads (Instruction.afterOpcode addressSize opcode) front i ∧ decode addressSize rest = ⟨is, fault⟩ := by
  cases bs with
  | nil =>
      rw [decode_nil] at h
      cases h
  | cons opcode bs =>
      cases hread : Instruction.afterOpcode addressSize opcode bs with
      | error e =>
          rw [decode_cons_error hread] at h
          cases h
      | ok pair =>
          obtain ⟨j, rest⟩ := pair
          obtain ⟨front, hbs, hreads⟩ := Instruction.exact_afterOpcode _ _ _ _ _ hread
          rw [decode_cons_ok hread, cons, mk.injEq, List.cons.injEq] at h
          obtain ⟨⟨hfirst, hinstructions⟩, hfault⟩ := h
          refine ⟨opcode, front, rest, by rw [hbs], hfirst ▸ hreads, ?_⟩
          rw [← hinstructions, ← hfault]

end Program

end Cfi

end Unwinder
