import Unwinder.Proofs.Magnitudes
import Unwinder.Proofs.Programs.Items

/-!
# `Proofs.Programs.Spelling` — programs are read back as they are written

The byte form of an instruction is an opcode and its operands in order; a numeral among the operands may be longer than its
number needs. This module states that form on its own, for writing, and shows that decoding undoes it: operand by operand,
then for an instruction, then along a program.

## Contents
- **Operands.** `Operand.Spells`, the byte strings that stand for an operand, and `Operand.Unfinished`, those that end
  before it does; both for operands in a row by `Spelling` and `CutShort`.
- **Instructions.** `Instruction.opcode` and `Instruction.parts`; `afterOpcode_takes`, one case for each instruction.
- **Opcodes.** `Supported`, and what is said of the others (`afterOpcode_of_not_supported`).
- **Main statement.** `requests_undo_spelling`.
-/

namespace Unwinder.Cfi

open Leb128 (Numeral)

/-! ## Operands -/

/-- An operand of an instruction. -/
inductive Operand where
  /-- A number in a fixed count of bytes. -/
  | stored (width n : Nat)
  | unsigned (n : UInt64)
  | signed (n : Int64)

namespace Operand

/-- **The byte strings that stand for an operand.** A numeral may be of any length up to ten bytes. -/
def Spells : Operand → Bytes → Prop
  | .stored width n, bs => bs = LittleEndian.ofNat width n
  | .unsigned n, bs => ∃ numeral : Numeral, bs = numeral.bytes ∧ bs.length ≤ 10 ∧ numeral.magnitude = n.toNat
  | .signed n, bs => ∃ numeral : Numeral, bs = numeral.bytes ∧ bs.length ≤ 10 ∧ numeral.amount = n.toInt

/-- **The byte strings that end before an operand does**: too few bytes of a stored number, or no last byte of a
    numeral. -/
def Unfinished : Operand → Bytes → Prop
  | .stored width _, bs => bs.length < width
  | .unsigned _, bs => ∀ b ∈ bs, 0x80 ≤ b
  | .signed _, bs => ∀ b ∈ bs, 0x80 ≤ b

/-- The byte strings that stand for operands in a row. -/
inductive Spelling : List Operand → Bytes → Prop where
  | nil : Spelling [] []
  | cons {o : Operand} {os : List Operand} {front back : Bytes} (first : o.Spells front) (rest : Spelling os back) :
      Spelling (o :: os) (front ++ back)

/-- The byte strings that end within operands in a row, after some of them perhaps. -/
inductive CutShort : List Operand → Bytes → Prop where
  | here {o : Operand} {os : List Operand} {bs : Bytes} (first : o.Unfinished bs) : CutShort (o :: os) bs
  | later {o : Operand} {os : List Operand} {front back : Bytes} (first : o.Spells front) (rest : CutShort os back) :
      CutShort (o :: os) (front ++ back)

end Operand

/-- A reader that refuses a byte string as malformed. -/
def Breaks {α : Type} (field : Field α) (bs : Bytes) : Prop := ∃ defect, field bs = .error (.malformed defect)

open Operand

section Readers

variable {α β : Type}

/-- **A reader of operands**: what spells them is read as the value, and what ends within them is refused. -/
structure Takes (field : Field α) (os : List Operand) (a : α) : Prop where
  reads : ∀ bs, Spelling os bs → Field.Reads field bs a
  breaks : ∀ bs, CutShort os bs → Breaks field bs

/-- No operands take no bytes. -/
theorem Takes.nil (a : α) : Takes (pure a) [] a := by
  constructor
  · intro bs h
    cases h
    exact Field.Reads.pure a
  · intro bs h
    cases h

/-- **Operands are read in their order.** -/
theorem Takes.cons {first : Field α} {next : α → Field β} {o : Operand} {os : List Operand} {a : α} {b : β}
    (hreads : ∀ bs, o.Spells bs → Field.Reads first bs a) (hbreaks : ∀ bs, o.Unfinished bs → Breaks first bs)
    (hnext : Takes (next a) os b) : Takes (first >>= next) (o :: os) b := by
  constructor
  · intro bs h
    cases h with
    | cons hfirst hrest => exact (hreads _ hfirst).bind (hnext.reads _ hrest)
  · intro bs h
    cases h with
    | here hfirst =>
        obtain ⟨defect, hdefect⟩ := hbreaks _ hfirst
        exact ⟨defect, Field.bind_of_error hdefect⟩
    | @later _ _ front back hfirst hrest =>
        obtain ⟨defect, hdefect⟩ := hnext.breaks _ hrest
        refine ⟨defect, ?_⟩
        rw [Field.bind_of_ok (hreads _ hfirst back)]
        exact hdefect

/-- A number in a fixed count of bytes. -/
theorem takes_stored {width n : Nat} (hn : n < LittleEndian.limit width) {next : Nat → Field β} {os : List Operand} {b : β}
    (h : Takes (next n) os b) : Takes (Field.number width >>= next) (.stored width n :: os) b := by
  refine .cons ?_ ?_ h
  · rintro bs rfl
    exact Field.reads_number hn
  · intro bs hshort
    refine ⟨.truncated width bs.length, Field.bind_of_error ?_⟩
    rw [Field.take, if_neg (Nat.not_le_of_lt hshort)]

/-- Bytes that all announce another one are refused, few or many. -/
theorem breaks_groups (defect : Defect) {bs : Bytes} (h : ∀ b ∈ bs, 0x80 ≤ b) :
    Breaks (Leb128.groups defect Leb128.maxGroups) bs := by
  have hgroups := Leb128.groups_unended defect Leb128.maxGroups h
  split at hgroups <;> exact ⟨_, hgroups⟩

theorem takes_unsigned {n : UInt64} {next : UInt64 → Field β} {os : List Operand} {b : β} (h : Takes (next n) os b) :
    Takes (Leb128.unsigned >>= next) (.unsigned n :: os) b := by
  refine .cons ?_ ?_ h
  · rintro _ ⟨numeral, rfl, hshort, hmagnitude⟩ rest
    have hread := Leb128.unsigned_numeral numeral rest
    have hmax : numeral.bytes.length ≤ Leb128.maxGroups := hshort
    rwa [if_pos hmax, hmagnitude, UInt64.ofNat_toNat] at hread
  · intro bs hunended
    obtain ⟨defect, hdefect⟩ := breaks_groups .unsignedOverflow hunended
    exact ⟨defect, Field.bind_of_error hdefect⟩

theorem takes_signed {n : Int64} {next : Int64 → Field β} {os : List Operand} {b : β} (h : Takes (next n) os b) :
    Takes (Leb128.signed >>= next) (.signed n :: os) b := by
  refine .cons ?_ ?_ h
  · rintro _ ⟨numeral, rfl, hshort, hamount⟩ rest
    have hread := Leb128.signed_numeral numeral rest
    have hmax : numeral.bytes.length ≤ Leb128.maxGroups := hshort
    rwa [if_pos hmax, hamount, Int64.ofInt_toInt] at hread
  · intro bs hunended
    obtain ⟨defect, hdefect⟩ := breaks_groups .signedOverflow hunended
    exact ⟨defect, Field.bind_of_error hdefect⟩

/-- A value stored as a number in a fixed count of bytes. -/
theorem takes_one_stored {width n : Nat} (hn : n < LittleEndian.limit width) {value : Nat → α} {a : α}
    (hvalue : value n = a) (make : α → β) :
    Takes ((Field.number width >>= fun n => pure (value n)) >>= fun a => pure (make a)) [.stored width n] (make a) := by
  subst hvalue
  rw [bind_assoc]
  exact takes_stored hn (.nil (make (value n)))

theorem takes_one_unsigned (make : UInt64 → β) (n : UInt64) :
    Takes (Leb128.unsigned >>= fun n => pure (make n)) [.unsigned n] (make n) := takes_unsigned (.nil (make n))

theorem takes_one_signed (make : Int64 → β) (n : Int64) :
    Takes (Leb128.signed >>= fun n => pure (make n)) [.signed n] (make n) := takes_signed (.nil (make n))

theorem takes_two_unsigned (make : UInt64 → UInt64 → β) (m n : UInt64) :
    Takes (Leb128.unsigned >>= fun m => Leb128.unsigned >>= fun n => pure (make m n)) [.unsigned m, .unsigned n]
      (make m n) := takes_unsigned (takes_one_unsigned (make m) n)

theorem takes_unsigned_signed (make : UInt64 → Int64 → β) (m : UInt64) (n : Int64) :
    Takes (Leb128.unsigned >>= fun m => Leb128.signed >>= fun n => pure (make m n)) [.unsigned m, .signed n]
      (make m n) := takes_unsigned (takes_one_signed (make m) n)

end Readers

/-! ## Instructions -/

namespace Instruction

/-- The opcode of an instruction. Three kinds have an operand packed into the low six bits. -/
def opcode : Instruction → UInt8
  | .nop => 0x00
  | .setLocation _ => 0x01
  | .advance1 _ => 0x02
  | .advance2 _ => 0x03
  | .advance4 _ => 0x04
  | .savedExtended _ _ => 0x05
  | .restoreExtended _ => 0x06
  | .lost _ => 0x07
  | .kept _ => 0x08
  | .frame _ _ => 0x0c
  | .frameRegister _ => 0x0d
  | .frameOffset _ => 0x0e
  | .savedScaled _ _ => 0x11
  | .frameScaled _ _ => 0x12
  | .frameOffsetScaled _ => 0x13
  | .advance delta => 0x40 + delta
  | .saved register _ => 0x80 + register
  | .restore register => 0xc0 + register

/-- The operands behind the opcode. -/
def parts (addressSize : UInt8) : Instruction → List Operand
  | .nop | .advance _ | .restore _ => []
  | .setLocation address => [.stored addressSize.toNat address.toNat]
  | .advance1 delta => [.stored 1 delta.toNat]
  | .advance2 delta => [.stored 2 delta.toNat]
  | .advance4 delta => [.stored 4 delta.toNat]
  | .savedExtended register units => [.unsigned register, .unsigned units]
  | .restoreExtended register => [.unsigned register]
  | .lost register => [.unsigned register]
  | .kept register => [.unsigned register]
  | .frame register offset => [.unsigned register, .unsigned offset]
  | .frameRegister register => [.unsigned register]
  | .frameOffset offset => [.unsigned offset]
  | .savedScaled register units => [.unsigned register, .signed units]
  | .frameScaled register units => [.unsigned register, .signed units]
  | .frameOffsetScaled units => [.signed units]
  | .saved _ units => [.unsigned units]

/-- The instructions that can be written: packed operands have six bits, and addresses the address size. -/
def Fits (addressSize : UInt8) : Instruction → Prop
  | .setLocation address => address.toNat < LittleEndian.limit addressSize.toNat
  | .advance delta => delta < 64
  | .saved register _ => register < 64
  | .restore register => register < 64
  | _ => True

/-- An opcode takes its kind and a packed operand apart again. -/
theorem packed_opcode {kind low : UInt8} (hkind : kind < 4) (hlow : low < 64) :
    (kind * 64 + low) >>> 6 = kind ∧ (kind * 64 + low) &&& 0x3f = low := by
  have hkind : kind.toNat < 4 := hkind
  have hlow : low.toNat < 64 := hlow
  have hsum : (kind * 64 + low).toNat = kind.toNat * 64 + low.toNat := by
    rw [UInt8.toNat_add, UInt8.toNat_mul]
    show (kind.toNat * 64 % 256 + low.toNat) % 256 = _
    omega
  constructor
  · apply UInt8.toNat_inj.mp
    rw [UInt8.toNat_shiftRight, hsum]
    show (kind.toNat * 64 + low.toNat) >>> 6 = _
    rw [Nat.shiftRight_eq_div_pow]
    omega
  · apply UInt8.toNat_inj.mp
    rw [UInt8.toNat_and, hsum]
    show (kind.toNat * 64 + low.toNat) &&& (2 ^ 6 - 1) = _
    rw [Nat.and_two_pow_sub_one_eq_mod]
    omega

/-- Every opcode is a kind with six bits below it. -/
theorem exists_packed (opcode : UInt8) :
    opcode = (opcode >>> 6) * 64 + (opcode &&& 0x3f) ∧ opcode &&& 0x3f < 64 := by
  have hlt := opcode.toNat_lt
  have hlow : (opcode &&& 0x3f).toNat = opcode.toNat % 64 := by
    rw [UInt8.toNat_and]
    exact Nat.and_two_pow_sub_one_eq_mod opcode.toNat 6
  have hkind : (opcode >>> 6).toNat = opcode.toNat / 64 := by
    rw [UInt8.toNat_shiftRight]
    exact Nat.shiftRight_eq_div_pow opcode.toNat 6
  constructor
  · apply UInt8.toNat_inj.mp
    rw [UInt8.toNat_add, UInt8.toNat_mul, hlow, hkind]
    show _ = (opcode.toNat / 64 * 64 % 256 + opcode.toNat % 64) % 256
    omega
  · rw [UInt8.lt_iff_toNat_lt, hlow]
    exact Nat.mod_lt _ (by decide)

/-- **What comes behind an opcode is read as its instruction**, one layout of operands for each. -/
theorem afterOpcode_takes {addressSize : UInt8}
    (hsize : addressSize = 1 ∨ addressSize = 2 ∨ addressSize = 4 ∨ addressSize = 8) {i : Instruction}
    (hfits : i.Fits addressSize) : Takes (afterOpcode addressSize i.opcode) (i.parts addressSize) i := by
  cases i with
  | nop => exact .nil nop
  | setLocation address =>
      have hoperand : Field.address addressSize =
          Field.number addressSize.toNat >>= fun n => pure (UInt64.ofNat n) := if_pos hsize
      rw [opcode]
      show Takes (Field.address addressSize >>= fun a => pure (setLocation a)) _ _
      rw [hoperand]
      exact takes_one_stored hfits UInt64.ofNat_toNat setLocation
  | advance1 delta => rw [opcode]; exact takes_one_stored delta.toNat_lt UInt8.ofNat_toNat advance1
  | advance2 delta => rw [opcode]; exact takes_one_stored delta.toNat_lt UInt16.ofNat_toNat advance2
  | advance4 delta => rw [opcode]; exact takes_one_stored delta.toNat_lt UInt32.ofNat_toNat advance4
  | savedExtended register units => rw [opcode]; exact takes_two_unsigned savedExtended register units
  | restoreExtended register => rw [opcode]; exact takes_one_unsigned restoreExtended register
  | lost register => rw [opcode]; exact takes_one_unsigned lost register
  | kept register => rw [opcode]; exact takes_one_unsigned kept register
  | frame register offset => rw [opcode]; exact takes_two_unsigned frame register offset
  | frameRegister register => rw [opcode]; exact takes_one_unsigned frameRegister register
  | frameOffset offset => rw [opcode]; exact takes_one_unsigned frameOffset offset
  | savedScaled register units => rw [opcode]; exact takes_unsigned_signed savedScaled register units
  | frameScaled register units => rw [opcode]; exact takes_unsigned_signed frameScaled register units
  | frameOffsetScaled units => rw [opcode]; exact takes_one_signed frameOffsetScaled units
  | advance delta =>
      obtain ⟨hkind, hlow⟩ := packed_opcode (show (1 : UInt8) < 4 by decide) hfits
      show Takes (afterOpcode addressSize (1 * 64 + delta)) _ _
      unfold afterOpcode
      rw [hkind, hlow]
      exact .nil (advance delta)
  | saved register units =>
      obtain ⟨hkind, hlow⟩ := packed_opcode (show (2 : UInt8) < 4 by decide) hfits
      show Takes (afterOpcode addressSize (2 * 64 + register)) _ _
      unfold afterOpcode
      rw [hkind, hlow]
      exact takes_one_unsigned (saved register) units
  | restore register =>
      obtain ⟨hkind, hlow⟩ := packed_opcode (show (3 : UInt8) < 4 by decide) hfits
      show Takes (afterOpcode addressSize (3 * 64 + register)) _ _
      unfold afterOpcode
      rw [hkind, hlow]
      exact .nil (restore register)

/-! ## Opcodes -/

/-- The opcodes of the instructions that can be written. -/
def Supported (opcode : UInt8) : Prop := ∃ (addressSize : UInt8) (i : Instruction), i.Fits addressSize ∧ i.opcode = opcode

/-- **An opcode of no instruction is refused as one that is not supported**, whatever follows it. -/
theorem afterOpcode_of_not_supported {opcode : UInt8} (h : ¬ Supported opcode) (addressSize : UInt8) :
    ∃ feature, afterOpcode addressSize opcode = Field.refuse (.unsupported feature) := by
  obtain ⟨hpacked, hlow⟩ := exists_packed opcode
  unfold afterOpcode
  split
  · rename_i hkind
    rw [hkind] at hpacked
    exact absurd ⟨addressSize, advance (opcode &&& 0x3f), hlow, hpacked.symm⟩ h
  · rename_i hkind
    rw [hkind] at hpacked
    exact absurd ⟨addressSize, saved (opcode &&& 0x3f) 0, hlow, hpacked.symm⟩ h
  · rename_i hkind
    rw [hkind] at hpacked
    exact absurd ⟨addressSize, restore (opcode &&& 0x3f), hlow, hpacked.symm⟩ h
  · -- one goal for each row of the table; the opcodes of the rows that read an instruction are supported
    unfold operands
    split
    · exact absurd ⟨addressSize, nop, trivial, rfl⟩ h
    · exact absurd ⟨8, setLocation 0, (by decide : (0 : UInt64).toNat < LittleEndian.limit 8), rfl⟩ h
    · exact absurd ⟨addressSize, advance1 0, trivial, rfl⟩ h
    · exact absurd ⟨addressSize, advance2 0, trivial, rfl⟩ h
    · exact absurd ⟨addressSize, advance4 0, trivial, rfl⟩ h
    · exact absurd ⟨addressSize, savedExtended 0 0, trivial, rfl⟩ h
    · exact absurd ⟨addressSize, restoreExtended 0, trivial, rfl⟩ h
    · exact absurd ⟨addressSize, lost 0, trivial, rfl⟩ h
    · exact absurd ⟨addressSize, kept 0, trivial, rfl⟩ h
    · exact absurd ⟨addressSize, frame 0 0, trivial, rfl⟩ h
    · exact absurd ⟨addressSize, frameRegister 0, trivial, rfl⟩ h
    · exact absurd ⟨addressSize, frameOffset 0, trivial, rfl⟩ h
    · exact ⟨_, rfl⟩
    · exact ⟨_, rfl⟩
    · exact absurd ⟨addressSize, savedScaled 0 0, trivial, rfl⟩ h
    · exact absurd ⟨addressSize, frameScaled 0 0, trivial, rfl⟩ h
    · exact absurd ⟨addressSize, frameOffsetScaled 0, trivial, rfl⟩ h
    · exact ⟨_, rfl⟩

end Instruction

/-! ## Main statement -/

namespace Program

/-- The byte strings that stand for instructions in a row. -/
inductive Spelling (addressSize : UInt8) : List Instruction → Bytes → Prop where
  | nil : Spelling addressSize [] []
  | cons {i : Instruction} {is : List Instruction} {front back : Bytes} (fits : i.Fits addressSize)
      (operands : Operand.Spelling (i.parts addressSize) front) (rest : Spelling addressSize is back) :
      Spelling addressSize (i :: is) (i.opcode :: (front ++ back))

variable {addressSize : UInt8} {is : List Instruction} {bs : Bytes}

/-- What stands for instructions is decoded to those. -/
theorem decode_spelling (hsize : addressSize = 1 ∨ addressSize = 2 ∨ addressSize = 4 ∨ addressSize = 8)
    (h : Spelling addressSize is bs) : decode addressSize bs = ⟨is, none⟩ := by
  induction h with
  | nil => exact decode_nil addressSize
  | cons hfits hoperands _ ih =>
      rw [decode_cons_ok ((Instruction.afterOpcode_takes hsize hfits).reads _ hoperands _), ih]
      rfl

/-- **Behind instructions stands what cannot be read**: it is the last item of the program. -/
theorem items_of_error (hsize : addressSize = 1 ∨ addressSize = 2 ∨ addressSize = 4 ∨ addressSize = 8)
    (h : Spelling addressSize is bs) {opcode : UInt8} {rest : Bytes} {e : Error}
    (herror : Instruction.afterOpcode addressSize opcode rest = .error e) :
    (decode addressSize (bs ++ opcode :: rest)).items = is.map .ok ++ [.error e] := by
  have hfront := decode_spelling hsize h
  have hwhole := decode_append addressSize (opcode :: rest) bs (by rw [hfront])
  rw [hwhole, hfront, decode_cons_error herror, items, List.append_nil]
  rfl

/-- **A program is read back as it is written.** Whatever lengths the numerals have, the requests give the instructions that
    were written, in their order and nothing after them. When an opcode of no instruction comes next, or one whose operands
    the input does not hold to their end, one error follows the instructions, the first of its kind and the second of
    another, and nothing comes after it, however many bytes there are. -/
theorem requests_undo_spelling (hsize : addressSize = 1 ∨ addressSize = 2 ∨ addressSize = 4 ∨ addressSize = 8)
    (h : Spelling addressSize is bs) :
    (∀ n, answer addressSize n bs = (is.map .ok)[n]?) ∧
      (∀ opcode rest, ¬ Instruction.Supported opcode →
        ∃ e : Error, e.status = .notImplemented ∧
          ∀ n, answer addressSize n (bs ++ opcode :: rest) = (is.map .ok ++ [.error e])[n]?) ∧
      (∀ (i : Instruction) (rest : Bytes), i.Fits addressSize → Operand.CutShort (i.parts addressSize) rest →
        ∃ e : Error, e.status = .badFormat ∧
          ∀ n, answer addressSize n (bs ++ i.opcode :: rest) = (is.map .ok ++ [.error e])[n]?) := by
  refine ⟨?_, ?_, ?_⟩
  · intro n
    rw [answer_eq, decode_spelling hsize h, items]
    show (is.map Except.ok ++ [])[n]? = _
    rw [List.append_nil]
  · intro opcode rest hopcode
    obtain ⟨feature, hrefused⟩ := Instruction.afterOpcode_of_not_supported hopcode addressSize
    refine ⟨.unsupported feature, rfl, ?_⟩
    intro n
    rw [answer_eq, items_of_error hsize h (congrFun hrefused rest)]
  · intro i rest hfits hcut
    obtain ⟨defect, hdefect⟩ := (Instruction.afterOpcode_takes hsize hfits).breaks rest hcut
    refine ⟨.malformed defect, rfl, ?_⟩
    intro n
    rw [answer_eq, items_of_error hsize h hdefect]

/-- Three instructions with an address of two bytes and longer numerals than they need; behind them an opcode of no
    instruction, or one whose second operand has no end. -/
theorem requests_undo_spelling_padded :
    let is : List Instruction := [.advance 5, .savedScaled 6 (-2), .setLocation 0x1234]
    let bs : Bytes := [0x45, 0x11, 0x86, 0x00, 0xfe, 0x7f, 0x01, 0x34, 0x12]
    Spelling 2 is bs ∧ ¬ Instruction.Supported 0x0a ∧
      Operand.CutShort (Instruction.parts 2 (.frame 7 8)) [0x07, 0x88] ∧
      (∀ n, answer 2 n bs = (is.map .ok)[n]?) ∧
      (∃ e : Error, e.status = .notImplemented ∧
        ∀ n, answer 2 n (bs ++ [0x0a, 0x40]) = (is.map .ok ++ [.error e])[n]?) ∧
      (∃ e : Error, e.status = .badFormat ∧
        ∀ n, answer 2 n (bs ++ [0x0c, 0x07, 0x88]) = (is.map .ok ++ [.error e])[n]?) := by
  intro is bs
  let six : Leb128.Numeral := ⟨[0x86], 0x00, List.forall_mem_singleton.mpr (by decide), by decide⟩
  let minusTwo : Leb128.Numeral := ⟨[0xfe], 0x7f, List.forall_mem_singleton.mpr (by decide), by decide⟩
  let seven : Leb128.Numeral := ⟨[], 0x07, List.forall_mem_nil _, by decide⟩
  have hsix : Operand.Spells (.unsigned 6) [0x86, 0x00] := ⟨six, rfl, by decide, by rw [six.magnitude_eq]; decide⟩
  have hminusTwo : Operand.Spells (.signed (-2)) [0xfe, 0x7f] :=
    ⟨minusTwo, rfl, by decide, by rw [minusTwo.amount_eq]; decide⟩
  have hseven : Operand.Spells (.unsigned 7) [0x07] := ⟨seven, rfl, by decide, by rw [seven.magnitude_eq]; decide⟩
  have haddress : Instruction.Fits 2 (.setLocation 0x1234) := (by decide : (0x1234 : UInt64).toNat < LittleEndian.limit 2)
  have hdelta : Instruction.Fits 2 (.advance 5) := (by decide : (5 : UInt8) < 64)
  have hlocation : Spelling 2 [.setLocation 0x1234] [0x01, 0x34, 0x12] := .cons haddress (.cons rfl .nil) .nil
  have hsaved : Spelling 2 [.savedScaled 6 (-2), .setLocation 0x1234] [0x11, 0x86, 0x00, 0xfe, 0x7f, 0x01, 0x34, 0x12] :=
    .cons (i := .savedScaled 6 (-2)) trivial (.cons hsix (.cons hminusTwo .nil)) hlocation
  have hbs : Spelling 2 is bs := .cons hdelta .nil hsaved
  have hopcode : ¬ Instruction.Supported 0x0a := by
    rintro ⟨addressSize, i, hfits, hi⟩
    have hzero (kind low : UInt8) (hkind : kind < 4) (hlow : low < 64) (h : kind * 64 + low = 0x0a) : kind = 0 := by
      rw [← (Instruction.packed_opcode hkind hlow).1, h]
      rfl
    cases i with
    | advance delta => exact absurd (hzero 1 delta (by decide) hfits hi) (by decide)
    | saved register units => exact absurd (hzero 2 register (by decide) hfits hi) (by decide)
    | restore register => exact absurd (hzero 3 register (by decide) hfits hi) (by decide)
    | _ => exact absurd hi (by simp only [Instruction.opcode]; decide)
  have hcut : Operand.CutShort (Instruction.parts 2 (.frame 7 8)) [0x07, 0x88] :=
    .later hseven (.here (List.forall_mem_singleton.mpr (by decide) : ∀ b ∈ [(0x88 : UInt8)], 0x80 ≤ b))
  obtain ⟨hrequests, hunsupported, hcutShort⟩ := requests_undo_spelling (by decide) hbs
  exact ⟨hbs, hopcode, hcut, hrequests, hunsupported 0x0a [0x40] hopcode, hcutShort (.frame 7 8) _ trivial hcut⟩

end Program

end Unwinder.Cfi
