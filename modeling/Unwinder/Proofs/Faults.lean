import Unwinder.Module
import Unwinder.Proofs.Reading

/-!
# `Proofs.Faults` — what reading can fail with

A reader that refuses its input says why, and what it can say depends on the reader alone. This module bounds the
causes once for every reader, from the numbers of a record up to whole modules, so that no later proof looks for the
place where an error comes from.

## Contents
- **Readers.** `Field.FailsOnly`: a reader fails with errors of one kind. It composes along `>>=`.
- **Numbers and instructions.** `BadNumber` and `BadInstruction`; `Program.fault_decode` finds the instruction that
  a program's fault comes from.
- **Records.** `Illegible`, malformed or not supported: all that reading a frame section reports.
- **Images and modules.** `FrameIndex.ofImage_eq`: an image with debug information is always indexed.
  `Module.load_fails` lists why a module cannot be loaded.
-/

namespace Unwinder

/-! ## Readers -/

namespace Field

/-- **Kinds of failure.** Whatever the input, the reader fails with errors of one kind only. -/
def FailsOnly {α : Type} (Kind : Error → Prop) (field : Field α) : Prop := ∀ bs e, field bs = .error e → Kind e

/-- Two readers in sequence fail when the first does, or the second on the bytes it leaves. -/
theorem bind_eq_error {α β : Type} {first : Field α} {next : α → Field β} {bs : Bytes} {e : Error} :
    (first >>= next) bs = .error e ↔
      first bs = .error e ∨ ∃ a mid, first bs = .ok (a, mid) ∧ next a mid = .error e := by
  cases hfirst : first bs with
  | error e' => simp [bind_of_error hfirst]
  | ok pair =>
      obtain ⟨a, mid⟩ := pair
      simp [bind_of_ok hfirst, and_assoc]

section Kinds

variable {α β : Type} {Kind Wider : Error → Prop}

theorem FailsOnly.mono {field : Field α} (h : FailsOnly Kind field) (hwider : ∀ e, Kind e → Wider e) :
    FailsOnly Wider field := fun bs e herror => hwider e (h bs e herror)

theorem failsOnly_pure (a : α) : FailsOnly Kind (pure a : Field α) := by
  intro bs e h
  cases h

theorem failsOnly_refuse {e : Error} (h : Kind e) : FailsOnly Kind (refuse e : Field α) := by
  intro bs e' herror
  cases herror
  exact h

theorem failsOnly_check {result : Except Error α} (h : ∀ e, result = .error e → Kind e) :
    FailsOnly Kind (check result) := by
  intro bs e herror
  cases result with
  | ok a => cases herror
  | error e' =>
      cases herror
      exact h _ rfl

theorem failsOnly_left : FailsOnly Kind left := by
  intro bs e h
  cases h

theorem FailsOnly.bind {first : Field α} {next : α → Field β} (hfirst : FailsOnly Kind first)
    (hnext : ∀ a, FailsOnly Kind (next a)) : FailsOnly Kind (first >>= next) := by
  intro bs e h
  rcases bind_eq_error.mp h with herror | ⟨a, mid, -, herror⟩
  · exact hfirst bs e herror
  · exact hnext a mid e herror

theorem FailsOnly.map {field : Field α} (h : FailsOnly Kind field) (f : α → β) :
    FailsOnly Kind (field >>= fun a => pure (f a)) := h.bind fun a => failsOnly_pure (f a)

end Kinds

end Field

/-! ## Numbers -/

/-- **What can be wrong with a number** of a record or an instruction: it is cut off, it has more groups than a number
    needs, or it is an address of a size that no target has. -/
inductive BadNumber : Error → Prop where
  | truncated {wanted left : Nat} (hshort : left < wanted) : BadNumber (.malformed (.truncated wanted left))
  | unsignedOverflow : BadNumber (.malformed .unsignedOverflow)
  | signedOverflow : BadNumber (.malformed .signedOverflow)
  | addressSize {size : UInt8} (hunknown : ¬ (size = 1 ∨ size = 2 ∨ size = 4 ∨ size = 8)) :
      BadNumber (.malformed (.addressSize size))

namespace Field

theorem failsOnly_take (n : Nat) : FailsOnly BadNumber (take n) := by
  intro bs e h
  unfold take at h
  split at h
  · cases h
  · rename_i hshort
    cases h
    exact .truncated (Nat.lt_of_not_le hshort)

theorem failsOnly_number (width : Nat) : FailsOnly BadNumber (number width) := (failsOnly_take width).map _

theorem failsOnly_u8 : FailsOnly BadNumber u8 := (failsOnly_number 1).map _

theorem failsOnly_u16 : FailsOnly BadNumber u16 := (failsOnly_number 2).map _

theorem failsOnly_u32 : FailsOnly BadNumber u32 := (failsOnly_number 4).map _

theorem failsOnly_u64 : FailsOnly BadNumber u64 := (failsOnly_number 8).map _

theorem failsOnly_address (size : UInt8) : FailsOnly BadNumber (address size) := by
  unfold address
  split
  · exact (failsOnly_number size.toNat).map _
  · rename_i hunknown
    exact failsOnly_refuse (.addressSize hunknown)

end Field

namespace Leb128

theorem failsOnly_groups {defect : Defect} (hdefect : BadNumber (.malformed defect)) (count : Nat) :
    Field.FailsOnly BadNumber (groups defect count) := by
  induction count with
  | zero => exact Field.failsOnly_u8.bind fun _ => Field.failsOnly_refuse hdefect
  | succ count ih =>
      refine Field.failsOnly_u8.bind fun b => ?_
      split
      · exact Field.failsOnly_pure _
      · exact ih.map _

theorem failsOnly_unsigned : Field.FailsOnly BadNumber unsigned := (failsOnly_groups .unsignedOverflow _).map _

theorem failsOnly_signed : Field.FailsOnly BadNumber signed := (failsOnly_groups .signedOverflow _).map _

end Leb128

namespace Cfi

/-! ## Instructions -/

/-- **What can be wrong with an instruction**: a number in it, or its opcode is not interpreted. -/
inductive BadInstruction : Error → Prop where
  | operand {e : Error} (h : BadNumber e) : BadInstruction e
  | expression (opcode : UInt8) : BadInstruction (.unsupported (.expression opcode))
  | unknown (opcode : UInt8) : BadInstruction (.unsupported (.instruction opcode))

theorem Instruction.failsOnly_operands (addressSize opcode : UInt8) :
    Field.FailsOnly BadInstruction (Instruction.operands addressSize opcode) := by
  have hoperand : ∀ {α : Type} {field : Field α}, Field.FailsOnly BadNumber field →
      Field.FailsOnly BadInstruction field := fun h => h.mono fun _ => .operand
  have hunsigned := hoperand Leb128.failsOnly_unsigned
  have hsigned := hoperand Leb128.failsOnly_signed
  -- a layout of operands in each case
  unfold Instruction.operands
  split
  · exact Field.failsOnly_pure _
  · exact (hoperand (Field.failsOnly_address addressSize)).map _
  · exact (hoperand Field.failsOnly_u8).map _
  · exact (hoperand Field.failsOnly_u16).map _
  · exact (hoperand Field.failsOnly_u32).map _
  · exact hunsigned.bind fun _ => hunsigned.map _
  · exact hunsigned.map _
  · exact hunsigned.map _
  · exact hunsigned.map _
  · exact hunsigned.bind fun _ => hunsigned.map _
  · exact hunsigned.map _
  · exact hunsigned.map _
  · exact Field.failsOnly_refuse (.expression _)
  · exact Field.failsOnly_refuse (.expression _)
  · exact hunsigned.bind fun _ => hsigned.map _
  · exact hunsigned.bind fun _ => hsigned.map _
  · exact hsigned.map _
  · exact Field.failsOnly_refuse (.unknown _)

theorem Instruction.failsOnly_afterOpcode (addressSize opcode : UInt8) :
    Field.FailsOnly BadInstruction (Instruction.afterOpcode addressSize opcode) := by
  unfold Instruction.afterOpcode
  split
  · exact Field.failsOnly_pure _
  · exact (Leb128.failsOnly_unsigned.mono fun _ => .operand).map _
  · exact Field.failsOnly_pure _
  · exact Instruction.failsOnly_operands addressSize opcode

/-- **The place of a fault.** A program with a fault consists of instructions that can be read, and one after them that
    cannot. -/
theorem Program.fault_decode {addressSize : UInt8} {bs : Bytes} {e : Error}
    (h : (decode addressSize bs).fault = some e) :
    ∃ front opcode rest, bs = front ++ opcode :: rest ∧ (decode addressSize front).fault = none ∧
      Instruction.afterOpcode addressSize opcode rest = .error e := by
  induction hlen : bs.length using Nat.strongRecOn generalizing bs with
  | ind n ih =>
      cases bs with
      | nil =>
          rw [decode_nil] at h
          cases h
      | cons opcode bs =>
          cases hread : Instruction.afterOpcode addressSize opcode bs with
          | error e' =>
              rw [decode_cons_error hread] at h
              cases h
              exact ⟨[], opcode, bs, rfl, by rw [decode_nil], hread⟩
          | ok pair =>
              obtain ⟨i, rest⟩ := pair
              rw [decode_cons_ok hread] at h
              obtain ⟨operands, hbs, hreads⟩ := Instruction.exact_afterOpcode _ _ _ _ _ hread
              have hlt : rest.length < n := by
                rw [← hlen, List.length_cons, hbs, List.length_append]
                omega
              obtain ⟨front, opcode', rest', hrest, hfront, herror⟩ := ih rest.length hlt h rfl
              -- the instruction read first is read the same in front of fewer bytes
              refine ⟨opcode :: (operands ++ front), opcode', rest', ?_, ?_, herror⟩
              · rw [hbs, hrest, List.cons_append, List.append_assoc]
              · rw [decode_cons_ok (hreads front)]
                exact hfront

/-! ## Records -/

/-- **Illegible** input, for whatever reason: it is malformed, or asks for something that is not interpreted. -/
inductive Illegible : Error → Prop where
  | malformed (defect : Defect) : Illegible (.malformed defect)
  | unsupported (feature : Feature) : Illegible (.unsupported feature)

theorem BadNumber.illegible {e : Error} (h : BadNumber e) : Illegible e := by
  cases h with
  | _ => exact .malformed _

theorem failsOnly_illegible {α : Type} {field : Field α} (h : Field.FailsOnly BadNumber field) :
    Field.FailsOnly Illegible field := h.mono fun _ => BadNumber.illegible

namespace PointerEncoding

theorem failsOnly_value (addressSize : UInt8) (form : PointerForm) :
    Field.FailsOnly BadNumber (value addressSize form) := by
  cases form with
  | absolute => exact Field.failsOnly_address addressSize
  | unsignedLeb => exact Leb128.failsOnly_unsigned
  | unsigned2 => exact (Field.failsOnly_number 2).map _
  | unsigned4 => exact (Field.failsOnly_number 4).map _
  | unsigned8 => exact Field.failsOnly_u64
  | signedLeb => exact Leb128.failsOnly_signed.map _
  | signed2 => exact (Field.failsOnly_number 2).map _
  | signed4 => exact (Field.failsOnly_number 4).map _
  | signed8 => exact Field.failsOnly_u64

theorem form?_fails {encoding : PointerEncoding} {e : Error} (h : encoding.form? = .error e) : Illegible e := by
  unfold form? at h
  split at h <;> cases h
  exact .unsupported _

theorem base?_fails {encoding : PointerEncoding} {e : Error} (h : encoding.base? = .error e) : Illegible e := by
  unfold base? at h
  split at h
  · cases h
    exact .unsupported _
  · split at h <;> cases h

theorem resolve_fails {place v : UInt64} {base : PointerBase} {e : Error} (h : resolve place v base = .error e) :
    Illegible e := by
  cases base <;> cases h <;> exact .unsupported _

theorem failsOnly_read (encoding : PointerEncoding) (addressSize : UInt8) (place : UInt64) :
    Field.FailsOnly Illegible (encoding.read addressSize place) := by
  refine (Field.failsOnly_check fun _ => form?_fails).bind fun form => ?_
  refine (failsOnly_illegible (failsOnly_value addressSize form)).bind fun v => ?_
  refine (Field.failsOnly_check fun _ => base?_fails).bind fun base => ?_
  exact Field.failsOnly_check fun _ => resolve_fails

end PointerEncoding

theorem failsOnly_block : Field.FailsOnly BadNumber block :=
  Leb128.failsOnly_unsigned.bind fun length => Field.failsOnly_take length.toNat

theorem failsOnly_text : Field.FailsOnly Illegible Field.text := by
  have hterminated : Field.FailsOnly Illegible Field.terminated := by
    intro bs e h
    unfold Field.terminated at h
    split at h <;> cases h
    exact .malformed _
  refine hterminated.bind fun chars => ?_
  split
  · exact Field.failsOnly_refuse (.malformed _)
  · exact Field.failsOnly_pure _

theorem Augmentation.failsOnly_walk (addressSize : UInt8) (found : Option PointerEncoding) (letters : Bytes) :
    Field.FailsOnly Illegible (walk addressSize found letters) := by
  have hbyte : Field.FailsOnly Illegible Field.u8 := failsOnly_illegible Field.failsOnly_u8
  induction letters generalizing found with
  | nil => exact Field.failsOnly_pure found
  | cons letter letters ih =>
      unfold walk
      split
      · exact hbyte.bind fun _ => ih found
      split
      · exact hbyte.bind fun byte => (PointerEncoding.failsOnly_read _ addressSize 0).bind fun _ => ih found
      split
      · exact hbyte.bind fun byte => ih _
      split
      · exact ih found
      · exact Field.failsOnly_pure found

theorem Augmentation.encoding_fails {augmentation bs : Bytes} {addressSize : UInt8} {e : Error}
    (h : encoding augmentation addressSize bs = .error e) : Illegible e := by
  unfold encoding at h
  cases hwalk : walk addressSize none augmentation.tail bs with
  | ok found =>
      rw [hwalk] at h
      cases h
  | error e' =>
      rw [hwalk] at h
      cases h
      exact failsOnly_walk _ _ _ _ _ hwalk

theorem failsOnly_statedAddressSize (flavour : Flavour) (version given : UInt8) :
    Field.FailsOnly BadNumber (statedAddressSize flavour version given) := by
  unfold statedAddressSize
  split
  · exact Field.failsOnly_u8.bind fun _ => Field.failsOnly_u8.map _
  · exact Field.failsOnly_pure _

theorem failsOnly_statedEncoding (flavour : Flavour) (augmentation : Bytes) (addressSize : UInt8) :
    Field.FailsOnly Illegible (statedEncoding flavour augmentation addressSize) := by
  unfold statedEncoding
  split
  · refine (failsOnly_illegible failsOnly_block).bind fun bytes => ?_
    exact (Field.failsOnly_check fun _ => Augmentation.encoding_fails).map _
  · exact Field.failsOnly_pure _

theorem Cie.failsOnly_read (flavour : Flavour) (given : UInt8) (offset imageFinish : Nat) :
    Field.FailsOnly Illegible (Cie.read flavour given offset imageFinish) := by
  have hunsigned := failsOnly_illegible Leb128.failsOnly_unsigned
  have hsigned := failsOnly_illegible Leb128.failsOnly_signed
  refine (failsOnly_illegible Field.failsOnly_u8).bind fun version => ?_
  split
  · refine failsOnly_text.bind fun augmentation => ?_
    refine hunsigned.bind fun codeAlign => hsigned.bind fun dataAlign => hunsigned.bind fun returnColumn => ?_
    refine (failsOnly_illegible (failsOnly_statedAddressSize flavour version given)).bind fun addressSize => ?_
    refine (failsOnly_statedEncoding flavour augmentation addressSize).bind fun encoding => ?_
    exact Field.failsOnly_left.map _
  · exact Field.failsOnly_refuse (.malformed _)

theorem Fde.failsOnly_read (cie : Cie) (index offset finish imageFinish : Nat) (address : UInt64) :
    Field.FailsOnly Illegible (Fde.read cie index offset finish imageFinish address) := by
  refine Field.failsOnly_left.bind fun before => ?_
  refine (cie.encoding.failsOnly_read _ _).bind fun first => ?_
  refine (cie.encoding.formOnly.failsOnly_read _ _).bind fun length => ?_
  split
  · exact (failsOnly_illegible failsOnly_block).bind fun _ => Field.failsOnly_left.map _
  · exact (Field.failsOnly_pure _).bind fun _ => Field.failsOnly_left.map _

namespace SectionInput

theorem failsOnly_entry (input : SectionInput) (records : FrameRecords) (r : RawRecord) :
    Field.FailsOnly Illegible (input.entry records r) := by
  refine (failsOnly_illegible Field.failsOnly_u32).bind fun id => ?_
  dsimp only
  split
  · exact (Cie.failsOnly_read _ _ _ _).map _
  · split
    · exact (Fde.failsOnly_read _ _ _ _ _ _).map _
    · exact Field.failsOnly_refuse (.malformed _)

theorem addRecords_fails {input : SectionInput} {rs : List RawRecord} {records : FrameRecords} {e : Error}
    (h : (input.addRecords rs records).1 = .error e) : Illegible e := by
  induction rs generalizing records with
  | nil => cases h
  | cons r rs ih =>
      rw [addRecords] at h
      split at h
      · exact ih h
      · rename_i e' herror
        cases h
        exact input.failsOnly_entry records r r.body _ herror

end SectionInput

theorem Framing.fault_cutFrom {size offset : Nat} {bs : Bytes} {e : Error}
    (h : (cutFrom size offset bs).fault = some e) : Illegible e := by
  fun_induction cutFrom size offset bs with
  | case1 | case2 => cases h
  | case3 =>
      cases h
      exact .unsupported _
  | case4 =>
      cases h
      exact .malformed _
  | case5 _ _ _ _ _ _ _ _ _ ih => exact ih h

/-- **A frame section is refused as illegible.** -/
theorem FrameRecords.readSection_fails {records : FrameRecords} {image : Bytes} {input : SectionInput} {e : Error}
    (h : (records.readSection image input).1 = .error e) : Illegible e := by
  unfold readSection at h
  split at h
  · cases h
    exact .malformed _
  · rename_i bs hslice
    dsimp only at h
    split at h
    · cases hfault : (Framing.cut bs).fault with
      | none =>
          rw [hfault] at h
          cases h
      | some e' =>
          rw [hfault] at h
          cases h
          exact Framing.fault_cutFrom hfault
    · exact SectionInput.addRecords_fails h

/-! ## Images -/

theorem FrameRecords.ofImage_fails {image : Image} {sections : Image.DebugSections} {e : Error}
    (h : ofImage image sections = .error e) : Illegible e ∨ e = .noDebugData image.path := by
  have hpresent : ∀ {records : FrameRecords} {input : SectionInput} {e : Error},
      records.readIfPresent image.bytes input = .error e → Illegible e := by
    intro records input e hread
    unfold readIfPresent at hread
    split at hread
    · cases hread
    · split at hread
      · cases hread
      · rename_i e' after herror
        cases hread
        exact readSection_fails (by rw [herror])
  unfold ofImage at h
  simp only [bind, Except.bind] at h
  split at h
  · rename_i herror
    cases h
    exact .inl (hpresent herror)
  · split at h
    · rename_i herror
      cases h
      exact .inl (hpresent herror)
    · split at h
      · cases h
        exact .inr rfl
      · cases h

/-- The frame records of an image, or none where they cannot be used. -/
def FrameRecords.usable (image : Image) (sections : Image.DebugSections) : FrameRecords :=
  match ofImage image sections with
  | .ok records => records
  | .error _ => .empty

/-- **An image with debug information is always indexed**: a failure to read its frame records costs the records
    only. -/
theorem FrameIndex.ofImage_eq (image : Image) :
    ofImage image = image.debugSections.map fun sections => ⟨sections, .usable image sections⟩ := by
  unfold ofImage
  cases hsections : image.debugSections with
  | error e => rfl
  | ok sections =>
      simp only [bind, Except.bind, Except.map, FrameRecords.usable]
      cases hrecords : FrameRecords.ofImage image sections with
      | ok records => rfl
      | error e =>
          rcases FrameRecords.ofImage_fails hrecords with hillegible | rfl
          · cases hillegible <;> rfl
          · rfl

end Cfi

namespace Image

/-- A section that does not lie in its file is malformed. -/
theorem span_fails {header : SectionHeader} {size : Nat} {e : Error} (h : header.span size = .error e) :
    ∃ defect, e = .malformed defect := by
  unfold SectionHeader.span at h
  split at h
  · cases h
  · cases h
    exact ⟨_, rfl⟩

/-- **A file that is not accepted is malformed.** -/
theorem ofBytes_fails {path : Path} {bs : Bytes} {e : Error} (h : ofBytes path bs = .error e) :
    ∃ defect, e = .malformed defect := by
  have hclass : ∀ {e : Error}, classOf bs = .error e → ∃ defect, e = .malformed defect := by
    intro e hfails
    unfold classOf at hfails
    dsimp only at hfails
    repeat' split at hfails
    all_goals cases hfails
    all_goals exact ⟨_, rfl⟩
  unfold ofBytes at h
  simp only [bind, Except.bind, pure, Except.pure, throw, throwThe, MonadExceptOf.throw] at h
  split at h
  · rename_i herror
    cases h
    exact hclass herror
  -- the checks of the header, in order
  iterate 6
    split at h
    · cases h
      exact ⟨_, rfl⟩
  split at h
  · rename_i herror
    cases h
    exact span_fails herror
  · cases h

/-- A name that cannot be read is malformed. -/
theorem nameOf_fails {image : Image} {header : SectionHeader} {e : Error} (h : image.nameOf header = .error e) :
    ∃ defect, e = .malformed defect := by
  unfold nameOf at h
  dsimp only at h
  repeat' split at h
  all_goals cases h
  all_goals exact ⟨_, rfl⟩

/-- A section that is looked up in vain is not there, or something malformed was met. -/
theorem section?_fails {image : Image} {name : Bytes} {e : Error} (h : image.section? name = .error e) :
    ∃ defect, e = .malformed defect := by
  unfold section? at h
  generalize (List.range image.count).map image.header = headers at h
  induction headers with
  | nil => cases h
  | cons header headers ih =>
      rw [firstNamed] at h
      simp only [bind, Except.bind, pure, Except.pure] at h
      split at h
      · rename_i herror
        cases h
        exact nameOf_fails herror
      · split at h
        · split at h
          · rename_i herror
            cases h
            exact span_fails herror
          · cases h
        · exact ih h

/-- **An image has no usable debug sections** when it has no debug information or is malformed. -/
theorem debugSections_fails {image : Image} {e : Error} (h : image.debugSections = .error e) :
    (∃ defect, e = .malformed defect) ∨ e = .noDebugData image.path := by
  unfold debugSections at h
  simp only [bind, Except.bind, pure, Except.pure, throw, throwThe, MonadExceptOf.throw] at h
  split at h
  · rename_i herror
    cases h
    exact .inl (section?_fails herror)
  split at h
  · cases h
    exact .inr rfl
  split at h
  · rename_i herror
    cases h
    exact .inl (section?_fails herror)
  split at h
  · rename_i herror
    cases h
    exact .inl (section?_fails herror)
  · cases h

end Image

/-! ## Modules -/

/-- A module has been loaded when its file could be read and accepted and has debug information. -/
theorem Module.load_eq_ok {files : FileSystem} {path : Path} {m : Module} (h : load files path = .ok m) :
    ∃ sections, Image.load files path = .ok m.image ∧ m.image.debugSections = .ok sections ∧
      m.index = ⟨sections, .usable m.image sections⟩ := by
  unfold load at h
  simp only [bind, Except.bind, pure, Except.pure, Cfi.FrameIndex.ofImage_eq] at h
  split at h
  · cases h
  · rename_i image himage
    cases hsections : image.debugSections with
    | error e => simp [hsections, Except.map] at h
    | ok sections =>
        simp only [hsections, Except.map, Except.ok.injEq] at h
        subst h
        exact ⟨sections, himage, hsections, rfl⟩

/-- **Why a module cannot be loaded**: its file cannot be read, is malformed, or has no debug information. -/
theorem Module.load_fails {files : FileSystem} {path : Path} {e : Error} (h : load files path = .error e) :
    (∃ fault, e = .io (.file path) fault) ∨ (∃ defect, e = .malformed defect) ∨ ∃ place, e = .noDebugData place := by
  unfold load at h
  simp only [bind, Except.bind, pure, Except.pure, Cfi.FrameIndex.ofImage_eq] at h
  split at h
  · rename_i herror
    cases h
    unfold Image.load at herror
    split at herror
    · cases herror
      exact .inl ⟨_, rfl⟩
    · cases herror
      exact .inr (.inl ⟨_, rfl⟩)
    · exact .inr (.inl (Image.ofBytes_fails herror))
  · rename_i image himage
    cases hsections : image.debugSections with
    | ok sections => simp [hsections, Except.map] at h
    | error e' =>
        simp only [hsections, Except.map, Except.error.injEq] at h
        subst h
        rcases Image.debugSections_fails hsections with hmalformed | rfl
        · exact .inr (.inl hmalformed)
        · exact .inr (.inr ⟨_, rfl⟩)

end Unwinder
