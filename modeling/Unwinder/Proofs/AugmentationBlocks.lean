import Mathlib.Data.List.TakeWhile
import Unwinder.Proofs.Faults
import Unwinder.Proofs.Numerals
import Unwinder.Proofs.Relocation

/-!
# `Proofs.AugmentationBlocks` — an augmentation block ends where its length says

The letters of an augmentation string and the bytes of the block are consumed in step, until a letter comes that is not
known. The rest of the record must not depend on how far that went: the instructions begin where the length of the block
says, and whatever the unknown letter and those behind it stand for stays unread.

## Contents
- **Heeding.** `Field.Heeds`: a reader looks at the front of its input and no further, also when it fails.
- **Letters.** `Augmentation.Known` letters; `Augmentation.Describes`, what they take off a block and which encodings
  they state; `Augmentation.unread`, what they leave. `walk_append_unknown`, `describes_of_walk` and `heeds_walk`.
- **Records.** `BlockRecord`, a common record with a block, piece by piece; `Spells.read_bytes` says what is read of it,
  `BlockRecord.exists_of_read` that nothing else with a block is read.
- **Main statement.** `Cie.block_bounded`.
-/

namespace Unwinder

/-! ## Heeding -/

namespace Field

variable {α β : Type}

/-- **Heeding.** On an input of this length that begins with `front`, nothing behind it is looked at: it is left when
    the reader succeeds, and does not matter when it fails. -/
def Heeds (field : Field α) (front behind : Bytes) : Prop :=
  ∀ other, other.length = behind.length →
    field (front ++ other) = (field (front ++ behind)).map fun p => (p.1, other)

theorem Reads.heeds {field : Field α} {front : Bytes} {a : α} (h : Reads field front a) (behind : Bytes) :
    Heeds field front behind := by
  intro other _
  rw [h other, h behind]
  rfl

/-- A reader that fails heeds what it takes to fail. -/
theorem heeds_of_error {field : Field α} {front behind : Bytes} {e : Error}
    (h : ∀ other, other.length = behind.length → field (front ++ other) = .error e) : Heeds field front behind := by
  intro other hother
  rw [h other hother, h behind rfl]
  rfl

/-- A reader that fails on all of its input has nothing behind it to look at. -/
theorem heeds_whole {field : Field α} {front : Bytes} {e : Error} (h : field front = .error e) :
    Heeds field front [] := by
  refine heeds_of_error (e := e) ?_
  intro other hother
  rw [List.length_eq_zero_iff.mp hother, List.append_nil]
  exact h

/-- After a value that is read in front of anything, what the next reader heeds is heeded. -/
theorem Heeds.after {first : Field α} {next : α → Field β} {front front' behind : Bytes} {a : α}
    (hfirst : Reads first front a) (hnext : Heeds (next a) front' behind) :
    Heeds (first >>= next) (front ++ front') behind := by
  intro other hother
  rw [List.append_assoc, List.append_assoc, bind_of_ok (hfirst _), bind_of_ok (hfirst _)]
  exact hnext other hother

/-- What is computed behind a reader looks at nothing more. -/
theorem Heeds.map {field : Field α} {front behind : Bytes} (h : Heeds field front behind) (f : α → β) :
    Heeds (field >>= fun a => pure (f a)) front behind := by
  intro other hother
  have hfield := h other hother
  cases hread : field (front ++ behind) with
  | error e =>
    rw [hread] at hfield
    rw [bind_of_error hread, bind_of_error hfield]
    rfl
  | ok pair =>
    rw [hread] at hfield
    rw [bind_of_ok hread, bind_of_ok hfield]
    rfl

/-- Computing something fails only where the reader before it does. -/
theorem map_eq_error {field : Field α} {f : α → β} {bs : Bytes} {e : Error}
    (h : (field >>= fun a => pure (f a)) bs = .error e) : field bs = .error e := by
  rcases bind_eq_error.mp h with herror | ⟨a, rest, _, hpure⟩
  · exact herror
  · cases hpure

/-- Where the first of two readers fails, the second heeds nothing. -/
theorem Heeds.fail {first : Field α} {front behind : Bytes} {e : Error} (h : Heeds first front behind)
    (herror : first (front ++ behind) = .error e) (next : α → Field β) : Heeds (first >>= next) front behind := by
  refine heeds_of_error (e := e) ?_
  intro other hother
  have hfirst := h other hother
  rw [herror] at hfirst
  exact bind_of_error hfirst

/-- A number that is cut off is refused by what is left. -/
theorem heeds_number {width : Nat} {bs : Bytes} {e : Error} (h : number width bs = .error e) :
    Heeds (number width) [] bs := by
  have hshort : ¬ width ≤ bs.length := by
    intro hle
    rw [number, bind_of_ok (by rw [take, if_pos hle])] at h
    cases h
  refine heeds_of_error (e := .malformed (.truncated width bs.length)) ?_
  intro other hother
  rw [List.nil_append, number, ← hother]
  exact bind_of_error (by rw [take, if_neg (by rw [hother]; exact hshort)])

theorem exact_check (result : Except Error α) : Exact (check result) := by
  cases result with
  | error e => exact exact_refuse e
  | ok a => exact exact_pure a

/-- A byte that is read was the first one. -/
theorem u8_eq_ok {bs rest : Bytes} {b : UInt8} (h : u8 bs = .ok (b, rest)) : bs = b :: rest := by
  cases bs with
  | nil => cases h
  | cons b' bs =>
    have hread : u8 (b' :: bs) = .ok (b', bs) := reads_u8 b' bs
    rw [hread] at h
    cases h
    rfl

/-- As many bytes are taken as were asked for. -/
theorem take_eq_ok {n : Nat} {bs front rest : Bytes} (h : take n bs = .ok (front, rest)) :
    bs = front ++ rest ∧ front.length = n := by
  rw [take] at h
  split at h
  · rename_i hle
    cases h
    exact ⟨(List.take_append_drop n bs).symm, List.length_take_of_le hle⟩
  · cases h

/-- A text that is read stands before the first zero byte. -/
theorem text_eq_ok {bs chars rest : Bytes} (h : text bs = .ok (chars, rest)) :
    bs = chars ++ 0 :: rest ∧ (∀ b ∈ chars, b ≠ 0) ∧ Utf8.IsText chars := by
  rw [text] at h
  obtain ⟨chars', mid, hterminated, h⟩ := bind_eq_ok.mp h
  cases hfault : Utf8.fault? chars' with
  | some fault =>
    simp only [hfault] at h
    cases h
  | none =>
    simp only [hfault] at h
    cases h
    rw [terminated] at hterminated
    split at hterminated
    · cases hterminated
    · rename_i zero behind hdrop
      cases hterminated
      have hzero := List.head?_dropWhile_not (fun b : UInt8 => decide (b ≠ 0)) bs
      rw [hdrop] at hzero
      obtain rfl : zero = 0 := by simpa using hzero
      refine ⟨?_, ?_, hfault⟩
      · rw [← hdrop, List.takeWhile_append_dropWhile]
      · intro b hb
        simpa using List.mem_takeWhile_imp hb

theorem u8_nil : u8 [] = .error (.malformed (.truncated 1 0)) := rfl

end Field

namespace Leb128

/-- **A numeral that is refused** was read up to the byte that shows it. -/
theorem heeds_groups {defect : Defect} {count : Nat} {bs : Bytes} {e : Error}
    (h : groups defect count bs = .error e) :
    Field.Heeds (groups defect count) (bs.take (count + 1)) (bs.drop (count + 1)) := by
  induction count generalizing bs with
  | zero =>
    cases bs with
    | nil => exact Field.heeds_whole h
    | cons b bs =>
      refine Field.heeds_of_error (e := .malformed defect) ?_
      intro other _
      exact Field.bind_of_ok (Field.reads_u8 b other)
  | succ count ih =>
    cases bs with
    | nil => exact Field.heeds_whole h
    | cons b bs =>
      have hbyte : Field.u8 (b :: bs) = .ok (b, bs) := Field.reads_u8 b bs
      rw [groups, Field.bind_of_ok hbyte] at h
      rw [List.take_succ_cons, List.drop_succ_cons, groups]
      refine Field.Heeds.after (Field.reads_u8 b) ?_
      split at h
      · cases h
      · rename_i hmore
        rw [if_neg hmore]
        exact (ih (Field.map_eq_error h)).map _

end Leb128

namespace Cfi

/-! ## Letters -/

namespace PointerEncoding

/-- What a pointer that cannot be read leaves unread: a numeral is read up to the byte that shows that it is too long,
    anything else is refused before it is read. -/
def unread (encoding : PointerEncoding) (bs : Bytes) : Bytes :=
  match encoding.form? with
  | .ok .unsignedLeb | .ok .signedLeb => bs.drop (Leb128.maxGroups + 1)
  | _ => bs

/-- A value that cannot be read is refused by the bytes up to what it leaves unread. -/
theorem heeds_value {addressSize : UInt8} {encoding : PointerEncoding} {form : PointerForm}
    (hform : encoding.form? = .ok form) {bs : Bytes} {e : Error} (h : value addressSize form bs = .error e) :
    ∃ front, bs = front ++ encoding.unread bs ∧ Field.Heeds (value addressSize form) front (encoding.unread bs) := by
  cases form with
  | absolute =>
    have hunread : encoding.unread bs = bs := by rw [unread, hform]
    refine ⟨[], by rw [hunread]; rfl, ?_⟩
    rw [hunread]
    rw [value, Field.address] at h ⊢
    split at h
    · rename_i hsize
      rw [if_pos hsize]
      exact (Field.heeds_number (Field.map_eq_error h)).map _
    · rename_i hsize
      rw [if_neg hsize]
      exact Field.heeds_of_error fun _ _ => rfl
  | unsigned2 | unsigned4 | unsigned8 | signed2 | signed4 | signed8 =>
    have hunread : encoding.unread bs = bs := by rw [unread, hform]
    refine ⟨[], by rw [hunread]; rfl, ?_⟩
    rw [hunread]
    exact (Field.heeds_number (Field.map_eq_error h)).map _
  | unsignedLeb =>
    have hunread : encoding.unread bs = bs.drop (Leb128.maxGroups + 1) := by rw [unread, hform]
    refine ⟨bs.take (Leb128.maxGroups + 1), by rw [hunread, List.take_append_drop], ?_⟩
    rw [hunread]
    exact (Leb128.heeds_groups (Field.map_eq_error h)).map _
  | signedLeb =>
    have hunread : encoding.unread bs = bs.drop (Leb128.maxGroups + 1) := by rw [unread, hform]
    have hgroups := Field.map_eq_error (Field.map_eq_error h)
    refine ⟨bs.take (Leb128.maxGroups + 1), by rw [hunread, List.take_append_drop], ?_⟩
    rw [hunread]
    exact ((Leb128.heeds_groups hgroups).map _).map _

/-- A form alone is counted from zero. -/
theorem base?_formOnly (encoding : PointerEncoding) : encoding.formOnly.base? = .ok .absolute := by
  have hlow : ∀ mask : UInt8, mask &&& 0x0f = 0 → encoding.formOnly.byte &&& mask = 0 := by
    intro mask hmask
    rw [formOnly, UInt8.and_assoc, UInt8.and_comm 0x0f, hmask, UInt8.and_zero]
  rw [base?, hlow 0x80 (by decide), hlow 0x70 (by decide)]
  rfl

/-- **A pointer that cannot be read** is refused by the bytes up to what it leaves unread. -/
theorem heeds_read {addressSize : UInt8} {encoding : PointerEncoding} {bs : Bytes} {e : Error}
    (h : encoding.formOnly.read addressSize 0 bs = .error e) :
    ∃ front, bs = front ++ encoding.formOnly.unread bs ∧
      Field.Heeds (encoding.formOnly.read addressSize 0) front (encoding.formOnly.unread bs) := by
  cases hform : encoding.formOnly.form? with
  | error e' =>
    -- the form is looked at before the value
    have hunread : encoding.formOnly.unread bs = bs := by rw [unread, hform]
    refine ⟨[], by rw [hunread]; rfl, ?_⟩
    refine Field.heeds_of_error (e := e') ?_
    intro other _
    rw [read, hform]
    exact Field.bind_of_error rfl
  | ok form =>
    have hread : encoding.formOnly.read addressSize 0 =
        (value addressSize form >>= fun v => Field.check (resolve 0 v .absolute)) := by
      rw [read, hform, base?_formOnly, Field.check_ok, Field.check_ok, pure_bind]
      simp only [pure_bind]
    rw [hread] at h ⊢
    rcases Field.bind_eq_error.mp h with hvalue | ⟨v, rest, _, hcheck⟩
    · obtain ⟨front, hbs, hheeds⟩ := heeds_value hform hvalue
      refine ⟨front, hbs, hheeds.fail (e := e) ?_ _⟩
      rw [← hbs]
      exact hvalue
    · cases hcheck

theorem exact_value (addressSize : UInt8) (form : PointerForm) : Field.Exact (value addressSize form) := by
  cases form with
  | absolute => exact Field.exact_address addressSize
  | unsignedLeb => exact Leb128.exact_unsigned
  | signedLeb => exact Leb128.exact_signed.map _
  | unsigned2 | signed2 => exact (Field.exact_number 2).map _
  | unsigned4 | signed4 => exact (Field.exact_number 4).map _
  | unsigned8 | signed8 => exact (Field.exact_number 8).map _

theorem exact_read (encoding : PointerEncoding) (addressSize : UInt8) (place : UInt64) :
    Field.Exact (encoding.read addressSize place) :=
  (Field.exact_check _).bind fun form => (exact_value addressSize form).bind fun _ =>
    (Field.exact_check _).bind fun _ => Field.exact_check _

end PointerEncoding

namespace Augmentation

/-- The letters whose parts of a block are known. -/
def Known (letter : UInt8) : Prop := letter = 0x4c ∨ letter = 0x50 ∨ letter = 0x52 ∨ letter = 0x53

instance (letter : UInt8) : Decidable (Known letter) := inferInstanceAs (Decidable (_ ∨ _))

section Walk

variable (addressSize : UInt8) (found : Option PointerEncoding) (letters : Bytes)

theorem walk_lsda : walk addressSize found (0x4c :: letters) =
    Field.u8 >>= fun _ => walk addressSize found letters := by
  rw [walk, if_pos rfl]

theorem walk_personality : walk addressSize found (0x50 :: letters) =
    Field.u8 >>= fun byte => (PointerEncoding.mk byte).formOnly.read addressSize 0 >>= fun _ =>
      walk addressSize found letters := by
  rw [walk, if_neg (by decide), if_pos rfl]

theorem walk_addresses : walk addressSize found (0x52 :: letters) =
    Field.u8 >>= fun byte => walk addressSize (some ⟨byte⟩) letters := by
  rw [walk, if_neg (by decide), if_neg (by decide), if_pos rfl]

theorem walk_signal : walk addressSize found (0x53 :: letters) = walk addressSize found letters := by
  rw [walk, if_neg (by decide), if_neg (by decide), if_neg (by decide), if_pos rfl]

variable {addressSize found letters}

/-- The walk ends at a letter that is not known. -/
theorem walk_unknown {tail : Bytes} (h : ∀ letter ∈ tail.head?, ¬ Known letter) :
    walk addressSize found tail = pure found := by
  cases tail with
  | nil => rfl
  | cons letter tail =>
    have hletter : ¬ Known letter := h letter rfl
    simp only [Known, not_or] at hletter
    rw [walk, if_neg hletter.1, if_neg hletter.2.1, if_neg hletter.2.2.1, if_neg hletter.2.2.2]

/-- **An unknown letter hides what is behind it.** -/
theorem walk_append_unknown {tail : Bytes} (hknown : ∀ letter ∈ letters, Known letter)
    (hunknown : ∀ letter ∈ tail.head?, ¬ Known letter) :
    walk addressSize found (letters ++ tail) = walk addressSize found letters := by
  induction letters generalizing found with
  | nil => exact walk_unknown hunknown
  | cons letter letters ih =>
    obtain ⟨hletter, hletters⟩ := List.forall_mem_cons.mp hknown
    rw [List.cons_append]
    rcases hletter with rfl | rfl | rfl | rfl
    · simp only [walk_lsda, ih hletters]
    · simp only [walk_personality, ih hletters]
    · simp only [walk_addresses, ih hletters]
    · simp only [walk_signal, ih hletters]

end Walk

/-- **What letters take off a block**: the bytes, and the encodings that letters `R` state. -/
inductive Describes (addressSize : UInt8) : Bytes → Bytes → List PointerEncoding → Prop where
  | nothing : Describes addressSize [] [] []
  | lsda {letters front : Bytes} {stated : List PointerEncoding} (byte : UInt8)
      (h : Describes addressSize letters front stated) :
      Describes addressSize (0x4c :: letters) (byte :: front) stated
  | personality {letters front pointer : Bytes} {stated : List PointerEncoding} {v : UInt64} (byte : UInt8)
      (hpointer : Field.Reads ((PointerEncoding.mk byte).formOnly.read addressSize 0) pointer v)
      (h : Describes addressSize letters front stated) :
      Describes addressSize (0x50 :: letters) (byte :: (pointer ++ front)) stated
  | addresses {letters front : Bytes} {stated : List PointerEncoding} (byte : UInt8)
      (h : Describes addressSize letters front stated) :
      Describes addressSize (0x52 :: letters) (byte :: front) (⟨byte⟩ :: stated)
  | signal {letters front : Bytes} {stated : List PointerEncoding}
      (h : Describes addressSize letters front stated) : Describes addressSize (0x53 :: letters) front stated

/-- What comes last replaces what was found before. -/
theorem getLast?_cons_or (encoding : PointerEncoding) (stated : List PointerEncoding) (found : Option PointerEncoding) :
    (encoding :: stated).getLast?.or found = stated.getLast?.or (some encoding) := by
  rw [List.getLast?_cons]
  cases stated.getLast? <;> rfl

variable {addressSize : UInt8}

/-- The walk takes what the letters describe, and finds the last encoding that they state. -/
theorem Describes.reads {letters front : Bytes} {stated : List PointerEncoding}
    (h : Describes addressSize letters front stated) (found : Option PointerEncoding) :
    Field.Reads (walk addressSize found letters) front (stated.getLast?.or found) := by
  induction h generalizing found with
  | nothing => exact Field.Reads.pure found
  | lsda byte _ ih =>
    rw [walk_lsda]
    exact (Field.reads_u8 byte).bind (ih found)
  | personality byte hpointer _ ih =>
    rw [walk_personality]
    exact (Field.reads_u8 byte).bind (hpointer.bind (ih found))
  | addresses byte _ ih =>
    rw [walk_addresses, getLast?_cons_or]
    exact (Field.reads_u8 byte).bind (ih (some ⟨byte⟩))
  | signal _ ih =>
    rw [walk_signal]
    exact ih found

/-- **A walk that succeeds** took what the letters describe. -/
theorem describes_of_walk {letters bs rest : Bytes} {found encoding : Option PointerEncoding}
    (hknown : ∀ letter ∈ letters, Known letter) (h : walk addressSize found letters bs = .ok (encoding, rest)) :
    ∃ front stated, bs = front ++ rest ∧ Describes addressSize letters front stated ∧
      encoding = stated.getLast?.or found := by
  induction letters generalizing found bs with
  | nil =>
    cases h
    exact ⟨[], [], rfl, .nothing, rfl⟩
  | cons letter letters ih =>
    obtain ⟨hletter, hletters⟩ := List.forall_mem_cons.mp hknown
    rcases hletter with rfl | rfl | rfl | rfl
    · rw [walk_lsda] at h
      obtain ⟨byte, mid, hbyte, hwalk⟩ := Field.bind_eq_ok.mp h
      obtain ⟨front, stated, rfl, hdescribes, hfound⟩ := ih hletters hwalk
      exact ⟨byte :: front, stated, Field.u8_eq_ok hbyte, hdescribes.lsda byte, hfound⟩
    · rw [walk_personality] at h
      obtain ⟨byte, mid, hbyte, hpointed⟩ := Field.bind_eq_ok.mp h
      obtain ⟨v, after, hpointer, hwalk⟩ := Field.bind_eq_ok.mp hpointed
      obtain ⟨pointer, rfl, hreads⟩ := PointerEncoding.exact_read _ _ _ _ _ _ hpointer
      obtain ⟨front, stated, rfl, hdescribes, hfound⟩ := ih hletters hwalk
      refine ⟨byte :: (pointer ++ front), stated, ?_, hdescribes.personality byte hreads, hfound⟩
      rw [Field.u8_eq_ok hbyte, List.cons_append, List.append_assoc]
    · rw [walk_addresses] at h
      obtain ⟨byte, mid, hbyte, hwalk⟩ := Field.bind_eq_ok.mp h
      obtain ⟨front, stated, rfl, hdescribes, hfound⟩ := ih hletters hwalk
      refine ⟨byte :: front, ⟨byte⟩ :: stated, Field.u8_eq_ok hbyte, hdescribes.addresses byte, ?_⟩
      rw [getLast?_cons_or]
      exact hfound
    · rw [walk_signal] at h
      obtain ⟨front, stated, hbs, hdescribes, hfound⟩ := ih hletters h
      exact ⟨front, stated, hbs, .signal hdescribes, hfound⟩

/-- **What letters leave of a block**, whether the walk comes to their end or fails on the way. -/
def unread (addressSize : UInt8) : Bytes → Bytes → Bytes
  | [], bs => bs
  | letter :: letters, bs =>
      if letter = 0x53 then unread addressSize letters bs
      else match bs with
        | [] => []
        | byte :: bs =>
            if letter = 0x50 then
              match (PointerEncoding.mk byte).formOnly.read addressSize 0 bs with
              | .ok (_, rest) => unread addressSize letters rest
              | .error _ => (PointerEncoding.mk byte).formOnly.unread bs
            else unread addressSize letters bs

/-- **The walk heeds nothing that the letters leave.** -/
theorem heeds_walk (addressSize : UInt8) {letters : Bytes} (hknown : ∀ letter ∈ letters, Known letter)
    (found : Option PointerEncoding) (bs : Bytes) :
    ∃ front, bs = front ++ unread addressSize letters bs ∧
      Field.Heeds (walk addressSize found letters) front (unread addressSize letters bs) := by
  induction letters generalizing found bs with
  | nil => exact ⟨[], rfl, (Field.Reads.pure found).heeds bs⟩
  | cons letter letters ih =>
    obtain ⟨hletter, hletters⟩ := List.forall_mem_cons.mp hknown
    -- every letter but `S` takes a byte, without which the walk fails
    have hnothing : ∀ {next : UInt8 → Field (Option PointerEncoding)}, Field.Heeds (Field.u8 >>= next) [] [] :=
      Field.heeds_whole (Field.bind_of_error Field.u8_nil)
    rcases hletter with rfl | rfl | rfl | rfl
    · rw [walk_lsda]
      cases bs with
      | nil => exact ⟨[], rfl, hnothing⟩
      | cons byte bs =>
        obtain ⟨front, hbs, hheeds⟩ := ih hletters found bs
        exact ⟨[byte] ++ front, congrArg (byte :: ·) hbs, hheeds.after (Field.reads_u8 byte)⟩
    · rw [walk_personality]
      cases bs with
      | nil => exact ⟨[], rfl, hnothing⟩
      | cons byte bs =>
        cases hpointer : (PointerEncoding.mk byte).formOnly.read addressSize 0 bs with
        | error e =>
          have hunread : unread addressSize (0x50 :: letters) (byte :: bs) =
              (PointerEncoding.mk byte).formOnly.unread bs := by
            simp [unread, hpointer]
          obtain ⟨front, hbs, hheeds⟩ := PointerEncoding.heeds_read hpointer
          rw [hunread]
          refine ⟨[byte] ++ front, congrArg (byte :: ·) hbs, Field.Heeds.after (Field.reads_u8 byte) ?_⟩
          exact hheeds.fail (by rw [← hbs]; exact hpointer) _
        | ok pair =>
          obtain ⟨v, rest⟩ := pair
          have hunread : unread addressSize (0x50 :: letters) (byte :: bs) = unread addressSize letters rest := by
            simp [unread, hpointer]
          obtain ⟨pointer, rfl, hreads⟩ := PointerEncoding.exact_read _ _ _ _ _ _ hpointer
          obtain ⟨front, hrest, hheeds⟩ := ih hletters found rest
          rw [hunread]
          refine ⟨[byte] ++ (pointer ++ front), ?_, (hheeds.after hreads).after (Field.reads_u8 byte)⟩
          rw [List.append_assoc, List.append_assoc, ← hrest]
          rfl
    · rw [walk_addresses]
      cases bs with
      | nil => exact ⟨[], rfl, hnothing⟩
      | cons byte bs =>
        obtain ⟨front, hbs, hheeds⟩ := ih hletters (some ⟨byte⟩) bs
        exact ⟨[byte] ++ front, congrArg (byte :: ·) hbs, Field.Heeds.after (Field.reads_u8 byte) hheeds⟩
    · rw [walk_signal]
      exact ih hletters found bs

end Augmentation

/-! ## Records -/

/-- The numbers of a common record. -/
structure CommonNumbers where
  codeAlign : UInt64
  dataAlign : Int64
  returnColumn : UInt64
  addressSize : UInt8

namespace Cie

/-- The numbers between the augmentation string and the block. -/
def numbers (flavour : Flavour) (version given : UInt8) : Field CommonNumbers := do
  let codeAlign ← Leb128.unsigned
  let dataAlign ← Leb128.signed
  let returnColumn ← Leb128.unsigned
  let addressSize ← statedAddressSize flavour version given
  return ⟨codeAlign, dataAlign, returnColumn, addressSize⟩

theorem exact_numbers (flavour : Flavour) (version given : UInt8) :
    Field.Exact (numbers flavour version given) := by
  have hsize : Field.Exact (statedAddressSize flavour version given) := by
    unfold statedAddressSize
    split
    · exact Field.exact_u8.bind fun size => Field.exact_u8.bind fun _ => Field.exact_pure size
    · exact Field.exact_pure given
  exact Leb128.exact_unsigned.bind fun _ => Leb128.exact_signed.bind fun _ =>
    Leb128.exact_unsigned.bind fun _ => hsize.bind fun _ => Field.exact_pure _

/-- The common record from its numbers on. -/
def behindText (flavour : Flavour) (given : UInt8) (offset imageFinish : Nat) (version : UInt8)
    (augmentation : Bytes) : Field Cie := do
  let numbers ← numbers flavour version given
  let encoding ← statedEncoding flavour augmentation numbers.addressSize
  let left ← Field.left
  return { flavour, offset, version, augmentation, encoding, codeAlign := numbers.codeAlign,
           dataAlign := numbers.dataAlign, returnColumn := numbers.returnColumn,
           addressSize := numbers.addressSize, instructions := ⟨imageFinish - left, imageFinish⟩ }

/-- A common record is read up to its text, and then from its numbers on. -/
theorem read_eq (flavour : Flavour) (given : UInt8) (offset imageFinish : Nat) :
    Cie.read flavour given offset imageFinish = Field.u8 >>= fun version =>
      if knownVersion version then
        Field.text >>= fun augmentation => behindText flavour given offset imageFinish version augmentation
      else Field.refuse (.malformed (.cieVersion version)) := by
  simp only [Cie.read, behindText, numbers, bind_assoc, pure_bind]

/-- What a reading of a common record comes to, apart from the augmentation string and from where the record stands. The
    instructions are the bytes that are left. -/
def outcome (result : Except Error (Cie × Bytes)) : Except Error (Cie × Bytes) :=
  result.map fun p => ({ p.1 with offset := 0, augmentation := [], instructions := ⟨0, 0⟩ }, p.2)

/-- A common record whose text is plain is read from its numbers on. -/
theorem read_text (flavour : Flavour) (given : UInt8) (offset imageFinish : Nat) (version : UInt8) {text : Bytes}
    (hzero : ∀ b ∈ text, b ≠ 0) (htext : Utf8.IsText text) (behind : Bytes) :
    Cie.read flavour given offset imageFinish (version :: (text ++ 0 :: behind)) =
      if knownVersion version then behindText flavour given offset imageFinish version text behind
      else .error (.malformed (.cieVersion version)) := by
  have hversion : Field.u8 (version :: (text ++ 0 :: behind)) = .ok (version, text ++ 0 :: behind) :=
    Field.reads_u8 version _
  rw [read_eq, Field.bind_of_ok hversion]
  by_cases hknown : knownVersion version = true
  · have hread : Field.text (text ++ 0 :: behind) = .ok (text, behind) := by
      have hreads := Field.reads_text hzero htext behind
      rwa [List.append_assoc, List.singleton_append] at hreads
    rw [if_pos hknown, if_pos hknown, Field.bind_of_ok hread]
  · rw [if_neg hknown, if_neg hknown]
    rfl

end Cie

/-- The text of an augmentation string with a block: the letters that are known, and what comes from the first unknown
    one on. -/
def blockText (letters tail : Bytes) : Bytes := blockLetter :: (letters ++ tail)

/-- **A text that is cut** where its letters stop being known. -/
structure Cut (letters tail : Bytes) : Prop where
  known : ∀ letter ∈ letters, Augmentation.Known letter
  unknown : ∀ letter ∈ tail.head?, ¬ Augmentation.Known letter
  unbroken : ∀ b ∈ tail, b ≠ 0
  isText : Utf8.IsText (blockText letters tail)

namespace Cut

variable {letters tail : Bytes} (h : Cut letters tail)

include h

theorem unbroken_text : ∀ b ∈ blockText letters tail, b ≠ 0 := by
  intro b hb
  rcases List.mem_cons.mp hb with rfl | hb
  · decide
  rcases List.mem_append.mp hb with hletter | htail
  · rcases h.known b hletter with rfl | rfl | rfl | rfl <;> decide
  · exact h.unbroken b htail

/-- Without the tail the text is plain as well. -/
theorem withoutTail : Cut letters [] := by
  refine ⟨h.known, ?_, ?_, ?_⟩
  · intro letter hletter
    cases hletter
  · intro b hb
    cases hb
  · refine Utf8.fault?_of_ascii ?_
    intro b hb
    rw [blockText, List.append_nil] at hb
    rcases List.mem_cons.mp hb with rfl | hletter
    · decide
    · rcases h.known b hletter with rfl | rfl | rfl | rfl <;> decide

/-- The encoding that a block states is found by the known letters. -/
theorem encoding_eq (addressSize : UInt8) (bs : Bytes) :
    Augmentation.encoding (blockText letters tail) addressSize bs =
      (Augmentation.walk addressSize none letters bs).map (·.1) := by
  rw [Augmentation.encoding, blockText, List.tail_cons, Augmentation.walk_append_unknown h.known h.unknown]

/-- **What stands behind the known letters does not show** in what is read of a record. -/
theorem statedEncoding_eq (flavour : Flavour) (addressSize : UInt8) :
    statedEncoding flavour (blockText letters tail) addressSize =
      statedEncoding flavour (blockText letters []) addressSize := by
  have hblock : hasBlock (blockText letters tail) = true := rfl
  have hblock' : hasBlock (blockText letters []) = true := rfl
  simp only [statedEncoding, if_pos hblock, if_pos hblock', h.encoding_eq, h.withoutTail.encoding_eq]

end Cut

/-- A tail that is not known changes nothing but the text. -/
theorem Cie.behindText_cut {letters tail : Bytes} (h : Cut letters tail) (flavour : Flavour) (given : UInt8)
    (offset imageFinish offset' imageFinish' : Nat) (version : UInt8) (bs : Bytes) :
    outcome (behindText flavour given offset imageFinish version (blockText letters tail) bs) =
      outcome (behindText flavour given offset' imageFinish' version (blockText letters []) bs) := by
  have hbecomes : Field.Becomes
      (fun p => ({ p.1 with offset := offset', augmentation := blockText letters []
                            instructions := ⟨imageFinish' - p.2.length, imageFinish'⟩ }, p.2))
      (behindText flavour given offset imageFinish version (blockText letters tail))
      (behindText flavour given offset' imageFinish' version (blockText letters [])) := by
    refine .after _ fun numbers => ?_
    rw [h.statedEncoding_eq]
    exact .after _ fun encoding => fun _ => rfl
  rw [hbecomes bs]
  cases behindText flavour given offset imageFinish version (blockText letters tail) bs <;> rfl

/-- A common record with an augmentation block, piece by piece. -/
structure BlockRecord where
  version : UInt8
  /-- The letters before the first unknown one. -/
  letters : Bytes
  /-- The text from the first unknown letter on. -/
  tail : Bytes
  /-- The numbers between the text and the block. -/
  numbers : Bytes
  /-- The numeral of the block's length. -/
  length : Bytes
  block : Bytes
  instructions : Bytes

namespace BlockRecord

/-- The bytes of the record. -/
def bytes (r : BlockRecord) : Bytes :=
  r.version :: (blockText r.letters r.tail ++ 0 :: (r.numbers ++ (r.length ++ (r.block ++ r.instructions))))

/-- **The pieces are those that a reader takes**: the block has as many bytes as its length says. -/
structure Spells (flavour : Flavour) (given : UInt8) (r : BlockRecord) (numbers : CommonNumbers) : Prop where
  version : r.version = 1 ∨ r.version = 3 ∨ r.version = 4
  cut : Cut r.letters r.tail
  numbers : Field.Reads (Cie.numbers flavour r.version given) r.numbers numbers
  length : ∃ n, Field.Reads Leb128.unsigned r.length n ∧ r.block.length = n.toNat

/-- The encoding of a record for which a walk over the block has ended. -/
def encodingOf (flavour : Flavour) (found : Option PointerEncoding) : PointerEncoding :=
  if flavour = .debugFrame then .absolute else found.getD .absolute

/-- The common record that is read. -/
def cieOf (r : BlockRecord) (flavour : Flavour) (offset imageFinish : Nat) (numbers : CommonNumbers)
    (found : Option PointerEncoding) : Cie where
  flavour := flavour
  offset := offset
  version := r.version
  augmentation := blockText r.letters r.tail
  codeAlign := numbers.codeAlign
  dataAlign := numbers.dataAlign
  returnColumn := numbers.returnColumn
  encoding := encodingOf flavour found
  addressSize := numbers.addressSize
  instructions := ⟨imageFinish - r.instructions.length, imageFinish⟩

variable {flavour : Flavour} {given : UInt8} {r : BlockRecord} {numbers : CommonNumbers}

/-- **What is read of a record with a block.** The walk over the block decides between success and failure, and about
    the encoding; the instructions are what stands behind the block, wherever the walk has ended. -/
theorem Spells.read_bytes (h : r.Spells flavour given numbers) (offset imageFinish : Nat) :
    Cie.read flavour given offset imageFinish r.bytes =
      (Augmentation.encoding (blockText r.letters r.tail) numbers.addressSize r.block).map fun found =>
        (r.cieOf flavour offset imageFinish numbers found, r.instructions) := by
  obtain ⟨n, hlength, hblock⟩ := h.length
  have hread : Cfi.block (r.length ++ (r.block ++ r.instructions)) = .ok (r.block, r.instructions) := by
    have htake : Field.take n.toNat (r.block ++ r.instructions) = .ok (r.block, r.instructions) := by
      rw [← hblock]
      exact Field.take_append _ _
    rw [Cfi.block, Field.bind_of_ok (hlength _), htake]
  have hstated : statedEncoding flavour (blockText r.letters r.tail) numbers.addressSize
      (r.length ++ (r.block ++ r.instructions)) =
      (Augmentation.encoding (blockText r.letters r.tail) numbers.addressSize r.block).map fun found =>
        (encodingOf flavour found, r.instructions) := by
    have hhas : hasBlock (blockText r.letters r.tail) = true := rfl
    rw [statedEncoding, if_pos hhas, Field.bind_of_ok hread]
    cases Augmentation.encoding (blockText r.letters r.tail) numbers.addressSize r.block <;> rfl
  rw [bytes, Cie.read_text _ _ _ _ _ h.cut.unbroken_text h.cut.isText, if_pos (knownVersion_iff.mpr h.version),
    Cie.behindText, Field.bind_of_ok (h.numbers _)]
  cases hfound : Augmentation.encoding (blockText r.letters r.tail) numbers.addressSize r.block with
  | error e =>
    rw [hfound] at hstated
    exact Field.bind_of_error hstated
  | ok found =>
    rw [hfound] at hstated
    rw [Field.bind_of_ok hstated]
    rfl

/-- A text that begins with the letter of blocks is cut where its letters stop being known. -/
theorem exists_cut {text : Bytes} (hblock : hasBlock text = true) (hzero : ∀ b ∈ text, b ≠ 0)
    (htext : Utf8.IsText text) : ∃ letters tail, text = blockText letters tail ∧ Cut letters tail := by
  cases text with
  | nil => cases hblock
  | cons first behind =>
    obtain rfl : first = blockLetter := by simpa [hasBlock] using hblock
    have hsplit : behind = behind.takeWhile (fun letter => decide (Augmentation.Known letter)) ++
        behind.dropWhile (fun letter => decide (Augmentation.Known letter)) := List.takeWhile_append_dropWhile.symm
    refine ⟨_, _, congrArg (blockLetter :: ·) hsplit, ?_, ?_, ?_, ?_⟩
    · intro letter hletter
      simpa using List.mem_takeWhile_imp hletter
    · intro letter hletter
      have hnot := List.head?_dropWhile_not (fun letter => decide (Augmentation.Known letter)) behind
      rw [Option.mem_def.mp hletter] at hnot
      exact of_decide_eq_false hnot
    · intro b hb
      exact hzero b (List.mem_cons_of_mem _ ((List.dropWhile_suffix _).subset hb))
    · rw [blockText, ← hsplit]
      exact htext

/-- **Nothing else with a block is read.** -/
theorem exists_of_read {offset imageFinish : Nat} {bs rest : Bytes} {cie : Cie}
    (h : Cie.read flavour given offset imageFinish bs = .ok (cie, rest)) (hblock : cie.hasBlock = true) :
    ∃ r numbers, bs = bytes r ∧ r.Spells flavour given numbers ∧ rest = r.instructions := by
  rw [Cie.read_eq] at h
  obtain ⟨version, afterVersion, hversion, h⟩ := Field.bind_eq_ok.mp h
  split at h
  · rename_i hknown
    obtain ⟨text, afterText, htext, h⟩ := Field.bind_eq_ok.mp h
    obtain ⟨numbers, afterNumbers, hnumbers, h⟩ := Field.bind_eq_ok.mp h
    obtain ⟨encoding, afterBlock, hencoding, h⟩ := Field.bind_eq_ok.mp h
    cases h
    obtain ⟨rfl, hzero, hisText⟩ := Field.text_eq_ok htext
    obtain ⟨letters, tail, rfl, hcut⟩ := exists_cut hblock hzero hisText
    obtain ⟨numberBytes, rfl, hreads⟩ := Cie.exact_numbers flavour version given _ _ _ hnumbers
    have hhas : hasBlock (blockText letters tail) = true := rfl
    rw [statedEncoding, if_pos hhas] at hencoding
    obtain ⟨content, afterContent, hcontent, hchecked⟩ := Field.bind_eq_ok.mp hencoding
    obtain ⟨n, afterLength, hlength, htake⟩ := Field.bind_eq_ok.mp hcontent
    obtain ⟨lengthBytes, rfl, hlengthReads⟩ := Leb128.exact_unsigned _ _ _ hlength
    obtain ⟨rfl, hsize⟩ := Field.take_eq_ok htake
    refine ⟨⟨version, letters, tail, numberBytes, lengthBytes, content, afterContent⟩, numbers, ?_, ?_, ?_⟩
    · rw [Field.u8_eq_ok hversion, bytes]
    · exact ⟨knownVersion_iff.mp hknown, hcut, hreads, n, hlengthReads, hsize⟩
    · -- the check of the block reads nothing
      obtain ⟨stated, afterCheck, hcheck, hpure⟩ := Field.bind_eq_ok.mp hchecked
      cases hpure
      cases hstated : Augmentation.encoding (blockText letters tail) numbers.addressSize content with
      | error e =>
        rw [hstated] at hcheck
        cases hcheck
      | ok found =>
        rw [hstated] at hcheck
        cases hcheck
        rfl
  · cases h

/-- **Records that differ in what is not looked at**: in the text from the first unknown letter on, in how their
    numbers are spelled, and in what the known letters leave of the block. When the letters can all be walked, the
    blocks may even have different lengths. -/
structure SameButUnread (addressSize : UInt8) (r r' : BlockRecord) : Prop where
  version : r'.version = r.version
  letters : r'.letters = r.letters
  instructions : r'.instructions = r.instructions
  block : ∃ front other, r.block = front ++ Augmentation.unread addressSize r.letters r.block ∧
    r'.block = front ++ other ∧
    (other.length = (Augmentation.unread addressSize r.letters r.block).length ∨
      ∃ p, Augmentation.walk addressSize none r.letters r.block = .ok p)

/-- The walk over the other block finds the same encoding, or fails in the same way. -/
theorem SameButUnread.walk_eq {r r' : BlockRecord} {addressSize : UInt8} (h : SameButUnread addressSize r r')
    (hknown : ∀ letter ∈ r.letters, Augmentation.Known letter) :
    (Augmentation.walk addressSize none r'.letters r'.block).map (·.1) =
      (Augmentation.walk addressSize none r.letters r.block).map (·.1) := by
  obtain ⟨front, other, hblock, hblock', hlength⟩ := h.block
  obtain ⟨front', hfront', hheeds⟩ := Augmentation.heeds_walk addressSize hknown none r.block
  obtain rfl : front = front' := List.append_cancel_right (hblock.symm.trans hfront')
  rw [h.letters, hblock']
  rcases hlength with hlength | ⟨⟨found, rest⟩, hwalk⟩
  · rw [hheeds other hlength, ← hblock]
    cases Augmentation.walk addressSize none r.letters r.block <;> rfl
  · -- what a successful walk leaves is what the letters leave
    have hself := hheeds _ rfl
    rw [← hblock, hwalk] at hself
    have hrest : rest = Augmentation.unread addressSize r.letters r.block :=
      congrArg Prod.snd (Except.ok.inj hself)
    obtain ⟨taken, stated, htaken, hdescribes, rfl⟩ := Augmentation.describes_of_walk hknown hwalk
    obtain rfl : front = taken := by
      rw [hrest] at htaken
      exact List.append_cancel_right (hblock.symm.trans htaken)
    rw [hdescribes.reads none other, hwalk]
    rfl

end BlockRecord

/-! ## Main statement -/

/-- **An augmentation block is bounded by its length.**
    - A record with a block that is read consists of the pieces of a `BlockRecord`: its instructions are what stands
      behind the block, whose bytes are as many as its length says, and its encoding is the last one that the known
      letters state, or absolute without one and in the debug flavour.
    - Whatever comes after the text, and whether it can be read or not, the text may be cut at the first unknown letter:
      the outcome is the same.
    - So it is when what the known letters leave of the block is replaced. -/
theorem Cie.block_bounded (flavour : Flavour) (given : UInt8) :
    (∀ offset imageFinish bs cie rest, Cie.read flavour given offset imageFinish bs = .ok (cie, rest) →
      cie.hasBlock = true →
      ∃ (r : BlockRecord) (numbers : CommonNumbers) (front unread : Bytes) (stated : List PointerEncoding),
        bs = r.bytes ∧ r.Spells flavour given numbers ∧ rest = r.instructions ∧
        cie.instructions = ⟨imageFinish - r.instructions.length, imageFinish⟩ ∧
        cie.augmentation = blockText r.letters r.tail ∧ r.block = front ++ unread ∧
        Augmentation.Describes numbers.addressSize r.letters front stated ∧
        cie.encoding = if flavour = .debugFrame then .absolute else stated.getLast?.getD .absolute) ∧
    (∀ letters tail, Cut letters tail → ∀ version behind offset imageFinish offset' imageFinish',
      Cie.outcome (Cie.read flavour given offset imageFinish (version :: (blockText letters tail ++ 0 :: behind))) =
        Cie.outcome (Cie.read flavour given offset' imageFinish' (version :: (blockText letters [] ++ 0 :: behind)))) ∧
    ∀ (r r' : BlockRecord) (numbers : CommonNumbers), r.Spells flavour given numbers →
      r'.Spells flavour given numbers → BlockRecord.SameButUnread numbers.addressSize r r' →
      ∀ offset imageFinish offset' imageFinish', Cie.outcome (Cie.read flavour given offset' imageFinish' r'.bytes) =
        Cie.outcome (Cie.read flavour given offset imageFinish r.bytes) := by
  refine ⟨?_, ?_, ?_⟩
  · intro offset imageFinish bs cie rest hread hblock
    obtain ⟨r, numbers, rfl, hspells, rfl⟩ := BlockRecord.exists_of_read hread hblock
    rw [hspells.read_bytes, hspells.cut.encoding_eq] at hread
    cases hwalk : Augmentation.walk numbers.addressSize none r.letters r.block with
    | error e =>
      rw [hwalk] at hread
      cases hread
    | ok p =>
      obtain ⟨found, unread⟩ := p
      rw [hwalk] at hread
      cases hread
      obtain ⟨front, stated, hfront, hdescribes, rfl⟩ := Augmentation.describes_of_walk hspells.cut.known hwalk
      refine ⟨r, numbers, front, unread, stated, rfl, hspells, rfl, rfl, rfl, hfront, hdescribes, ?_⟩
      rw [Option.or_none]
      rfl
  · intro letters tail hcut version behind offset imageFinish offset' imageFinish'
    rw [Cie.read_text _ _ _ _ _ hcut.unbroken_text hcut.isText,
      Cie.read_text _ _ _ _ _ hcut.withoutTail.unbroken_text hcut.withoutTail.isText]
    split
    · exact Cie.behindText_cut hcut flavour given offset imageFinish offset' imageFinish' version behind
    · rfl
  · intro r r' numbers hspells hspells' hsame offset imageFinish offset' imageFinish'
    rw [hspells.read_bytes, hspells'.read_bytes, hspells.cut.encoding_eq, hspells'.cut.encoding_eq,
      hsame.walk_eq hspells.cut.known]
    cases Augmentation.walk numbers.addressSize none r.letters r.block with
    | error e => rfl
    | ok p =>
      simp only [Except.map, Cie.outcome, BlockRecord.cieOf, hsame.version, hsame.instructions]

/-- A record with the text `zRXL` and a block of three bytes of which `R` takes one. -/
def hiddenLetters : BlockRecord :=
  ⟨1, [0x52], [0x58, 0x4c], [1, 0x78, 16], [3], [0x1b, 7, 7], [0x0c, 7, 8]⟩

/-- A record with the text `zR` and a block of four bytes, its length spelled in two. -/
def noHiddenLetters : BlockRecord :=
  ⟨1, [0x52], [], [1, 0x78, 16], [0x84, 0], [0x1b, 9, 9, 9], [0x0c, 7, 8]⟩

/-- Both records come to the same, and in the first one the argument of `R` is found and the instructions are the last
    three bytes. -/
theorem Cie.block_bounded_hidden :
    Cie.outcome (Cie.read .ehFrame 8 0 100 noHiddenLetters.bytes) =
        Cie.outcome (Cie.read .ehFrame 8 0 100 hiddenLetters.bytes) ∧
      ∃ cie, Cie.read .ehFrame 8 0 100 hiddenLetters.bytes = .ok (cie, [0x0c, 7, 8]) ∧ cie.encoding = ⟨0x1b⟩ ∧
        cie.instructions = ⟨97, 100⟩ := by
  have hcode : Field.Reads Leb128.unsigned [1] 1 := (Leb128.Unsigned.mk 1 0 (by decide) (by decide)).reads
  have hdata : Field.Reads Leb128.signed [0x78] (-8) := by
    have hbytes : (Leb128.Signed.mk (-8) 0 (by decide) (by decide)).bytes = [0x78] := by decide
    rw [← hbytes]
    exact Leb128.Signed.reads _
  have hcolumn : Field.Reads Leb128.unsigned [16] 16 := (Leb128.Unsigned.mk 16 0 (by decide) (by decide)).reads
  have hsize : Field.Reads (statedAddressSize .ehFrame 1 8) [] 8 := Field.Reads.pure 8
  have hnumbers : Field.Reads (Cie.numbers .ehFrame 1 8) [1, 0x78, 16] ⟨1, -8, 16, 8⟩ :=
    hcode.bind (hdata.bind (hcolumn.bind (hsize.bind (Field.Reads.pure _))))
  have hspells : hiddenLetters.Spells .ehFrame 8 ⟨1, -8, 16, 8⟩ := by
    refine ⟨.inl rfl, ⟨by simp [hiddenLetters, Augmentation.Known], by simp [hiddenLetters, Augmentation.Known],
      by simp [hiddenLetters], by decide⟩, hnumbers, 3, ?_, rfl⟩
    exact (Leb128.Unsigned.mk 3 0 (by decide) (by decide)).reads
  have hspells' : noHiddenLetters.Spells .ehFrame 8 ⟨1, -8, 16, 8⟩ := by
    refine ⟨.inl rfl, ⟨by simp [noHiddenLetters, Augmentation.Known], by simp [noHiddenLetters],
      by simp [noHiddenLetters], by decide⟩, hnumbers, 4, ?_, rfl⟩
    exact (Leb128.Unsigned.mk 4 1 (by decide) (by decide)).reads
  have hsame : BlockRecord.SameButUnread 8 hiddenLetters noHiddenLetters :=
    ⟨rfl, rfl, rfl, [0x1b], [9, 9, 9], rfl, rfl, .inr ⟨_, rfl⟩⟩
  have hbounded := Cie.block_bounded .ehFrame 8
  refine ⟨hbounded.2.2 _ _ _ hspells hspells' hsame 0 100 0 100, _, hspells.read_bytes 0 100, rfl, rfl⟩

end Cfi

end Unwinder
