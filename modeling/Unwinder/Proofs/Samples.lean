import Unwinder.Image.Layout
import Unwinder.Sample

/-!
# `Proofs.Samples` — where the fields of a record stand

The reader of a record takes one field after the other and never says where it is. Here the places are counted: every
field stands at an offset of its own, and the fields together take exactly the bytes that a record has to have. So a
record that is long enough is never cut short inside.

## Contents
- **Places.** `Field.ReadsAt` follows a reader from one offset to another; it composes along `>>=`.
- **Records.** `Sample.StandsIn`, the table of the fields, with `decode_of_length`.
- **Requests.** `request_eq_ok`, when a sample makes a request, and which.
-/

namespace Unwinder

/-- A number of so many bytes is below their limit. -/
theorem numberAt_lt {bs : Bytes} {offset width : Nat} (h : offset + width ≤ bs.length) :
    numberAt bs offset width < LittleEndian.limit width := by
  have hlength : ((bs.drop offset).take width).length = width := by
    rw [List.length_take, List.length_drop]
    omega
  have hlt := LittleEndian.toNat_lt ((bs.drop offset).take width)
  rwa [hlength] at hlt

namespace Field

/-! ## Places -/

variable {α β : Type} {bs : Bytes}

/-- **A field at its place**: read from the offset `start` on it gives `a`, and leaves what begins at `finish`. -/
def ReadsAt (bs : Bytes) (start : Nat) (field : Field α) (a : α) (finish : Nat) : Prop :=
  field (bs.drop start) = .ok (a, bs.drop finish)

theorem readsAt_pure (a : α) (start : Nat) : ReadsAt bs start (pure a) a start := rfl

/-- One field after another. -/
theorem ReadsAt.bind {first : Field α} {next : α → Field β} {a : α} {b : β} {start mid finish : Nat}
    (hfirst : ReadsAt bs start first a mid) (hnext : ReadsAt bs mid (next a) b finish) :
    ReadsAt bs start (first >>= next) b finish := by
  unfold ReadsAt at *
  rw [bind_of_ok hfirst, hnext]

/-- A computed value takes no bytes of its own. -/
theorem ReadsAt.map {field : Field α} {a : α} {start finish : Nat} (h : ReadsAt bs start field a finish)
    (f : α → β) : ReadsAt bs start (field >>= fun a => pure (f a)) (f a) finish :=
  h.bind (readsAt_pure (f a) finish)

theorem readsAt_take {start width : Nat} (h : start + width ≤ bs.length) :
    ReadsAt bs start (take width) ((bs.drop start).take width) (start + width) := by
  have hwidth : width ≤ (bs.drop start).length := by
    rw [List.length_drop]
    omega
  unfold ReadsAt take
  rw [if_pos hwidth, List.drop_drop]

theorem readsAt_number {start width : Nat} (h : start + width ≤ bs.length) :
    ReadsAt bs start (number width) (numberAt bs start width) (start + width) :=
  (readsAt_take h).map LittleEndian.toNat

theorem readsAt_u8 {start : Nat} (h : start + 1 ≤ bs.length) :
    ReadsAt bs start u8 (UInt8.ofNat (numberAt bs start 1)) (start + 1) := (readsAt_number h).map UInt8.ofNat

theorem readsAt_u16 {start : Nat} (h : start + 2 ≤ bs.length) :
    ReadsAt bs start u16 (UInt16.ofNat (numberAt bs start 2)) (start + 2) := (readsAt_number h).map UInt16.ofNat

theorem readsAt_u32 {start : Nat} (h : start + 4 ≤ bs.length) :
    ReadsAt bs start u32 (UInt32.ofNat (numberAt bs start 4)) (start + 4) := (readsAt_number h).map UInt32.ofNat

theorem readsAt_u64 {start : Nat} (h : start + 8 ≤ bs.length) :
    ReadsAt bs start u64 (UInt64.ofNat (numberAt bs start 8)) (start + 8) := (readsAt_number h).map UInt64.ofNat

/-- Fields of one width follow each other. -/
theorem readsAt_fields {field : Field α} (value : Nat → α) {start width : Nat} (n : Nat)
    (h : ∀ i < n, ReadsAt bs (start + width * i) field (value i) (start + width * i + width)) :
    ReadsAt bs start (Sample.fields field n) (Vector.ofFn fun i => value i.val) (start + width * n) := by
  induction n with
  | zero => rfl
  | succ n ih =>
      have hbefore := ih fun i hi => h i (Nat.lt_succ_of_lt hi)
      have hlast := (h n (Nat.lt_succ_self n)).map (Vector.ofFn fun i : Fin n => value i.val).push
      rw [Vector.ofFn_succ, Nat.mul_succ, ← Nat.add_assoc]
      exact hbefore.bind hlast

end Field

namespace Sample

/-! ## Records -/

/-- **The table of the fields**: each is the number at its place. Four bytes from the twelfth on belong to none. -/
structure StandsIn (bs : Bytes) (s : Sample) : Prop where
  pid : s.pid.toNat = numberAt bs 0 4
  tid : s.tid.toNat = numberAt bs 4 4
  tag : s.tag.toNat = numberAt bs 8 2
  version : s.version.toNat = numberAt bs 10 2
  time : s.time.toNat = numberAt bs 16 8
  sp : s.sp.toNat = numberAt bs 24 8
  pc : s.pc.toNat = numberAt bs 32 8
  slots : ∀ (i : Nat) (hi : i < slotCount), (s.slots[i]).toNat = numberAt bs (40 + 8 * i) 8
  cookie : s.cookie.toNat = numberAt bs 296 8
  command : ∀ (i : Nat) (hi : i < 16), (s.command[i]).toNat = numberAt bs (304 + i) 1

/-- The sample that stands in a byte string. -/
def ofRecord (bs : Bytes) : Sample where
  pid := UInt32.ofNat (numberAt bs 0 4)
  tid := UInt32.ofNat (numberAt bs 4 4)
  tag := UInt16.ofNat (numberAt bs 8 2)
  version := UInt16.ofNat (numberAt bs 10 2)
  time := UInt64.ofNat (numberAt bs 16 8)
  sp := UInt64.ofNat (numberAt bs 24 8)
  pc := UInt64.ofNat (numberAt bs 32 8)
  slots := Vector.ofFn fun i => UInt64.ofNat (numberAt bs (40 + 8 * i.val) 8)
  cookie := UInt64.ofNat (numberAt bs 296 8)
  command := Vector.ofFn fun i => UInt8.ofNat (numberAt bs (304 + i.val) 1)

variable {bs : Bytes}

theorem standsIn_ofRecord (h : size ≤ bs.length) : (ofRecord bs).StandsIn bs := by
  unfold size at h
  have hword : ∀ offset, offset + 8 ≤ bs.length → (UInt64.ofNat (numberAt bs offset 8)).toNat = numberAt bs offset 8 :=
    fun offset hfits => UInt64.toNat_ofNat_of_lt' (numberAt_lt hfits)
  constructor
  · exact UInt32.toNat_ofNat_of_lt' (numberAt_lt (by omega))
  · exact UInt32.toNat_ofNat_of_lt' (numberAt_lt (by omega))
  · exact UInt16.toNat_ofNat_of_lt' (numberAt_lt (by omega))
  · exact UInt16.toNat_ofNat_of_lt' (numberAt_lt (by omega))
  · exact hword 16 (by omega)
  · exact hword 24 (by omega)
  · exact hword 32 (by omega)
  · intro i hi
    have hi : i < 32 := hi
    simp only [ofRecord, Vector.getElem_ofFn]
    exact hword (40 + 8 * i) (by omega)
  · exact hword 296 (by omega)
  · intro i hi
    simp only [ofRecord, Vector.getElem_ofFn]
    exact UInt8.toNat_ofNat_of_lt' (numberAt_lt (by omega))

/-- **The fields fill a record**: read from its beginning they end with its last byte. -/
theorem readsAt_record (h : size ≤ bs.length) : Field.ReadsAt bs 0 record (ofRecord bs) size := by
  unfold size at h
  have hslots : Field.ReadsAt bs 40 (fields Field.u64 slotCount) (ofRecord bs).slots (40 + 8 * slotCount) := by
    refine Field.readsAt_fields (fun i => UInt64.ofNat (numberAt bs (40 + 8 * i) 8)) slotCount ?_
    intro i hi
    have hi : i < 32 := hi
    exact Field.readsAt_u64 (by omega)
  have hcommand : Field.ReadsAt bs 304 (fields Field.u8 16) (ofRecord bs).command (304 + 1 * 16) := by
    refine Field.readsAt_fields (fun i => UInt8.ofNat (numberAt bs (304 + i) 1)) 16 ?_
    intro i hi
    rw [Nat.one_mul]
    exact Field.readsAt_u8 (by omega)
  unfold record
  -- each field begins where the one before it ends
  refine (Field.readsAt_u32 (by omega)).bind ?_
  refine (Field.readsAt_u32 (by omega)).bind ?_
  refine (Field.readsAt_u16 (by omega)).bind ?_
  refine (Field.readsAt_u16 (by omega)).bind ?_
  refine (Field.readsAt_take (by omega)).bind ?_
  refine (Field.readsAt_u64 (by omega)).bind ?_
  refine (Field.readsAt_u64 (by omega)).bind ?_
  refine (Field.readsAt_u64 (by omega)).bind ?_
  refine hslots.bind ?_
  have hcookie : 296 + 8 ≤ bs.length := by omega
  refine (Field.readsAt_u64 hcookie).bind ?_
  exact hcommand.bind (Field.readsAt_pure _ _)

/-- **A record that is long enough is read**, and the sample stands in its bytes. -/
theorem decode_of_length (h : size ≤ bs.length) : decode bs = .ok (ofRecord bs) := by
  unfold decode
  rw [if_neg (Nat.not_lt_of_le h), ← List.drop_zero (l := bs)]
  exact congrArg (Except.map Prod.fst) (readsAt_record h)

/-! ## Requests -/

/-- The registers of a sample, by its architecture. -/
def registersBy (s : Sample) (a : Architecture) : RegisterSet :=
  { a.blank with sp := s.sp, pc := s.pc, slots := s.slots }

theorem registerSet_eq_ok {s : Sample} {regs : RegisterSet} :
    s.registerSet = .ok regs ↔
      s.version = registerFormat ∧ ∃ a, Architecture.ofTag s.tag = .ok a ∧ regs = s.registersBy a := by
  unfold registerSet
  cases htag : Architecture.ofTag s.tag with
  | error e => simp [bind, Except.bind]
  | ok a =>
      by_cases hversion : s.version = registerFormat
      · simp only [bind, Except.bind, hversion, true_and, Except.ok.injEq, exists_eq_left']
        constructor
        · intro h
          exact (Except.ok.inj h).symm
        · rintro rfl
          rfl
      · simp [bind, Except.bind, hversion, throw, throwThe, MonadExceptOf.throw]

/-- **When a sample makes a request**, and which: its ids are not too large, and its registers are of a known
    architecture and in the current format. -/
theorem request_eq_ok {s : Sample} {path : Path} {request : Request} :
    s.request path = .ok request ↔
      s.pid.toNat ≤ maxId ∧ s.tid.toNat ≤ maxId ∧ s.version = registerFormat ∧
        ∃ a, Architecture.ofTag s.tag = .ok a ∧ request = ⟨path, s.registersBy a, s.pid.toNat, s.tid.toNat⟩ := by
  unfold Sample.request
  by_cases hpid : maxId < s.pid.toNat
  · rw [if_pos hpid]
    constructor
    · intro h
      cases h
    · intro h
      exact absurd h.1 (Nat.not_le_of_lt hpid)
  rw [if_neg hpid]
  by_cases htid : maxId < s.tid.toNat
  · rw [if_pos htid]
    constructor
    · intro h
      cases h
    · intro h
      exact absurd h.2.1 (Nat.not_le_of_lt htid)
  rw [if_neg htid]
  constructor
  · intro h
    cases hregs : s.registerSet with
    | error e =>
        rw [hregs] at h
        cases h
    | ok regs =>
        rw [hregs] at h
        cases h
        obtain ⟨hversion, a, htag, rfl⟩ := registerSet_eq_ok.mp hregs
        exact ⟨Nat.le_of_not_lt hpid, Nat.le_of_not_lt htid, hversion, a, htag, rfl⟩
  · rintro ⟨-, -, hversion, a, htag, rfl⟩
    rw [registerSet_eq_ok.mpr ⟨hversion, a, htag, rfl⟩]
    rfl

end Sample

/-- The tags that the table knows. -/
theorem Architecture.ofTag_isOk {tag : UInt16} :
    (∃ a, ofTag tag = .ok a) ↔ tag.toNat = 1 ∨ tag.toNat = 2 ∨ tag.toNat = 3 := by
  have htoNat : ∀ known : UInt16, tag.toNat = known.toNat ↔ tag = known := fun known => UInt16.toNat_inj
  constructor
  · rintro ⟨a, htag⟩
    unfold ofTag at htag
    split at htag
    · exact .inl rfl
    · exact .inr (.inl rfl)
    · exact .inr (.inr rfl)
    · cases htag
  · rintro (hone | htwo | hthree)
    · rw [(htoNat 1).mp hone]
      exact ⟨x86_64, rfl⟩
    · rw [(htoNat 2).mp htwo]
      exact ⟨arm64, rfl⟩
    · rw [(htoNat 3).mp hthree]
      exact ⟨mips32, rfl⟩

end Unwinder
