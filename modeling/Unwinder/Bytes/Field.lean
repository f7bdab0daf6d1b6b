import Unwinder.Bytes.LittleEndian
import Unwinder.Error

/-!
# `Unwinder.Bytes.Field` — reading one field off the front of a byte string

A reader takes the bytes that are left of a record and gives a value with the bytes after it, or says why it
cannot. It never looks past the bytes it is given, so a field cannot be completed from the next record.

## Contents
- **Readers in sequence.** The lawful monad of readers, with `refuse`, `check` and `left`; `bind_eq_ok` says when
  two readers in sequence succeed.
- **Raw bytes.** `take` and the fixed-width little-endian words.
- **Addresses.** `address`, as wide as the record's address size says.
- **Text.** `text`, up to a zero byte.
- **`Consumes`.** What every reader keeps: the bytes left are a suffix of the bytes given.
-/

namespace Unwinder

/-- A byte string. -/
abbrev Bytes := List UInt8

/-- A reader of a value at the front of a byte string. -/
def Field (α : Type) : Type := Bytes → Except Error (α × Bytes)

namespace Field

/-! ## Readers in sequence -/

/-- Reads with `first`, then with the reader chosen by its value. -/
def andThen {α β : Type} (first : Field α) (next : α → Field β) : Field β := fun bs =>
  match first bs with
  | .ok (a, rest) => next a rest
  | .error e => .error e

instance : Monad Field where
  pure a := fun bs => .ok (a, bs)
  bind := andThen

@[simp] theorem pure_apply {α : Type} (a : α) (bs : Bytes) : (pure a : Field α) bs = .ok (a, bs) := rfl

theorem bind_of_ok {α β : Type} {first : Field α} {next : α → Field β} {bs rest : Bytes} {a : α}
    (h : first bs = .ok (a, rest)) : (first >>= next) bs = next a rest := by
  show andThen first next bs = next a rest
  rw [andThen, h]

theorem bind_of_error {α β : Type} {first : Field α} {next : α → Field β} {bs : Bytes} {e : Error}
    (h : first bs = .error e) : (first >>= next) bs = .error e := by
  show andThen first next bs = .error e
  rw [andThen, h]

/-- Two readers in sequence succeed when the first does and the second does on the bytes it leaves. -/
theorem bind_eq_ok {α β : Type} {first : Field α} {next : α → Field β} {bs rest : Bytes} {b : β} :
    (first >>= next) bs = .ok (b, rest) ↔
      ∃ a mid, first bs = .ok (a, mid) ∧ next a mid = .ok (b, rest) := by
  constructor
  · intro h
    cases hfirst : first bs with
    | error e =>
      rw [bind_of_error hfirst] at h
      cases h
    | ok pair =>
      obtain ⟨a, mid⟩ := pair
      rw [bind_of_ok hfirst] at h
      exact ⟨a, mid, rfl, h⟩
  · rintro ⟨a, mid, hfirst, hnext⟩
    rw [bind_of_ok hfirst, hnext]

theorem map_id_eq {α : Type} (field : Field α) : id <$> field = field := by
  funext bs
  show andThen field (fun a => pure (id a)) bs = field bs
  unfold andThen
  cases field bs with
  | error e => rfl
  | ok pair => rfl

theorem andThen_assoc {α β γ : Type} (field : Field α) (next : α → Field β) (after : β → Field γ) :
    field >>= next >>= after = field >>= fun a => next a >>= after := by
  funext bs
  show andThen (andThen field next) after bs = andThen field (fun a => andThen (next a) after) bs
  unfold andThen
  cases field bs with
  | error e => rfl
  | ok pair => rfl

instance : LawfulMonad Field := LawfulMonad.mk' Field map_id_eq (fun _ _ => rfl) andThen_assoc

/-- Refuses the input. -/
def refuse {α : Type} (e : Error) : Field α := fun _ => .error e

/-- Continues with the value of a check that reads nothing. -/
def check {α : Type} (result : Except Error α) : Field α := fun bs => result.map (·, bs)

/-- How many bytes are left. -/
def left : Field Nat := fun bs => .ok (bs.length, bs)

/-! ## Raw bytes -/

/-- The first `n` bytes. -/
def take (n : Nat) : Field Bytes := fun bs =>
  if n ≤ bs.length then .ok (bs.take n, bs.drop n) else .error (.malformed (.truncated n bs.length))

/-- The bytes put in front of others are read back, and the others are left. -/
theorem take_append (front rest : Bytes) : take front.length (front ++ rest) = .ok (front, rest) := by
  have h : front.length ≤ (front ++ rest).length := by
    rw [List.length_append]
    omega
  rw [take, if_pos h, List.take_left, List.drop_left]

/-- A number stored in `width` bytes. -/
def number (width : Nat) : Field Nat := do return LittleEndian.toNat (← take width)

/-- A number that fits the width is read back from its bytes. -/
theorem number_append {width n : Nat} (h : n < LittleEndian.limit width) (rest : Bytes) :
    number width (LittleEndian.ofNat width n ++ rest) = .ok (n, rest) := by
  have htake := take_append (LittleEndian.ofNat width n) rest
  rw [LittleEndian.length_ofNat] at htake
  rw [number, bind_of_ok htake, LittleEndian.toNat_ofNat, Nat.mod_eq_of_lt h, pure_apply]

def u8 : Field UInt8 := do return UInt8.ofNat (← number 1)

def u16 : Field UInt16 := do return UInt16.ofNat (← number 2)

def u32 : Field UInt32 := do return UInt32.ofNat (← number 4)

def u64 : Field UInt64 := do return UInt64.ofNat (← number 8)

/-! ## Addresses -/

/-- An address of one, two, four or eight bytes. -/
def address (size : UInt8) : Field UInt64 :=
  if size = 1 ∨ size = 2 ∨ size = 4 ∨ size = 8 then do return UInt64.ofNat (← number size.toNat)
  else refuse (.malformed (.addressSize size))

/-! ## Text -/

/-- The bytes before the first zero byte, and what follows that byte. -/
def terminated : Field Bytes := fun bs =>
  match bs.dropWhile (· ≠ 0) with
  | [] => .error (.malformed .augmentationOpen)
  | _ :: rest => .ok (bs.takeWhile (· ≠ 0), rest)

/-- The bytes before the first zero byte, which have to be UTF-8. -/
def text : Field Bytes := do
  let chars ← terminated
  match Utf8.fault? chars with
  | some fault => refuse (.malformed (.augmentationText fault))
  | none => return chars

/-! ## What a reader leaves -/

/-- A reader that leaves a suffix of what it is given. -/
def Consumes {α : Type} (field : Field α) : Prop :=
  ∀ bs a rest, field bs = .ok (a, rest) → rest <:+ bs

theorem pure_consumes {α : Type} (a : α) : Consumes (pure a : Field α) := by
  intro bs a' rest h
  cases h
  exact List.suffix_refl bs

theorem refuse_consumes {α : Type} (e : Error) : Consumes (refuse e : Field α) := by
  intro bs a rest h
  cases h

theorem check_consumes {α : Type} (result : Except Error α) : Consumes (check result) := by
  intro bs a rest h
  cases result with
  | error e => cases h
  | ok b =>
    cases h
    exact List.suffix_refl bs

theorem left_consumes : Consumes left := by
  intro bs a rest h
  cases h
  exact List.suffix_refl bs

theorem Consumes.bind {α β : Type} {first : Field α} {next : α → Field β} (hfirst : Consumes first)
    (hnext : ∀ a, Consumes (next a)) : Consumes (first >>= next) := by
  intro bs b rest h
  obtain ⟨a, mid, hmid, hrest⟩ := bind_eq_ok.mp h
  exact (hnext a mid b rest hrest).trans (hfirst bs a mid hmid)

theorem take_consumes (n : Nat) : Consumes (take n) := by
  intro bs a rest h
  unfold take at h
  split at h
  · cases h
    exact List.drop_suffix n bs
  · cases h

theorem number_consumes (width : Nat) : Consumes (number width) :=
  (take_consumes width).bind fun _ => pure_consumes _

theorem u8_consumes : Consumes u8 := (number_consumes 1).bind fun _ => pure_consumes _

theorem u16_consumes : Consumes u16 := (number_consumes 2).bind fun _ => pure_consumes _

theorem u32_consumes : Consumes u32 := (number_consumes 4).bind fun _ => pure_consumes _

theorem u64_consumes : Consumes u64 := (number_consumes 8).bind fun _ => pure_consumes _

theorem address_consumes (size : UInt8) : Consumes (address size) := by
  unfold address
  split
  · exact (number_consumes size.toNat).bind fun _ => pure_consumes _
  · exact refuse_consumes _

theorem terminated_consumes : Consumes terminated := by
  intro bs a rest h
  unfold terminated at h
  split at h
  · cases h
  · rename_i b tail hdrop
    cases h
    exact (List.suffix_cons b rest).trans (hdrop ▸ List.dropWhile_suffix _)

theorem text_consumes : Consumes text :=
  terminated_consumes.bind fun chars => by
    split
    · exact refuse_consumes _
    · exact pure_consumes _

end Field

end Unwinder
