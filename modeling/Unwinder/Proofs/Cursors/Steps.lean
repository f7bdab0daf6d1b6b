import Unwinder.Proofs.FrameRecords

/-!
# `Proofs.Cursors.Steps` — readers that take the steps of a machine

A reader is given the bytes it may look at. A machine has all the bytes of a section instead, and two places among them: where
the next byte stands and where the record ends. Every field that is read moves the first place on, by additions and
subtractions of machine words and by cutting parts out of what is left. This module runs readers in that way. A step that has
no result (a word that overflows, a number below zero, a part that reaches too far) ends the run without an outcome, so that a
reader which always has one never takes such a step. The moves are kept, so that it can be told afterwards which bytes were
read.

## Contents
- **Steps.** `minus?` and `shifted?`, next to `inWord?`.
- **Stretches.** `Extent.PartOf` and `Extent.EndOf`; what is cut out of a stretch that has been cut out.
- **Cursors.** `Move`, with `Move.Within`; `Cursor`, and `Stepped`, the computations that move one.
- **Fields.** `Stepped.take`, the words and addresses, and text.
- **Keeping to a reader.** `Stepped.Keeps`: from wherever in a stretch, steps have the outcome of a reader of bytes, and make
  no move out of the stretch. It composes along `>>=`, and the steps of every field keep to its reader.
-/

namespace Unwinder.Cfi

open LittleEndian (inWord? inWord?_of_lt wordLimit)

/-! ## Steps -/

/-- A difference that is not below zero. -/
def minus? (a b : Nat) : Option Nat := if b ≤ a then some (a - b) else none

/-- A word shifted up by less than its width. -/
def shifted? (n : UInt64) (shift : Nat) : Option UInt64 :=
  if shift < 64 then some (n <<< UInt64.ofNat shift) else none

theorem minus?_of_le {a b : Nat} (h : b ≤ a) : minus? a b = some (a - b) := if_pos h

theorem shifted?_of_lt {n : UInt64} {shift : Nat} (h : shift < 64) :
    shifted? n shift = some (n <<< UInt64.ofNat shift) := if_pos h

/-! ## Stretches -/

namespace Extent

/-- A stretch that lies in another one. -/
structure PartOf (e whole : Extent) : Prop where
  starts : whole.start ≤ e.start
  finishes : e.finish ≤ whole.finish

/-- A stretch that another one ends with. -/
structure EndOf (e whole : Extent) : Prop where
  starts : whole.start ≤ e.start
  ordered : e.start ≤ e.finish
  finish : e.finish = whole.finish

theorem PartOf.refl (e : Extent) : e.PartOf e := ⟨Nat.le_refl _, Nat.le_refl _⟩

theorem PartOf.trans {e e' e'' : Extent} (h : e.PartOf e') (h' : e'.PartOf e'') : e.PartOf e'' :=
  ⟨Nat.le_trans h'.starts h.starts, Nat.le_trans h.finishes h'.finishes⟩

/-- A stretch that can be cut out, with the bytes there. -/
theorem slice?_eq_some_iff {e : Extent} {bs cs : Bytes} :
    e.slice? bs = some cs ↔ (e.start ≤ e.finish ∧ e.finish ≤ bs.length) ∧ cs = (bs.drop e.start).take (e.finish - e.start) := by
  unfold slice?
  split
  · rename_i hinside
    simp [hinside, eq_comm]
  · rename_i houtside
    simp [houtside]

/-- A part of a stretch is cut out of the bytes there. -/
theorem slice?_part {e : Extent} {bs cs : Bytes} (h : e.slice? bs = some cs) {i j : Nat} (hij : i ≤ j)
    (hj : j ≤ cs.length) : (Extent.mk (e.start + i) (e.start + j)).slice? bs = some ((cs.drop i).take (j - i)) := by
  obtain ⟨⟨hordered, hinside⟩, rfl⟩ := slice?_eq_some_iff.mp h
  rw [List.length_take, List.length_drop] at hj
  refine slice?_eq_some_iff.mpr ⟨⟨by show e.start + i ≤ e.start + j; omega, by show e.start + j ≤ bs.length; omega⟩, ?_⟩
  rw [List.drop_take, List.take_take, List.drop_drop, Nat.add_sub_add_left, Nat.min_eq_left (by omega)]

theorem length_slice? {e : Extent} {bs cs : Bytes} (h : e.slice? bs = some cs) :
    e.start + cs.length = e.finish ∧ e.finish ≤ bs.length := by
  obtain ⟨⟨hordered, hinside⟩, rfl⟩ := slice?_eq_some_iff.mp h
  rw [List.length_take, List.length_drop]
  omega

end Extent

/-! ## Cursors -/

/-- A move over a field of a record, or of a block in it: what was left before the field, and what is left after it. -/
structure Move where
  /-- The record or the block. -/
  scope : Extent
  before : Extent
  after : Extent
  deriving DecidableEq

/-- **A move within a record**: what is left after it is the end of what was left before it, and that is the end of the record
    or of a block that lies in the record. So the field, which is the front of what was left, does. -/
structure Move.Within (m : Move) (body : Extent) : Prop where
  scope : m.scope.PartOf body
  before : m.before.EndOf m.scope
  after : m.after.EndOf m.before

/-- A place in a record or a block, with the moves that led there. -/
structure Cursor where
  scope : Extent
  /-- From the next byte on. -/
  left : Extent
  moves : List Move
  deriving DecidableEq

/-- **A computation in steps**, which moves a cursor. One of its steps may have no result; then it has no outcome. -/
def Stepped (α : Type) : Type := Cursor → Option (Except Error α × Cursor)

namespace Stepped

/-- Runs `first`, then what its value chooses. -/
def andThen {α β : Type} (first : Stepped α) (next : α → Stepped β) : Stepped β := fun c =>
  match first c with
  | some (.ok a, c') => next a c'
  | some (.error e, c') => some (.error e, c')
  | none => none

instance : Monad Stepped where
  pure a := fun c => some (.ok a, c)
  bind := andThen

section Sequences

variable {α β : Type} {first : Stepped α} {next : α → Stepped β} {c c' : Cursor}

@[simp] theorem pure_apply (a : α) (c : Cursor) : (pure a : Stepped α) c = some (.ok a, c) := rfl

theorem bind_of_ok {a : α} (h : first c = some (.ok a, c')) : (first >>= next) c = next a c' := by
  show andThen first next c = next a c'
  rw [andThen, h]

theorem bind_of_error {e : Error} (h : first c = some (.error e, c')) : (first >>= next) c = some (.error e, c') := by
  show andThen first next c = some (.error e, c')
  rw [andThen, h]

end Sequences

/-- Refuses the input. -/
def refuse {α : Type} (e : Error) : Stepped α := fun c => some (.error e, c)

/-- Continues with the value of a check that reads nothing. -/
def check {α : Type} (result : Except Error α) : Stepped α := fun c => some (result, c)

/-- A single step. -/
def step {α : Type} (result : Option α) : Stepped α := fun c => result.map fun a => (.ok a, c)

/-- A step that has a result goes on with it. -/
theorem step_some {α β : Type} {result : Option α} {a : α} (h : result = some a) (next : α → Stepped β) :
    step result >>= next = next a := by
  subst h
  rfl

/-- How many bytes are left. -/
def left : Stepped Nat := fun c => (minus? c.left.finish c.left.start).map fun count => (.ok count, c)

/-- Where the next byte stands, of a record that ends at `finish`: the bytes left are counted back from there. -/
def place (finish : Nat) : Stepped Nat := do
  let count ← left
  step (minus? finish count)

/-- The first bytes of what is left. -/
def front (n : Nat) : Stepped Extent := fun c => do
  let finish ← inWord? (c.left.start + n)
  if finish ≤ c.left.finish then some (.ok ⟨c.left.start, finish⟩, c) else none

/-- Moves over a part of what is left. -/
def moveTo (finish : Nat) : Stepped Unit := fun c =>
  if finish ≤ c.left.finish then
    let left : Extent := ⟨finish, c.left.finish⟩
    some (.ok (), ⟨c.scope, left, c.moves ++ [⟨c.scope, c.left, left⟩]⟩)
  else none

/-- Runs a computation on a block by itself. -/
def on {α : Type} (part : Extent) (inner : Stepped α) : Stepped α := fun c =>
  (inner ⟨part, part, c.moves⟩).map fun (result, c') => (result, ⟨c.scope, c.left, c'.moves⟩)

/-! ## Fields -/

/-- Takes bytes off the front of what is left, when there are so many. -/
def split (n : Nat) : Stepped Extent := do
  let count ← left
  if n ≤ count then do
    let part ← front n
    moveTo part.finish
    return part
  else refuse (.malformed (.truncated n count))

section Fields

variable (data : Bytes)

/-- The bytes of a part of the data. -/
def bytesOf (part : Extent) : Stepped Bytes := step (part.slice? data)

/-- The first `n` bytes. -/
def take (n : Nat) : Stepped Bytes := do bytesOf data (← split n)

/-- A number stored in `width` bytes. -/
def number (width : Nat) : Stepped Nat := do return LittleEndian.toNat (← take data width)

def u8 : Stepped UInt8 := do return UInt8.ofNat (← number data 1)

def u32 : Stepped UInt32 := do return UInt32.ofNat (← number data 4)

def u64 : Stepped UInt64 := do return UInt64.ofNat (← number data 8)

/-- An address of one, two, four or eight bytes. -/
def address (size : UInt8) : Stepped UInt64 :=
  if size = 1 ∨ size = 2 ∨ size = 4 ∨ size = 8 then do return UInt64.ofNat (← number data size.toNat)
  else refuse (.malformed (.addressSize size))

/-- The bytes before the first zero byte, which have to be UTF-8. The zero byte is looked for in all that is left. -/
def text : Stepped Bytes := do
  let all ← bytesOf data (← front (← left))
  match all.findIdx? (· = 0) with
  | none => refuse (.malformed .augmentationOpen)
  | some length => do
      let chars ← bytesOf data (← front length)
      match Utf8.fault? chars with
      | some fault => refuse (.malformed (.augmentationText fault))
      | none => do
          let behind ← front (← step (inWord? (length + 1)))
          moveTo behind.finish
          return chars

end Fields

end Stepped

/-! ## Keeping to a reader -/

namespace Cursor

/-- **A cursor in a stretch**: it goes to the end of the stretch, over the bytes given. -/
structure At (data : Bytes) (body : Extent) (c : Cursor) (bs : Bytes) : Prop where
  scope : c.scope = body
  inside : c.left.EndOf body
  shows : c.left.slice? data = some bs

/-- A cursor at the beginning of a stretch. -/
theorem At.start {data bs : Bytes} {body : Extent} (h : body.slice? data = some bs) (moves : List Move) :
    At data body ⟨body, body, moves⟩ bs :=
  ⟨rfl, ⟨Nat.le_refl _, (Extent.slice?_eq_some_iff.mp h).1.1, rfl⟩, h⟩

/-- A cursor that has been moved within a stretch. -/
def Reaches (body : Extent) (c c' : Cursor) : Prop := ∃ more, c'.moves = c.moves ++ more ∧ ∀ m ∈ more, m.Within body

theorem Reaches.refl (body : Extent) (c : Cursor) : Reaches body c c :=
  ⟨[], (List.append_nil _).symm, List.forall_mem_nil _⟩

theorem Reaches.trans {body : Extent} {c c' c'' : Cursor} (h : Reaches body c c') (h' : Reaches body c' c'') :
    Reaches body c c'' := by
  obtain ⟨more, hmoves, hwithin⟩ := h
  obtain ⟨more', hmoves', hwithin'⟩ := h'
  refine ⟨more ++ more', ?_, List.forall_mem_append.mpr ⟨hwithin, hwithin'⟩⟩
  rw [hmoves', hmoves, List.append_assoc]

end Cursor

namespace Stepped

variable {α β γ δ : Type}

/-- **Steps that keep to a reader.** Wherever in a stretch of the data they begin, they have an outcome, and make no move
    out of the stretch. The outcome is that of the reader on the bytes that are left there: it is refused with the same
    error, or the values correspond and the same bytes are left. -/
def Keeps (data : Bytes) (body : Extent) (R : α → β → Prop) (steps : Stepped α) (field : Field β) : Prop :=
  ∀ c bs, c.At data body bs → ∃ c', c.Reaches body c' ∧
    match field bs with
    | .ok (b, rest) => ∃ a, steps c = some (.ok a, c') ∧ R a b ∧ c'.At data body rest
    | .error e => steps c = some (.error e, c')

section Keeps

variable {data : Bytes} {body : Extent} {R : α → β → Prop} {S : γ → δ → Prop}

theorem Keeps.pure {a : α} {b : β} (h : R a b) : Keeps data body R (Pure.pure a) (Pure.pure b) :=
  fun c _ hat => ⟨c, .refl body c, a, rfl, h, hat⟩

theorem Keeps.refuse (e : Error) : Keeps data body R (Stepped.refuse e) (Field.refuse e) := fun c _ _ => ⟨c, .refl body c, rfl⟩

theorem Keeps.check (result : Except Error α) : Keeps data body Eq (Stepped.check result) (Field.check result) := by
  intro c bs hat
  refine ⟨c, .refl body c, ?_⟩
  cases result with
  | ok a => exact ⟨a, rfl, rfl, hat⟩
  | error e => rfl

/-- **Steps in sequence keep to readers in sequence.** -/
theorem Keeps.bind {first : Stepped α} {next : α → Stepped γ} {field : Field β} {after : β → Field δ}
    (hfirst : Keeps data body R first field) (hnext : ∀ a b, R a b → Keeps data body S (next a) (after b)) :
    Keeps data body S (first >>= next) (field >>= after) := by
  intro c bs hat
  obtain ⟨c', hreaches, houtcome⟩ := hfirst c bs hat
  cases hfield : field bs with
  | error e =>
      simp only [hfield] at houtcome
      rw [Field.bind_of_error hfield]
      exact ⟨c', hreaches, bind_of_error houtcome⟩
  | ok pair =>
      obtain ⟨b, rest⟩ := pair
      simp only [hfield] at houtcome
      obtain ⟨a, hsteps, hR, hat'⟩ := houtcome
      obtain ⟨c'', hreaches', houtcome'⟩ := hnext a b hR c' rest hat'
      rw [Field.bind_of_ok hfield, bind_of_ok hsteps]
      exact ⟨c'', hreaches.trans hreaches', houtcome'⟩

/-- The same with equal values in between. -/
theorem Keeps.andThen {first : Stepped α} {next : α → Stepped γ} {field : Field α} {after : α → Field δ}
    (hfirst : Keeps data body Eq first field) (hnext : ∀ a, Keeps data body S (next a) (after a)) :
    Keeps data body S (first >>= next) (field >>= after) := hfirst.bind fun a _ h => h ▸ hnext a

/-- A computed value takes no steps. -/
theorem Keeps.map {steps : Stepped α} {field : Field α} (h : Keeps data body Eq steps field) (f : α → γ) :
    Keeps data body Eq (steps >>= fun a => Pure.pure (f a)) (field >>= fun a => Pure.pure (f a)) :=
  h.andThen fun _ => .pure rfl

/-- A reader may compute a value for which there are no more steps to take. -/
theorem Keeps.compute {T : α → δ → Prop} {steps : Stepped α} {field : Field β} (h : Keeps data body R steps field)
    {f : β → δ} (hf : ∀ a b, R a b → T a (f b)) :
    Keeps data body T steps (field >>= fun b => Pure.pure (f b)) := by
  intro c bs hat
  obtain ⟨c', hreaches, houtcome⟩ := h c bs hat
  refine ⟨c', hreaches, ?_⟩
  cases hfield : field bs with
  | error e =>
      simp only [hfield] at houtcome
      rw [Field.bind_of_error hfield]
      exact houtcome
  | ok pair =>
      simp only [hfield] at houtcome
      obtain ⟨a, hsteps, hR, hat'⟩ := houtcome
      rw [Field.bind_of_ok hfield]
      exact ⟨a, hsteps, hf a pair.1 hR, hat'⟩

/-- A step that has a result. -/
theorem Keeps.step {result : Option γ} {a : γ} (h : result = some a) {next : γ → Stepped α} {field : Field β}
    (hnext : Keeps data body R (next a) field) : Keeps data body R (Stepped.step result >>= next) field := by
  rw [step_some h]
  exact hnext

end Keeps

/-! ## The steps of fields -/

section Primitives

variable {data : Bytes} {body : Extent} {c : Cursor} {bs : Bytes}

theorem left_at (h : c.At data body bs) : left c = some (.ok bs.length, c) := by
  obtain ⟨hlength, -⟩ := Extent.length_slice? h.shows
  rw [left, minus?_of_le (by omega), ← hlength, Nat.add_sub_cancel_left]
  rfl

/-- **The place of the next byte** is not below zero, for an end that has as much before it as the stretch. -/
theorem keeps_place {finish : Nat} (h : body.finish ≤ finish + body.start) :
    Keeps data body (fun here count => here = finish - count) (place finish) Field.left := by
  intro c bs hat
  obtain ⟨hlength, -⟩ := Extent.length_slice? hat.shows
  obtain ⟨hstarts, -, hfinishes⟩ := hat.inside
  refine ⟨c, .refl body c, finish - bs.length, ?_, rfl, hat⟩
  rw [place, bind_of_ok (left_at hat), Stepped.step, minus?_of_le (by omega)]
  rfl

/-- What is left is counted back from its own end, and comes to the front of it. -/
theorem keeps_left_place {R : α → β → Prop} {next : Nat → Stepped α} {field : Field β}
    (hnext : ∀ here, Keeps data body R (next here) field) :
    Keeps data body R (left >>= fun count => place count >>= next) field := by
  intro c bs hat
  have hplace : place bs.length c = some (.ok 0, c) := by
    rw [place, bind_of_ok (left_at hat), Stepped.step, minus?_of_le (Nat.le_refl _), Nat.sub_self]
    rfl
  rw [bind_of_ok (left_at hat), bind_of_ok hplace]
  exact hnext 0 c bs hat

variable (hmemory : data.length < wordLimit)
include hmemory

/-- The front of what is left can be cut out. -/
theorem front_at (h : c.At data body bs) {n : Nat} (hn : n ≤ bs.length) :
    front n c = some (.ok ⟨c.left.start, c.left.start + n⟩, c) := by
  obtain ⟨hlength, hinside⟩ := Extent.length_slice? h.shows
  have hword : inWord? (c.left.start + n) = some (c.left.start + n) := inWord?_of_lt (by omega)
  have hfits : c.left.start + n ≤ c.left.finish := by omega
  simp only [front, hword, Option.bind_eq_bind, Option.bind_some, if_pos hfits]

omit hmemory in
/-- **A move over the front of what is left** is one within the stretch, and leaves the rest. -/
theorem moveTo_at (h : c.At data body bs) {n : Nat} (hn : n ≤ bs.length) :
    ∃ c', moveTo (c.left.start + n) c = some (.ok (), c') ∧ c.Reaches body c' ∧ c'.At data body (bs.drop n) := by
  obtain ⟨hlength, hinside⟩ := Extent.length_slice? h.shows
  obtain ⟨hstarts, -, hfinishes⟩ := h.inside
  have hfits : c.left.start + n ≤ c.left.finish := by omega
  have hafter : (Extent.mk (c.left.start + n) c.left.finish).EndOf c.left := ⟨Nat.le_add_right _ _, hfits, rfl⟩
  refine ⟨_, if_pos hfits, ⟨[⟨c.scope, c.left, ⟨c.left.start + n, c.left.finish⟩⟩], rfl, ?_⟩, h.scope, ?_, ?_⟩
  · exact List.forall_mem_singleton.mpr ⟨h.scope ▸ .refl _, h.scope ▸ h.inside, hafter⟩
  · exact ⟨Nat.le_trans hstarts hafter.starts, hafter.ordered, hfinishes⟩
  · have hpart := Extent.slice?_part h.shows hn (Nat.le_refl _)
    rw [hlength] at hpart
    show (Extent.mk (c.left.start + n) c.left.finish).slice? data = _
    rw [hpart, ← List.length_drop, List.take_length]

/-- **A part of a stretch** as the place of bytes. -/
structure PlaceOf (data : Bytes) (body : Extent) (part : Extent) (bs : Bytes) : Prop where
  inside : part.PartOf body
  shows : part.slice? data = some bs

/-- **Bytes are taken off the front** where a reader takes them. -/
theorem keeps_split (n : Nat) : Keeps data body (PlaceOf data body) (split n) (Field.take n) := by
  intro c bs hat
  obtain ⟨hlength, hinside⟩ := Extent.length_slice? hat.shows
  obtain ⟨hstarts, -, hfinishes⟩ := hat.inside
  rw [split, bind_of_ok (left_at hat), Field.take]
  by_cases hn : n ≤ bs.length
  · obtain ⟨c', hmove, hreaches, hat'⟩ := moveTo_at hat hn
    rw [if_pos hn, if_pos hn, bind_of_ok (front_at hmemory hat hn), bind_of_ok hmove]
    refine ⟨c', hreaches, _, rfl, ⟨⟨hstarts, ?_⟩, Extent.slice?_part hat.shows (Nat.zero_le n) hn⟩, hat'⟩
    show c.left.start + n ≤ body.finish
    omega
  · rw [if_neg hn, if_neg hn]
    exact ⟨c, .refl body c, rfl⟩

omit hmemory in
/-- The bytes of a part that can be cut out. -/
theorem bytesOf_at {part : Extent} (h : part.slice? data = some bs) (c : Cursor) :
    bytesOf data part c = some (.ok bs, c) := by
  rw [bytesOf, Stepped.step, h]
  rfl

theorem keeps_take (n : Nat) : Keeps data body Eq (take data n) (Field.take n) := by
  have h : Keeps data body Eq (take data n) (Field.take n >>= Pure.pure) :=
    (keeps_split hmemory n).bind fun part bs hplace c _ hat => ⟨c, .refl body c, bs, bytesOf_at hplace.shows c, rfl, hat⟩
  rwa [bind_pure] at h

theorem keeps_number (width : Nat) : Keeps data body Eq (number data width) (Field.number width) :=
  (keeps_take hmemory width).map _

theorem keeps_u8 : Keeps data body Eq (u8 data) Field.u8 := (keeps_number hmemory 1).map _

theorem keeps_u32 : Keeps data body Eq (u32 data) Field.u32 := (keeps_number hmemory 4).map _

theorem keeps_u64 : Keeps data body Eq (u64 data) Field.u64 := (keeps_number hmemory 8).map _

theorem keeps_address (size : UInt8) : Keeps data body Eq (address data size) (Field.address size) := by
  unfold address Field.address
  split
  · exact (keeps_number hmemory size.toNat).map _
  · exact .refuse _

omit hmemory in
/-- A text ends before the first zero byte. -/
theorem terminated_eq (bs : Bytes) :
    Field.terminated bs = match bs.findIdx? (· = 0) with
      | none => .error (.malformed .augmentationOpen)
      | some length => .ok (bs.take length, bs.drop (length + 1)) := by
  induction bs with
  | nil => rfl
  | cons b bs ih =>
      by_cases hzero : b = 0
      · subst hzero
        rfl
      · have hcons : Field.terminated (b :: bs) = (Field.terminated bs).map fun p => (b :: p.1, p.2) := by
          unfold Field.terminated
          rw [List.dropWhile_cons_of_pos (by simpa using hzero), List.takeWhile_cons_of_pos (by simpa using hzero)]
          cases bs.dropWhile (· ≠ 0) <;> rfl
        rw [hcons, ih, List.findIdx?_cons, if_neg (by simpa using hzero)]
        cases bs.findIdx? (· = 0) <;> rfl

/-- **A text** is looked for in no more than what is left. -/
theorem keeps_text : Keeps data body Eq (text data) Field.text := by
  intro c bs hat
  have hall : (Extent.mk c.left.start (c.left.start + bs.length)).slice? data = some bs := by
    rw [(Extent.length_slice? hat.shows).1]
    exact hat.shows
  rw [text, bind_of_ok (left_at hat), bind_of_ok (front_at hmemory hat (Nat.le_refl _)), bind_of_ok (bytesOf_at hall c)]
  have hterminated := terminated_eq bs
  cases hfind : bs.findIdx? (· = 0) with
  | none =>
      simp only [hfind] at hterminated
      rw [Field.text, Field.bind_of_error hterminated]
      exact ⟨c, .refl body c, rfl⟩
  | some length =>
      simp only [hfind] at hterminated
      obtain ⟨hlength, -⟩ := List.findIdx?_eq_some_iff_getElem.mp hfind
      have hchars : (Extent.mk c.left.start (c.left.start + length)).slice? data = some (bs.take length) :=
        Extent.slice?_part hat.shows (Nat.zero_le length) (Nat.le_of_lt hlength)
      rw [Field.text, Field.bind_of_ok hterminated]
      simp only []
      rw [bind_of_ok (front_at hmemory hat (Nat.le_of_lt hlength)), bind_of_ok (bytesOf_at hchars c)]
      cases hfault : Utf8.fault? (bs.take length) with
      | some fault => exact ⟨c, .refl body c, rfl⟩
      | none =>
          obtain ⟨hleft, hinside⟩ := Extent.length_slice? hat.shows
          obtain ⟨c', hmove, hreaches, hat'⟩ := moveTo_at hat hlength
          refine ⟨c', hreaches, bs.take length, ?_, rfl, hat'⟩
          have hword : inWord? (length + 1) = some (length + 1) := inWord?_of_lt (by omega)
          simp only [step_some hword]
          rw [bind_of_ok (front_at hmemory hat hlength), bind_of_ok hmove, pure_apply]

omit hmemory in
/-- **What is read of a part** of what has been passed is read there, and the cursor stays. -/
theorem keeps_on {α β : Type} {R : α → β → Prop} {part : Extent} {inner : Stepped α} {field : Field β}
    (hplace : PlaceOf data body part bs) (hinner : Keeps data part R inner field) :
    Keeps data body R (on part inner) (Field.check ((field bs).map (·.1))) := by
  intro c cs hat
  obtain ⟨c', ⟨more, hmoves, hwithin⟩, houtcome⟩ := hinner ⟨part, part, c.moves⟩ bs (.start hplace.shows c.moves)
  have hreaches : c.Reaches body ⟨c.scope, c.left, c'.moves⟩ := by
    refine ⟨more, hmoves, fun m hm => ?_⟩
    have hin := hwithin m hm
    exact ⟨hin.scope.trans hplace.inside, hin.before, hin.after⟩
  refine ⟨_, hreaches, ?_⟩
  cases hfield : field bs with
  | error e =>
      simp only [hfield] at houtcome
      show on part inner c = _
      rw [on, houtcome]
      rfl
  | ok pair =>
      obtain ⟨b, rest⟩ := pair
      simp only [hfield] at houtcome
      obtain ⟨a, hsteps, hR, -⟩ := houtcome
      refine ⟨a, ?_, hR, ⟨hat.scope, hat.inside, hat.shows⟩⟩
      rw [on, hsteps]
      rfl

end Primitives

end Stepped

end Unwinder.Cfi
