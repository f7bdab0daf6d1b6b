import Mathlib.Data.List.Forall2
import Unwinder.Proofs.FrameRoundTrip
import Unwinder.Proofs.Programs.Items

/-!
# `Proofs.Programs.Pieces` — each instruction has bytes of its own

A program that is asked for one item at a time takes some bytes at each request, and what it answers depends on those bytes
alone. This module says which bytes they are: they make up the program from its start on, piece by piece, up to the end or to
what cannot be read. So the requests come to an end, and a program can be cut between any two instructions.

## Contents
- **Pieces.** `IsPiece`, the bytes of one instruction, whatever follows.
- **Runs.** `Pieces`, and `answer_pieces`: pieces in front of any bytes answer the first requests, and those bytes the others.
- **Ranges.** `InRow`, ranges that lie one behind the other, and `ranges`, those of pieces.
- **Main statement.** `requests_divide_bytes`.
-/

namespace Unwinder.Cfi.Program

variable {addressSize : UInt8}

/-! ## Pieces -/

/-- **The bytes of one instruction**: a request takes them and no others, whatever stands behind them. -/
structure IsPiece (addressSize : UInt8) (piece : Bytes) (i : Instruction) : Prop where
  nonempty : piece ≠ []
  taken : ∀ more, next addressSize (piece ++ more) = (some (.ok i), more)

/-- The first instruction of a program has a piece. -/
theorem exists_piece {bs : Bytes} {i : Instruction} {is : List Instruction} {fault : Option Error}
    (h : decode addressSize bs = ⟨i :: is, fault⟩) :
    ∃ piece rest, bs = piece ++ rest ∧ IsPiece addressSize piece i ∧ decode addressSize rest = ⟨is, fault⟩ := by
  obtain ⟨opcode, front, rest, hbs, hreads, hrest⟩ := decode_eq_cons h
  refine ⟨opcode :: front, rest, hbs, ⟨List.cons_ne_nil _ _, ?_⟩, hrest⟩
  intro more
  rw [List.cons_append, next, hreads more]

/-- **A piece alone** answers one request. -/
theorem IsPiece.alone {piece : Bytes} {i : Instruction} (h : IsPiece addressSize piece i) (n : Nat) :
    answer addressSize n piece = [Except.ok i][n]? := by
  have hnext := h.taken []
  rw [List.append_nil] at hnext
  cases n with
  | zero => rw [answer, hnext]; rfl
  | succ n => rw [answer, hnext, answer_eq, decode_nil]; rfl

/-! ## Runs -/

/-- Byte strings that are the pieces of instructions, one for each. -/
def Pieces (addressSize : UInt8) (pieces : List Bytes) (is : List Instruction) : Prop :=
  List.Forall₂ (IsPiece addressSize) pieces is

/-- **A program consists of the pieces of its instructions**, and of what cannot be read. -/
theorem exists_pieces (addressSize : UInt8) (bs : Bytes) :
    ∃ pieces rest, bs = pieces.flatten ++ rest ∧ Pieces addressSize pieces (decode addressSize bs).instructions ∧
      ((decode addressSize bs).fault = none ↔ rest = []) := by
  obtain ⟨is, fault, hdecode⟩ : ∃ is fault, decode addressSize bs = ⟨is, fault⟩ := ⟨_, _, rfl⟩
  rw [hdecode]
  -- along the instructions, each of which takes its piece off the bytes
  induction is generalizing bs with
  | nil =>
      refine ⟨[], bs, rfl, .nil, ?_⟩
      cases bs with
      | nil =>
          rw [decode_nil, mk.injEq] at hdecode
          exact ⟨fun _ => rfl, fun _ => hdecode.2.symm⟩
      | cons opcode bs =>
          cases hread : Instruction.afterOpcode addressSize opcode bs with
          | error e =>
              rw [decode_cons_error hread, mk.injEq] at hdecode
              rw [← hdecode.2]
              exact ⟨(fun hnone => nomatch hnone), (fun hnil => nomatch hnil)⟩
          | ok pair =>
              rw [decode_cons_ok hread, cons, mk.injEq] at hdecode
              exact absurd hdecode.1 (List.cons_ne_nil _ _)
  | cons i is ih =>
      obtain ⟨piece, behind, rfl, hpiece, hbehind⟩ := exists_piece hdecode
      obtain ⟨pieces, rest, rfl, hpieces, hfault⟩ := ih behind hbehind
      exact ⟨piece :: pieces, rest, by rw [List.flatten_cons, List.append_assoc], .cons hpiece hpieces, hfault⟩

section Runs

variable {pieces : List Bytes} {is : List Instruction}

/-- **Pieces answer the first requests**, whatever bytes are behind them; these answer the others. -/
theorem answer_pieces (h : Pieces addressSize pieces is) (more : Bytes) (n : Nat) :
    answer addressSize n (pieces.flatten ++ more) =
      if n < is.length then is[n]?.map .ok else answer addressSize (n - is.length) more := by
  induction h generalizing n with
  | nil => rfl
  | @cons piece i pieces is hpiece _ ih =>
      have hnext := hpiece.taken (pieces.flatten ++ more)
      rw [List.flatten_cons, List.append_assoc]
      cases n with
      | zero => simp [answer, hnext]
      | succ n => simp [answer, hnext, ih]

/-- Every piece has a byte at least. -/
theorem Pieces.length_le (h : Pieces addressSize pieces is) : is.length ≤ pieces.flatten.length := by
  induction h with
  | nil => exact Nat.le_refl _
  | @cons piece i pieces is hpiece _ ih =>
      have hlong := List.length_pos_iff.mpr hpiece.nonempty
      rw [List.flatten_cons, List.length_append, List.length_cons]
      omega

/-- The first pieces are those of the first instructions. -/
theorem Pieces.take (h : Pieces addressSize pieces is) (k : Nat) : Pieces addressSize (pieces.take k) (is.take k) :=
  List.forall₂_take k h

end Runs

/-! ## Ranges -/

/-- **Ranges in a row**, from one place of a byte string to another: each begins where the one before it ends, and none is
    empty. -/
inductive InRow : Nat → List Extent → Nat → Prop where
  | nil (place : Nat) : InRow place [] place
  | cons {e : Extent} {es : List Extent} {place : Nat} (nonempty : e.start < e.finish) (rest : InRow e.finish es place) :
      InRow e.start (e :: es) place

/-- The ranges of byte strings that stand one behind the other, the first one at a place. -/
def ranges : Nat → List Bytes → List Extent
  | _, [] => []
  | place, piece :: pieces => ⟨place, place + piece.length⟩ :: ranges (place + piece.length) pieces

@[simp] theorem length_ranges (place : Nat) (pieces : List Bytes) : (ranges place pieces).length = pieces.length := by
  induction pieces generalizing place with
  | nil => rfl
  | cons piece pieces ih => simp [ranges, ih]

theorem take_ranges (place k : Nat) (pieces : List Bytes) : (ranges place pieces).take k = ranges place (pieces.take k) := by
  induction pieces generalizing place k with
  | nil => simp [ranges]
  | cons piece pieces ih =>
      cases k with
      | zero => rfl
      | succ k => simp [ranges, ih]

/-- **The ranges of pieces lie in a row.** -/
theorem inRow_ranges {pieces : List Bytes} {is : List Instruction} (h : Pieces addressSize pieces is) (place : Nat) :
    InRow place (ranges place pieces) (place + pieces.flatten.length) := by
  induction h generalizing place with
  | nil => exact .nil place
  | @cons piece i pieces is hpiece _ ih =>
      have hlong := List.length_pos_iff.mpr hpiece.nonempty
      have hrest := ih (place + piece.length)
      rw [Nat.add_assoc, ← List.length_append, ← List.flatten_cons] at hrest
      exact .cons (e := ⟨place, place + piece.length⟩) (Nat.lt_add_of_pos_right hlong) hrest

/-- **What stands at the ranges of pieces are those pieces.** -/
theorem slices_ranges {pieces : List Bytes} {is : List Instruction} (h : Pieces addressSize pieces is)
    (front rest : Bytes) :
    List.Forall₂ (fun e i => ∃ piece, e.slice? (front ++ pieces.flatten ++ rest) = some piece ∧ IsPiece addressSize piece i)
      (ranges front.length pieces) is := by
  induction h generalizing front with
  | nil => exact .nil
  | @cons piece i pieces is hpiece _ ih =>
      have hbytes : front ++ (piece :: pieces).flatten ++ rest = front ++ piece ++ (pieces.flatten ++ rest) := by
        simp [List.append_assoc]
      have hbehind := ih (front ++ piece)
      rw [List.length_append, List.append_assoc (front ++ piece)] at hbehind
      rw [hbytes]
      exact .cons ⟨piece, Extent.slice?_append front piece _ rfl rfl, hpiece⟩ hbehind

/-! ## Main statement -/

/-- **A division of bytes into items.** -/
structure Division (addressSize : UInt8) (bs : Bytes) (p : Program) (ranges : List Extent) (finish : Nat) : Prop where
  /-- Requests are answered by the items, of which there are no more than bytes, and then by nothing. -/
  answers : ∀ n, answer addressSize n bs = p.items[n]?
  few : p.items.length ≤ bs.length
  /-- There are ranges from the start on, to the end exactly if there is no fault. -/
  row : InRow 0 ranges finish
  inside : finish ≤ bs.length
  whole : p.fault = none ↔ finish = bs.length
  /-- The bytes at a range are by themselves read as one instruction. -/
  alone : List.Forall₂ (fun e i => ∃ piece, e.slice? bs = some piece ∧ ∀ n, answer addressSize n piece = [Except.ok i][n]?)
    ranges p.instructions

/-- The pieces of a program divide its bytes. -/
theorem division_of_pieces {pieces : List Bytes} {rest bs : Bytes} (hbs : bs = pieces.flatten ++ rest)
    (hpieces : Pieces addressSize pieces (decode addressSize bs).instructions)
    (hfault : (decode addressSize bs).fault = none ↔ rest = []) :
    Division addressSize bs (decode addressSize bs) (ranges 0 pieces) pieces.flatten.length := by
  have hlength : bs.length = pieces.flatten.length + rest.length := by rw [hbs, List.length_append]
  have hrest : (decode addressSize bs).fault = none ↔ rest.length = 0 := hfault.trans List.length_eq_zero_iff.symm
  have hrow := inRow_ranges hpieces 0
  have hslices := slices_ranges hpieces [] rest
  rw [Nat.zero_add] at hrow
  rw [List.nil_append, ← hbs] at hslices
  constructor
  case answers => exact fun n => answer_eq addressSize n bs
  case few =>
      -- each instruction has a byte, and so does a fault
      have hcount := hpieces.length_le
      rw [items, List.length_append, List.length_map, hlength]
      rcases hnone : (decode addressSize bs).fault with _ | e
      · exact Nat.le_trans hcount (Nat.le_add_right _ _)
      · have hbytes : rest.length ≠ 0 := fun hzero => Option.some_ne_none e (hnone.symm.trans (hrest.mpr hzero))
        exact Nat.add_le_add hcount (Nat.pos_of_ne_zero hbytes)
  case row => exact hrow
  case inside => omega
  case whole =>
      rw [hrest]
      omega
  case alone => exact hslices.imp fun _ _ ⟨piece, hslice, hpiece⟩ => ⟨piece, hslice, hpiece.alone⟩

/-- **Requests divide the bytes of a program.** Every byte string has a division into the items that the requests give: no
    more than it has bytes, a fault the last of them, and nothing after it. Its instructions have ranges in a row from the
    start on, which are the whole of it if there is no fault, and the bytes at a range are by themselves this instruction.
    So it can be cut behind any number of instructions: these answer the first requests, whatever bytes are put behind them,
    and those bytes answer all others. A program without a fault can be put whole in front of any bytes. -/
theorem requests_divide_bytes (addressSize : UInt8) (bs : Bytes) :
    ∃ ranges finish, Division addressSize bs (decode addressSize bs) ranges finish ∧
      (∀ k ≤ ranges.length, ∃ place, InRow 0 (ranges.take k) place ∧ ∀ more n,
        answer addressSize n (bs.take place ++ more) =
          if n < k then (decode addressSize bs).instructions[n]?.map .ok else answer addressSize (n - k) more) ∧
      ((decode addressSize bs).fault = none → ∀ more n,
        answer addressSize n (bs ++ more) =
          if n < (decode addressSize bs).instructions.length then (decode addressSize bs).instructions[n]?.map .ok
          else answer addressSize (n - (decode addressSize bs).instructions.length) more) := by
  obtain ⟨pieces, rest, hbs, hpieces, hfault⟩ := exists_pieces addressSize bs
  refine ⟨ranges 0 pieces, pieces.flatten.length, division_of_pieces hbs hpieces hfault, ?_, ?_⟩
  · intro k hk
    have hfront := hpieces.take k
    have hrow := inRow_ranges hfront 0
    rw [Nat.zero_add, ← take_ranges] at hrow
    refine ⟨(pieces.take k).flatten.length, hrow, ?_⟩
    intro more n
    have hcut : bs.take (pieces.take k).flatten.length = (pieces.take k).flatten := by
      rw [hbs, ← List.take_append_drop k pieces, List.flatten_append, List.append_assoc, List.take_append_drop,
        List.take_left]
    have hcount : ((decode addressSize bs).instructions.take k).length = k := by
      rw [length_ranges, hpieces.length_eq] at hk
      exact List.length_take_of_le hk
    rw [hcut, answer_pieces hfront, hcount]
    by_cases hn : n < k
    · rw [if_pos hn, if_pos hn, List.getElem?_take_of_lt hn]
    · rw [if_neg hn, if_neg hn]
  · intro hnone more n
    have hwhole : pieces.flatten = bs := by rw [hbs, hfault.mp hnone, List.append_nil]
    rw [← answer_pieces hpieces more n, hwhole]

/-- Two instructions, the first with a padded operand: they can be cut behind the first one, and put in front of any bytes.
    With an opcode of no instruction between them the first one alone has a range. -/
theorem requests_divide_bytes_padded :
    let bs : Bytes := [0x0c, 0x87, 0x00, 0x08, 0x44]
    let is : List Instruction := [.frame 7 8, .advance 4]
    let broken : Bytes := [0x0c, 0x87, 0x00, 0x08, 0x0a, 0x44]
    (decode 8 bs).fault = none ∧
      (∃ ranges finish, Division 8 bs ⟨is, none⟩ ranges finish ∧ 1 ≤ ranges.length ∧
        ∃ place, InRow 0 (ranges.take 1) place ∧ ∀ more n,
          answer 8 n (bs.take place ++ more) = if n < 1 then is[n]?.map .ok else answer 8 (n - 1) more) ∧
      (∀ more n, answer 8 n (bs ++ more) = if n < 2 then is[n]?.map .ok else answer 8 (n - 2) more) ∧
      ∃ ranges finish, Division 8 broken ⟨[.frame 7 8], some (.unsupported (.instruction 0x0a))⟩ ranges finish := by
  intro bs is broken
  have hdecode : decode 8 bs = ⟨is, none⟩ := by decide +kernel
  have hbroken : decode 8 broken = ⟨[.frame 7 8], some (.unsupported (.instruction 0x0a))⟩ := by decide +kernel
  obtain ⟨ranges, finish, hdivision, hcut, hfront⟩ := requests_divide_bytes 8 bs
  obtain ⟨ranges', finish', hdivision', -⟩ := requests_divide_bytes 8 broken
  rw [hdecode] at hdivision hcut hfront
  rw [hbroken] at hdivision'
  have htwo : ranges.length = 2 := hdivision.alone.length_eq
  have hone : 1 ≤ ranges.length := by omega
  exact ⟨by rw [hdecode], ⟨ranges, finish, hdivision, hone, hcut 1 hone⟩, hfront rfl, ranges', finish', hdivision'⟩

end Unwinder.Cfi.Program
