import Unwinder.Cfi.Row
import Unwinder.Proofs.Reading

/-!
# `Proofs.RuleTable` — the row at an address is a row of the whole unwind table

`rulesAt` carries out instructions one after the other and stops as soon as the location passes the address it is
asked about. The standard describes something else: a table that is built to its end, with a row for each
stretch of code and a column for every register, from which the row of an address is then taken. This module
builds that table over unbounded integers and shows that stopping early finds the row of the table.

## Contents
- **Rows without bounds.** `ExactRow` with `ExactRow.apply`; `ExactRow.reduce` keeps the sampled columns and the
  low 64 bits of every offset, and commutes with every instruction (`reduce_apply`).
- **The whole table.** `unwindTable`, its `Ascending` condition, and `rowAt?`, the last row that begins at or before
  an address.
- **Stopping early.** `run_eq_rowAt`: the induction over a program that relates `Row.run` to the table.
- **Main statement.** `rulesAt_iff_unwindTable`: when there is a row, which one it is, and which fault is reported
  otherwise.
-/

namespace Unwinder.Cfi

open LittleEndian

/-! ## Rows without bounds -/

/-- A register rule whose offset may be any integer. -/
inductive ExactRule where
  | lost
  | kept
  | saved (offset : Int)
  deriving DecidableEq

/-- A row as the standard has it: a column for every register number, and integers for offsets. -/
structure ExactRow where
  frameRegister : Option Nat
  frameOffset : Int
  rules : Nat → ExactRule

/-- The rule with its offset reduced to a signed word. -/
def ExactRule.reduce : ExactRule → RegisterRule
  | .lost => .lost
  | .kept => .kept
  | .saved offset => .saved (Int64.ofInt offset)

namespace ExactRow

/-- The row before any instruction. -/
def blank : ExactRow := ⟨none, 0, fun _ => .kept⟩

/-- The row with another rule in one column. -/
def setRule (row : ExactRow) (register : Nat) (rule : ExactRule) : ExactRow :=
  { row with rules := fun column => if column = register then rule else row.rules column }

/-- What an instruction does to a row, all products being those of integers. -/
def apply (row : ExactRow) (dataAlign : Int) (initial : ExactRow) : Instruction → ExactRow
  | .frame register offset => { row with frameRegister := some register.toNat, frameOffset := offset.toNat }
  | .frameScaled register units =>
      { row with frameRegister := some register.toNat, frameOffset := units.toInt * dataAlign }
  | .frameRegister register => { row with frameRegister := some register.toNat }
  | .frameOffset offset => { row with frameOffset := offset.toNat }
  | .frameOffsetScaled units => { row with frameOffset := units.toInt * dataAlign }
  | .lost register => row.setRule register.toNat .lost
  | .kept register => row.setRule register.toNat .kept
  | .saved register units => row.setRule register.toNat (.saved (units.toNat * dataAlign))
  | .savedExtended register units => row.setRule register.toNat (.saved (units.toNat * dataAlign))
  | .savedScaled register units => row.setRule register.toNat (.saved (units.toInt * dataAlign))
  | .restore register => row.setRule register.toNat (initial.rules register.toNat)
  | .restoreExtended register => row.setRule register.toNat (initial.rules register.toNat)
  | .setLocation _ | .advance _ | .advance1 _ | .advance2 _ | .advance4 _ | .nop => row

/-- The row that is kept in memory: the columns that are sampled, and offsets as signed words. -/
def reduce (row : ExactRow) : Row :=
  ⟨row.frameRegister.map UInt64.ofNat, Int64.ofInt row.frameOffset,
    Vector.ofFn fun slot => (row.rules slot).reduce⟩

theorem reduce_blank : blank.reduce = Row.blank := by
  have hrules : (Vector.ofFn fun _ : Fin slotCount => ExactRule.kept.reduce) = Vector.replicate slotCount .kept := by
    apply Vector.ext
    intro i hi
    simp [ExactRule.reduce]
  simp only [reduce, blank, Row.blank, Option.map_none, hrules]
  rfl

theorem reduce_setRule (row : ExactRow) (register : UInt64) (rule : ExactRule) :
    (row.setRule register.toNat rule).reduce = row.reduce.setRule register rule.reduce := by
  have hrules : (Vector.ofFn fun slot : Fin slotCount => ((row.setRule register.toNat rule).rules slot).reduce)
      = (Vector.ofFn fun slot : Fin slotCount => (row.rules slot).reduce).setIfInBounds register.toNat rule.reduce := by
    apply Vector.ext
    intro i hi
    rw [Vector.getElem_setIfInBounds hi, Vector.getElem_ofFn, Vector.getElem_ofFn]
    by_cases h : i = register.toNat
    · simp [setRule, h]
    · simp [setRule, h, Ne.symm h]
  simp only [reduce, Row.setRule, hrules]
  rfl

/-- Going back to the initial row concerns the sampled columns only. -/
theorem reduce_restore (row initial : ExactRow) (register : UInt64) :
    (row.setRule register.toNat (initial.rules register.toNat)).reduce
      = row.reduce.restoreRule initial.reduce register := by
  rw [reduce_setRule]
  unfold Row.restoreRule
  by_cases h : register.toNat < slotCount
  · have hrule : initial.reduce.rules[register.toNat]? = some (initial.rules register.toNat).reduce := by
      rw [Vector.getElem?_eq_getElem h]
      simp [reduce]
    rw [hrule]
  · -- a column that is not sampled has no initial rule, and setting one changes nothing
    have hnone : initial.reduce.rules[register.toNat]? = none := Vector.getElem?_eq_none (by omega)
    rw [hnone]
    simp only [Row.setRule]
    rw [Vector.setIfInBounds_eq_of_size_le (by omega)]

/-- **Reduction is harmless.** Carrying out an instruction on words gives the reduced result of carrying it out on
    integers. -/
theorem reduce_apply (row initial : ExactRow) (dataAlign : Int64) (i : Instruction) :
    (row.apply dataAlign.toInt initial i).reduce = row.reduce.apply dataAlign initial.reduce i := by
  have hunsigned : ∀ n : UInt64, Int64.ofInt n.toNat = n.toInt64 := by
    intro n
    rw [Int64.ofInt_eq_ofNat, ← UInt64.toInt64_ofNat', UInt64.ofNat_toNat]
  have hregister : ∀ register : UInt8, register.toNat = register.toUInt64.toNat := fun register =>
    (UInt8.toNat_toUInt64 register).symm
  cases i with
  | frame register offset => simp [apply, Row.apply, reduce, hunsigned]
  | frameScaled register units => simp [apply, Row.apply, reduce]
  | frameRegister register => simp [apply, Row.apply, reduce]
  | frameOffset offset => simp [apply, Row.apply, reduce, hunsigned]
  | frameOffsetScaled units => simp [apply, Row.apply, reduce]
  | lost register => exact reduce_setRule row register .lost
  | kept register => exact reduce_setRule row register .kept
  | saved register units =>
      rw [apply, hregister, reduce_setRule]
      simp [Row.apply, ExactRule.reduce, hunsigned]
  | savedExtended register units =>
      rw [apply, reduce_setRule]
      simp [Row.apply, ExactRule.reduce, hunsigned]
  | savedScaled register units =>
      rw [apply, reduce_setRule]
      simp [Row.apply, ExactRule.reduce]
  | restore register =>
      rw [apply, hregister, reduce_restore]
      rfl
  | restoreExtended register => exact reduce_restore row initial register
  | setLocation _ | advance _ | advance1 _ | advance2 _ | advance4 _ | nop => rfl

end ExactRow

/-! ## The whole table -/

/-- Where the row begins that an instruction makes; most instructions make none. -/
def Instruction.rowStart? (codeAlign location : Nat) : Instruction → Option Nat
  | .setLocation address => some address.toNat
  | .advance delta => some (location + delta.toNat * codeAlign)
  | .advance1 delta => some (location + delta.toNat * codeAlign)
  | .advance2 delta => some (location + delta.toNat * codeAlign)
  | .advance4 delta => some (location + delta.toNat * codeAlign)
  | _ => none

/-- A row of a table, with the address its stretch of code begins at. -/
structure TableRow where
  start : Nat
  row : ExactRow

/-- The rows that instructions make when the row in the making begins at `start`. A row is finished by the
    instruction that makes the next one. -/
def rowsFrom (cie : Cie) (initial : ExactRow) : List Instruction → Nat → ExactRow → List TableRow
  | [], start, row => [⟨start, row⟩]
  | i :: is, start, row =>
      match i.rowStart? cie.codeAlign.toNat start with
      | some next => ⟨start, row⟩ :: rowsFrom cie initial is next row
      | none => rowsFrom cie initial is start (row.apply cie.dataAlign.toInt initial i)

/-- The row that the whole program of a common record makes. Before it there is nothing to go back to but the
    blank row. -/
def initialRow (cie : Cie) (initialBytes : Bytes) : ExactRow :=
  (Program.decode cie.addressSize initialBytes).instructions.foldl
    (fun row i => row.apply cie.dataAlign.toInt .blank i) .blank

/-- The unwind table of a function whose code begins at `first`. -/
def unwindTable (cie : Cie) (first : UInt64) (initialBytes bytes : Bytes) : List TableRow :=
  let initial := initialRow cie initialBytes
  rowsFrom cie initial (Program.decode cie.addressSize bytes).instructions first.toNat initial

/-- Where the rows of a table begin. -/
def starts (rows : List TableRow) : List Nat := rows.map (·.start)

/-- The rows of a table begin at addresses, none of them before the row above it. -/
def Ascending (rows : List TableRow) : Prop :=
  (starts rows).Pairwise (· ≤ ·) ∧ ∀ start ∈ starts rows, start < wordLimit

instance (rows : List TableRow) : Decidable (Ascending rows) := inferInstanceAs (Decidable (_ ∧ _))

/-- The last row that begins at or before an address. -/
def rowAt? (rows : List TableRow) (target : Nat) : Option ExactRow :=
  ((rows.filter (·.start ≤ target)).getLast?).map (·.row)

/-- The fault of a program that a lookup runs into: none once a row begins past the address. -/
def faultAt (fault : Option Error) (rows : List TableRow) (target : Nat) : Option Error :=
  if ∃ r ∈ rows, target < r.start then none else fault

/-- The first row of a table is the one in the making. -/
theorem rowsFrom_eq_cons (cie : Cie) (initial : ExactRow) (is : List Instruction) (start : Nat) (row : ExactRow) :
    ∃ first rows, rowsFrom cie initial is start row = first :: rows ∧ first.start = start := by
  induction is generalizing row with
  | nil => exact ⟨⟨start, row⟩, [], rfl, rfl⟩
  | cons i is ih =>
      rw [rowsFrom]
      split
      · exact ⟨⟨start, row⟩, _, rfl, rfl⟩
      · exact ih _

/-- An instruction that makes a row moves the location there, unless the address does not fit a word, and leaves the
    rules as they are. -/
theorem locate_of_rowStart {codeAlign location : UInt64} {i : Instruction} {next : Nat}
    (h : i.rowStart? codeAlign.toNat location.toNat = some next) (hnext : next < wordLimit) :
    (i.locate codeAlign location).toNat = next ∧
      ∀ (row initial : Row) (dataAlign : Int64), row.apply dataAlign initial i = row := by
  -- the machine's sum is reduced modulo the word; the exact one is below it
  have hmod : ∀ n : Nat, location.toNat + n * codeAlign.toNat = next →
      (location.toNat + n * codeAlign.toNat % 2 ^ 64) % 2 ^ 64 = next := by
    intro n hn
    rw [Nat.add_mod_mod, hn]
    exact Nat.mod_eq_of_lt hnext
  cases i with
  | setLocation address =>
      cases h
      exact ⟨rfl, fun _ _ _ => rfl⟩
  | advance delta | advance1 delta | advance2 delta | advance4 delta =>
      refine ⟨?_, fun _ _ _ => rfl⟩
      simp only [Instruction.rowStart?, Option.some.injEq] at h
      simpa [Instruction.locate] using hmod delta.toNat h
  | _ => cases h

theorem locate_of_not_rowStart {codeAlign location : UInt64} {i : Instruction} {start : Nat}
    (h : i.rowStart? codeAlign.toNat start = none) : i.locate codeAlign location = location := by
  cases i with
  | setLocation _ | advance _ | advance1 _ | advance2 _ | advance4 _ => cases h
  | _ => rfl

/-! ## Rows of an ascending table -/

/-- When all later rows begin past the address, the first one is in effect. -/
theorem rowAt?_cons_of_forall_lt {r : TableRow} {rows : List TableRow} {target : Nat} (hr : r.start ≤ target)
    (h : ∀ later ∈ rows, target < later.start) : rowAt? (r :: rows) target = some r.row := by
  have hnil : rows.filter (·.start ≤ target) = [] := by
    rw [List.filter_eq_nil_iff]
    intro later hlater
    have hlt := h later hlater
    simp only [decide_eq_true_eq]
    omega
  simp [rowAt?, hr, hnil]

/-- When a later row begins at or before the address, the first one is not looked at. -/
theorem rowAt?_cons_of_le {r next : TableRow} {rows : List TableRow} {target : Nat}
    (hnext : next.start ≤ target) : rowAt? (r :: next :: rows) target = rowAt? (next :: rows) target := by
  by_cases hr : r.start ≤ target
  · simp [rowAt?, hr, hnext]
  · simp [rowAt?, hr]

theorem Ascending.tail {r : TableRow} {rows : List TableRow} (h : Ascending (r :: rows)) : Ascending rows := by
  obtain ⟨hpairs, hwords⟩ := h
  rw [starts, List.map_cons, List.pairwise_cons] at hpairs
  exact ⟨hpairs.2, fun start hstart => hwords start (List.mem_cons_of_mem r.start hstart)⟩

theorem Ascending.head_le {r : TableRow} {rows : List TableRow} (h : Ascending (r :: rows)) :
    ∀ later ∈ r :: rows, r.start ≤ later.start := by
  intro later hlater
  have hpairs := h.1
  rw [starts, List.map_cons, List.pairwise_cons] at hpairs
  rcases List.mem_cons.mp hlater with heq | hmem
  · exact Nat.le_of_eq (congrArg TableRow.start heq.symm)
  · exact hpairs.1 later.start (List.mem_map_of_mem hmem)

/-- A part of a program makes its rows where the whole program makes its first ones. -/
theorem starts_append (cie : Cie) (initial : ExactRow) (is js : List Instruction) (start : Nat) (row : ExactRow) :
    starts (rowsFrom cie initial is start row) <+: starts (rowsFrom cie initial (is ++ js) start row) := by
  induction is generalizing start row with
  | nil =>
      -- the last row of the part goes on changing in the whole, from the same address
      obtain ⟨first, rows, htable, hfirst⟩ := rowsFrom_eq_cons cie initial js start row
      rw [List.nil_append, htable, rowsFrom, starts, starts, List.map_cons, List.map_cons, hfirst]
      exact (List.prefix_cons_inj start).mpr List.nil_prefix
  | cons i is ih =>
      rw [List.cons_append, rowsFrom, rowsFrom]
      split
      · exact (List.prefix_cons_inj start).mpr (ih _ _)
      · exact ih _ _

theorem Ascending.of_prefix {rows more : List TableRow} (hbefore : starts rows <+: starts more)
    (h : Ascending more) : Ascending rows :=
  ⟨h.1.sublist hbefore.sublist, fun start hstart => h.2 start (hbefore.subset hstart)⟩

/-! ## Stopping early -/

/-- **Early stop.** Carrying out a program until the location passes the address gives the row that the whole table
    has there; the program's fault is met exactly when no row begins past the address. -/
theorem run_eq_rowAt (cie : Cie) (initial : ExactRow) (target : UInt64) (fault : Option Error)
    (is : List Instruction) (location : UInt64) (row : ExactRow) (hlocation : location ≤ target)
    (hrows : Ascending (rowsFrom cie initial is location.toNat row)) :
    ∃ found, rowAt? (rowsFrom cie initial is location.toNat row) target.toNat = some found ∧
      Row.run cie initial.reduce target fault is location row.reduce =
        match faultAt fault (rowsFrom cie initial is location.toNat row) target.toNat with
        | some e => .error e
        | none => .ok found.reduce := by
  rw [UInt64.le_iff_toNat_le] at hlocation
  -- the location never passes the address while the run goes on, which is the invariant
  induction is generalizing location row with
  | nil =>
      refine ⟨row, rowAt?_cons_of_forall_lt hlocation (fun _ h => by cases h), ?_⟩
      have hnot : ¬ ∃ r ∈ [TableRow.mk location.toNat row], target.toNat < r.start := by
        simp only [List.mem_singleton, exists_eq_left]
        omega
      rw [rowsFrom, faultAt, if_neg hnot]
      cases fault <;> rfl
  | cons i is ih =>
      simp only [rowsFrom] at hrows ⊢
      cases hstart : i.rowStart? cie.codeAlign.toNat location.toNat with
      | none =>
          -- the row in the making changes and the location stays
          simp only [hstart] at hrows ⊢
          have hstay : i.locate cie.codeAlign location = location := locate_of_not_rowStart hstart
          have hnot : ¬ target < location := by
            rw [UInt64.lt_iff_toNat_lt]
            omega
          obtain ⟨found, hfound, hrun⟩ := ih location _ hlocation hrows
          refine ⟨found, hfound, ?_⟩
          rw [Row.run, hstay, if_neg hnot, ← ExactRow.reduce_apply]
          exact hrun
      | some next =>
          simp only [hstart] at hrows ⊢
          obtain ⟨second, rows, htable, hsecond⟩ := rowsFrom_eq_cons cie initial is next row
          have hmem : second ∈ rowsFrom cie initial is next row := htable ▸ List.mem_cons_self
          have hnext : next < wordLimit :=
            hsecond ▸ hrows.2 second.start (List.mem_cons_of_mem _ (List.mem_map_of_mem hmem))
          obtain ⟨hlocate, hkeep⟩ := locate_of_rowStart hstart hnext
          by_cases hpast : target.toNat < next
          · -- the next row begins past the address, and with it all that follow
            have hlater : ∀ later ∈ rowsFrom cie initial is next row, target.toNat < later.start := by
              have hhead := (htable ▸ hrows.tail).head_le
              intro later hlater
              have hle := hhead later (htable ▸ hlater)
              omega
            have hfault : faultAt fault (⟨location.toNat, row⟩ :: rowsFrom cie initial is next row)
                target.toNat = none :=
              if_pos ⟨second, List.mem_cons_of_mem _ hmem, by omega⟩
            refine ⟨row, rowAt?_cons_of_forall_lt hlocation hlater, ?_⟩
            have hstop : target < i.locate cie.codeAlign location := by
              rw [UInt64.lt_iff_toNat_lt]
              omega
            rw [Row.run, if_pos hstop, hkeep, hfault]
          · have hgo : ¬ target < i.locate cie.codeAlign location := by
              rw [UInt64.lt_iff_toNat_lt]
              omega
            have htail := hrows.tail
            rw [← hlocate] at htail
            obtain ⟨found, hfound, hrun⟩ := ih (i.locate cie.codeAlign location) row (by omega) htail
            rw [hlocate] at hfound hrun
            refine ⟨found, ?_, ?_⟩
            · rw [htable] at hfound ⊢
              rw [rowAt?_cons_of_le (by omega)]
              exact hfound
            · have hfault : faultAt fault (⟨location.toNat, row⟩ :: rowsFrom cie initial is next row) target.toNat
                  = faultAt fault (rowsFrom cie initial is next row) target.toNat := by
                have hfirst : ¬ target.toNat < location.toNat := by omega
                simp only [faultAt, List.mem_cons, exists_eq_or_imp, hfirst, false_or]
              rw [Row.run, if_neg hgo, hkeep, hfault]
              exact hrun

/-- No location passes the last address, so that a common record's program is carried out to its end. -/
theorem run_lastAddress (cie : Cie) (initial : ExactRow) (fault : Option Error) (is : List Instruction)
    (location : UInt64) (row : ExactRow) :
    Row.run cie initial.reduce lastAddress fault is location row.reduce =
      match fault with
      | some e => .error e
      | none => .ok (is.foldl (fun row i => row.apply cie.dataAlign.toInt initial i) row).reduce := by
  induction is generalizing location row with
  | nil => cases fault <;> rfl
  | cons i is ih =>
      have hnot : ¬ lastAddress < i.locate cie.codeAlign location := by
        rw [UInt64.lt_iff_toNat_lt]
        have hlt := (i.locate cie.codeAlign location).toNat_lt
        simp only [lastAddress, UInt64.reduceToNat]
        omega
      rw [Row.run, if_neg hnot, ← ExactRow.reduce_apply, ih, List.foldl_cons]

/-- A run that does not reach the fault of its program has passed the address: what comes after the instructions
    it has seen is never looked at. -/
theorem run_append_of_ok {cie : Cie} {initial row found : Row} {target location : UInt64} {e : Error}
    {is : List Instruction} (js : List Instruction) (fault : Option Error)
    (h : Row.run cie initial target (some e) is location row = .ok found) :
    Row.run cie initial target fault (is ++ js) location row = .ok found := by
  induction is generalizing location row with
  -- at the end of the program the fault would have been met
  | nil => cases h
  | cons i is ih =>
      rw [List.cons_append, Row.run]
      rw [Row.run] at h
      by_cases hpast : target < i.locate cie.codeAlign location
      · rw [if_pos hpast] at h ⊢
        exact h
      · rw [if_neg hpast] at h ⊢
        exact ih h

/-! ## The row at an address -/

section MainStatement

variable {image initialBytes bytes : Bytes} {cie : Cie} {fde : Fde} {target : UInt64}

/-- The row at an address in terms of the two programs. -/
theorem rulesAt_eq_run (hinitial : cie.instructions.slice? image = some initialBytes)
    (hbytes : fde.instructions.slice? image = some bytes) :
    rulesAt image cie fde target =
      match (Program.decode cie.addressSize initialBytes).fault with
      | some e => .error e
      | none =>
          Row.run cie (initialRow cie initialBytes).reduce target (Program.decode cie.addressSize bytes).fault
            (Program.decode cie.addressSize bytes).instructions fde.first (initialRow cie initialBytes).reduce := by
  have hfirst : Row.runAt image cie cie.instructions .blank fde.first lastAddress .blank =
      match (Program.decode cie.addressSize initialBytes).fault with
      | some e => .error e
      | none => .ok (initialRow cie initialBytes).reduce := by
    rw [Row.runAt, hinitial, ← ExactRow.reduce_blank]
    exact run_lastAddress cie .blank _ _ fde.first .blank
  rw [rulesAt, hfirst]
  cases (Program.decode cie.addressSize initialBytes).fault with
  | some e => rfl
  | none =>
      show Row.runAt image cie fde.instructions _ _ _ _ = _
      rw [Row.runAt, hbytes]

/-- The row at an address in terms of the whole table. -/
theorem rulesAt_eq_rowAt (hinitial : cie.instructions.slice? image = some initialBytes)
    (hbytes : fde.instructions.slice? image = some bytes) (htarget : fde.first ≤ target)
    (hrows : Ascending (unwindTable cie fde.first initialBytes bytes)) :
    ∃ found, rowAt? (unwindTable cie fde.first initialBytes bytes) target.toNat = some found ∧
      rulesAt image cie fde target =
        match (Program.decode cie.addressSize initialBytes).fault with
        | some e => .error e
        | none =>
            match faultAt (Program.decode cie.addressSize bytes).fault
              (unwindTable cie fde.first initialBytes bytes) target.toNat with
            | some e => .error e
            | none => .ok found.reduce := by
  obtain ⟨found, hfound, hrun⟩ := run_eq_rowAt cie (initialRow cie initialBytes) target
    (Program.decode cie.addressSize bytes).fault (Program.decode cie.addressSize bytes).instructions fde.first
    (initialRow cie initialBytes) htarget hrows
  refine ⟨found, hfound, ?_⟩
  rw [rulesAt_eq_run hinitial hbytes, hrun]
  rfl

/-- A part of a program that makes a row past the address decides the row there. -/
theorem rulesAt_of_front (hinitial : cie.instructions.slice? image = some initialBytes) {front rest : Bytes}
    (hbytes : fde.instructions.slice? image = some (front ++ rest)) (htarget : fde.first ≤ target)
    (hrows : Ascending (unwindTable cie fde.first initialBytes (front ++ rest)))
    (hinitialFault : (Program.decode cie.addressSize initialBytes).fault = none)
    (hfront : (Program.decode cie.addressSize front).fault = none)
    (hpast : ∃ r ∈ unwindTable cie fde.first initialBytes front, target.toNat < r.start) :
    ∃ found, rowAt? (unwindTable cie fde.first initialBytes front) target.toNat = some found ∧
      rulesAt image cie fde target = .ok found.reduce := by
  have hdecode := Program.decode_append cie.addressSize rest front hfront
  have hfrontRows : Ascending (unwindTable cie fde.first initialBytes front) := by
    refine hrows.of_prefix ?_
    rw [unwindTable, unwindTable, hdecode]
    exact starts_append _ _ _ _ _ _
  -- the front is run as if a fault came right after it: the run does not reach it
  obtain ⟨found, hfound, hrun⟩ := run_eq_rowAt cie (initialRow cie initialBytes) target
    (some (.malformed .programOutside)) (Program.decode cie.addressSize front).instructions fde.first
    (initialRow cie initialBytes) htarget hfrontRows
  refine ⟨found, hfound, ?_⟩
  have hnone : faultAt (some (.malformed .programOutside)) (unwindTable cie fde.first initialBytes front)
      target.toNat = none := if_pos hpast
  rw [unwindTable] at hnone
  rw [hnone] at hrun
  rw [rulesAt_eq_run hinitial hbytes, hinitialFault, hdecode]
  exact run_append_of_ok _ _ hrun

/-- What the outcome of a lookup says about the two programs. -/
theorem outcome_iff {outcome : Except Error Row} {initialFault fault : Option Error} {table : List TableRow}
    {address : Nat} {found : ExactRow}
    (h : outcome =
      match initialFault with
      | some e => .error e
      | none =>
          match faultAt fault table address with
          | some e => .error e
          | none => .ok found.reduce) :
    (∀ row, outcome = .ok row ↔
      initialFault = none ∧ (fault = none ∨ ∃ r ∈ table, address < r.start) ∧ found.reduce = row) ∧
    (∀ e, outcome = .error e ↔
      initialFault = some e ∨ initialFault = none ∧ fault = some e ∧ ∀ r ∈ table, r.start ≤ address) := by
  subst h
  cases initialFault with
  | some e => simp
  | none =>
      by_cases hpast : ∃ r ∈ table, address < r.start
      · have hnone : faultAt fault table address = none := if_pos hpast
        obtain ⟨r, hr, hlt⟩ := hpast
        have hnever : ¬ ∀ r ∈ table, r.start ≤ address := fun hall => absurd (hall r hr) (by omega)
        rw [hnone]
        simp [hnever, show ∃ r ∈ table, address < r.start from ⟨r, hr, hlt⟩]
      · -- no row begins past the address, and the program is carried out to its fault or its end
        have hsame : faultAt fault table address = fault := if_neg hpast
        have hall : ∀ r ∈ table, r.start ≤ address := fun r hr =>
          Nat.le_of_not_lt fun hlt => hpast ⟨r, hr, hlt⟩
        rw [hsame]
        cases fault with
        | some e => simp [hpast, eq_true hall]
        | none => simp

/-- **The row at an address is the row of the whole table.** For programs that lie in the image, an address at or after
    the first one of the function, and a table whose rows begin at ascending addresses:
    * there is a row exactly when the common record's program has no fault, and the function's program either has none
      or has made a row past the address; it is the last row of the whole table that begins at or before the
      address, its offsets reduced to signed words;
    * otherwise the first fault of the two programs is reported;
    * bytes after a part of the function's program that makes a row past the address never matter. -/
theorem rulesAt_iff_unwindTable (hinitial : cie.instructions.slice? image = some initialBytes)
    (hbytes : fde.instructions.slice? image = some bytes) (htarget : fde.first ≤ target)
    (hrows : Ascending (unwindTable cie fde.first initialBytes bytes)) :
    let initial := Program.decode cie.addressSize initialBytes
    let program := Program.decode cie.addressSize bytes
    let table := unwindTable cie fde.first initialBytes bytes
    (∀ row, rulesAt image cie fde target = .ok row ↔
      initial.fault = none ∧ (program.fault = none ∨ ∃ r ∈ table, target.toNat < r.start) ∧
        (rowAt? table target.toNat).map ExactRow.reduce = some row) ∧
    (∀ e, rulesAt image cie fde target = .error e ↔
      initial.fault = some e ∨
        initial.fault = none ∧ program.fault = some e ∧ ∀ r ∈ table, r.start ≤ target.toNat) ∧
    (∀ front rest, bytes = front ++ rest → initial.fault = none →
      (Program.decode cie.addressSize front).fault = none →
      (∃ r ∈ unwindTable cie fde.first initialBytes front, target.toNat < r.start) →
      ∃ found, rowAt? (unwindTable cie fde.first initialBytes front) target.toNat = some found ∧
        rulesAt image cie fde target = .ok found.reduce) := by
  intro initial program table
  obtain ⟨found, hfound, hrules⟩ := rulesAt_eq_rowAt hinitial hbytes htarget hrows
  obtain ⟨hok, herror⟩ := outcome_iff hrules
  refine ⟨?_, herror, ?_⟩
  · intro row
    rw [show rowAt? table target.toNat = some found from hfound, Option.map_some, Option.some.injEq]
    exact hok row
  · intro front rest hsplit hinitialFault hfront hpast
    rw [hsplit] at hbytes hrows
    exact rulesAt_of_front hinitial hbytes htarget hrows hinitialFault hfront hpast

/-- After a push the row saves the pushed register. The instruction after the next row's beginning is cut off, which
    does not matter three bytes into the function. -/
theorem rulesAt_iff_unwindTable_push :
    let initial : Bytes := [0x0c, 7, 8, 0x90, 1]
    let program : Bytes := [0x41, 0x0e, 0x10, 0x86, 0x02, 0x43, 0x0d]
    let cie : Cie := { flavour := .ehFrame, offset := 0, version := 1, augmentation := [], codeAlign := 1,
                       dataAlign := -8, returnColumn := 16, encoding := .absolute, addressSize := 8,
                       instructions := ⟨0, 5⟩ }
    let fde : Fde := { cie := 0, flavour := .ehFrame, offset := 0x18, first := 0x1000, length := 0x100,
                       instructions := ⟨5, 12⟩ }
    cie.instructions.slice? (initial ++ program) = some initial ∧
      fde.instructions.slice? (initial ++ program) = some program ∧
      fde.first ≤ 0x1003 ∧ Ascending (unwindTable cie fde.first initial program) ∧
      rulesAt (initial ++ program) cie fde 0x1003 = .ok
        ⟨some 7, 16, ((Vector.replicate slotCount .kept).set 16 (.saved (-8))).set 6 (.saved (-16))⟩ := by
  intro initial program cie fde
  have hinitial : cie.instructions.slice? (initial ++ program) = some initial := by decide
  have hprogram : fde.instructions.slice? (initial ++ program) = some program := by decide
  have htarget : fde.first ≤ 0x1003 := by decide
  have hrows : Ascending (unwindTable cie fde.first initial program) := by decide +kernel
  have hlookup := rulesAt_iff_unwindTable hinitial hprogram htarget hrows
  exact ⟨hinitial, hprogram, htarget, hrows, (hlookup.1 _).mpr (by decide +kernel)⟩

end MainStatement

end Unwinder.Cfi
