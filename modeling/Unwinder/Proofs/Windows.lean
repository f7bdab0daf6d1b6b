import Mathlib.Control.Monad.Basic
import Unwinder.Stack.Snapshot

/-!
# `Proofs.Windows` — reads from a window of the stack

A window can lie anywhere, also across the largest address: its base and its length are then fine machine words while
their sum is not. This module says what a read gives without machine words. A window *shows* bytes at an address when
it has them as many places behind its start as the address is behind its base, both being whole numbers. A read gives
just the bytes that are shown, so that an address on the far side of the largest one never counts as inside.

## Contents
- **Shown bytes.** `Snapshot.Shows`, with `Shows.iff_slice`; `Shows.append_iff`, the law by which a read can be split.
- **Reads.** `holds_iff`, the bounds as inequalities of integers; `read_eq_ok_iff` and `word_eq_ok_iff`.
- **Buffers.** `stretch?_eq` runs the steps that machine words take; `fill_eq` says that a buffer is filled by a read.
- **Main statement.** `Snapshot.reads_are_exact`.
-/

namespace Unwinder

open LittleEndian

namespace Snapshot

/-! ## Shown bytes -/

/-- **What a window shows** at an address: bytes with as many before them as the address is behind the base. -/
def Shows (s : Snapshot) (address : UInt64) (bytes : Bytes) : Prop :=
  ∃ front back, s.bytes = front ++ (bytes ++ back) ∧ s.base.toNat + front.length = address.toNat

section Shown

variable {s : Snapshot} {address : UInt64} {bytes : Bytes}

/-- The bytes that are shown are those from their place on. -/
theorem Shows.iff_slice :
    s.Shows address bytes ↔
      s.Holds address bytes.length ∧ (s.bytes.drop (address.toNat - s.base.toNat)).take bytes.length = bytes := by
  constructor
  · rintro ⟨front, back, hbytes, hplace⟩
    have hstart : address.toNat - s.base.toNat = front.length := by omega
    have hlength := congrArg List.length hbytes
    simp only [List.length_append] at hlength
    refine ⟨⟨UInt64.le_iff_toNat_le.mpr (by omega), by omega⟩, ?_⟩
    rw [hstart, hbytes, List.drop_left, List.take_left]
  · rintro ⟨⟨hbase, hinside⟩, hslice⟩
    have hbase := UInt64.le_iff_toNat_le.mp hbase
    refine ⟨s.bytes.take (address.toNat - s.base.toNat),
      (s.bytes.drop (address.toNat - s.base.toNat)).drop bytes.length, ?_, ?_⟩
    · rw [← hslice, List.length_take, List.length_drop, Nat.min_eq_left (by omega), List.take_append_drop,
        List.take_append_drop]
    · rw [List.length_take]
      omega

/-- An address that does not wrap is as far behind as was added. -/
theorem toNat_add_ofNat {n : Nat} (h : address.toNat + n < wordLimit) :
    (address + UInt64.ofNat n).toNat = address.toNat + n := by
  have hn : n < UInt64.size := Nat.lt_of_le_of_lt (Nat.le_add_left _ _) h
  rw [UInt64.toNat_add, UInt64.toNat_ofNat_of_lt' hn]
  exact Nat.mod_eq_of_lt h

/-- **Bytes are shown when their parts are**, one behind the other. -/
theorem Shows.append_iff {first second : Bytes} (h : address.toNat + first.length < wordLimit) :
    s.Shows address (first ++ second) ↔
      s.Shows address first ∧ s.Shows (address + UInt64.ofNat first.length) second := by
  have hnext := toNat_add_ofNat h
  constructor
  · rintro ⟨front, back, hbytes, hplace⟩
    rw [List.append_assoc] at hbytes
    refine ⟨⟨front, second ++ back, hbytes, hplace⟩, front ++ first, back, ?_, ?_⟩
    · rw [hbytes, List.append_assoc]
    · rw [List.length_append, hnext, ← hplace, Nat.add_assoc]
  · rintro ⟨⟨front, rest, hbytes, hplace⟩, before, back, hbytes', hplace'⟩
    -- the second part begins where the first one ends
    have hlength : (front ++ first).length = before.length := by
      rw [List.length_append]
      omega
    rw [hbytes, ← List.append_assoc] at hbytes'
    obtain ⟨-, hrest⟩ := List.append_inj hbytes' hlength
    refine ⟨front, back, ?_, hplace⟩
    rw [hbytes, hrest, List.append_assoc]

end Shown

/-! ## Reads -/

section Reads

variable {s : Snapshot} {address : UInt64}

/-- The bounds of a window, as inequalities of integers. -/
theorem holds_iff {length : Nat} :
    s.Holds address length ↔
      (s.base.toNat : Int) ≤ address.toNat ∧ (address.toNat - s.base.toNat : Int) + length ≤ s.bytes.length := by
  unfold Holds
  rw [UInt64.le_iff_toNat_le]
  omega

theorem Holds.length_slice {length : Nat} (h : s.Holds address length) :
    ((s.bytes.drop (address.toNat - s.base.toNat)).take length).length = length := by
  obtain ⟨-, hinside⟩ := h
  rw [List.length_take, List.length_drop]
  omega

/-- **A read gives the bytes that are shown.** -/
theorem read_eq_ok_iff {length : Nat} {bytes : Bytes} :
    s.read address length = .ok bytes ↔ bytes.length = length ∧ s.Shows address bytes := by
  unfold read
  constructor
  · intro hread
    by_cases hholds : s.Holds address length
    · rw [if_pos hholds, Except.ok.injEq] at hread
      have hlength := hholds.length_slice
      rw [hread] at hlength
      refine ⟨hlength, Shows.iff_slice.mpr ?_⟩
      rw [hlength]
      exact ⟨hholds, hread⟩
    · rw [if_neg hholds] at hread
      cases hread
  · rintro ⟨rfl, hshows⟩
    obtain ⟨hholds, hslice⟩ := Shows.iff_slice.mp hshows
    rw [if_pos hholds, hslice]

/-- **A read can be split** where the address of the second part does not wrap. -/
theorem read_add_iff {n m : Nat} {bytes : Bytes} (h : address.toNat + n < wordLimit) :
    s.read address (n + m) = .ok bytes ↔
      ∃ first second, s.read address n = .ok first ∧ s.read (address + UInt64.ofNat n) m = .ok second ∧
        bytes = first ++ second := by
  simp only [read_eq_ok_iff]
  constructor
  · rintro ⟨hlength, hshows⟩
    have hfirst : (bytes.take n).length = n := by
      rw [List.length_take]
      omega
    rw [← List.take_append_drop n bytes, Shows.append_iff (by rwa [hfirst]), hfirst] at hshows
    refine ⟨bytes.take n, bytes.drop n, ⟨hfirst, hshows.1⟩, ⟨?_, hshows.2⟩, (List.take_append_drop n bytes).symm⟩
    rw [List.length_drop]
    omega
  · rintro ⟨first, second, ⟨rfl, hfirst⟩, ⟨rfl, hsecond⟩, rfl⟩
    exact ⟨List.length_append, (Shows.append_iff h).mpr ⟨hfirst, hsecond⟩⟩

/-- Where that address wraps, the whole can be read and the second part cannot. -/
example :
    let s : Snapshot := ⟨0xfffffffffffffffe, [1, 2, 3, 4]⟩
    s.read 0xfffffffffffffffe 4 = .ok [1, 2, 3, 4] ∧
      s.read (0xfffffffffffffffe + UInt64.ofNat 2) 2 = .error (.io (.snapshot 0xfffffffffffffffe) (.notCaptured 2 0)) := by
  decide +kernel

/-- **A word is read as its eight bytes**, of which none is lost in the word. -/
theorem word_eq_ok_iff {value : UInt64} :
    s.word address = .ok value ↔ s.read address 8 = .ok (ofNat 8 value.toNat) := by
  unfold word
  cases hread : s.read address 8 with
  | error e =>
      constructor
      · intro h
        cases h
      · intro h
        cases h
  | ok bytes =>
      have hlength : bytes.length = 8 := (read_eq_ok_iff.mp hread).1
      have hlt : toNat bytes < UInt64.size := by
        have hlimit := toNat_lt bytes
        rwa [hlength, limit_eight] at hlimit
      change Except.ok (UInt64.ofNat (toNat bytes)) = .ok value ↔ Except.ok bytes = .ok (ofNat 8 value.toNat)
      rw [Except.ok.injEq, Except.ok.injEq]
      constructor
      · rintro rfl
        rw [UInt64.toNat_ofNat_of_lt' hlt, ← hlength, ofNat_toNat]
      · rintro rfl
        have hvalue : value.toNat < limit 8 := value.toNat_lt
        rw [toNat_ofNat, Nat.mod_eq_of_lt hvalue, UInt64.ofNat_toNat]

end Reads

/-! ## Buffers -/

section Buffers

variable {s : Snapshot}

/-- **The steps of a read, with no machine word in the way.** In a window that a memory holds, the end of what is read
    is a word whenever it is inside. -/
theorem stretch?_eq (hmemory : s.bytes.length < wordLimit) (address : UInt64) (length : Nat) :
    s.stretch? address length =
      if s.Holds address length then some ((s.bytes.drop (address.toNat - s.base.toNat)).take length) else none := by
  simp only [stretch?, Option.bind_eq_bind]
  by_cases hbase : s.base ≤ address
  · have hstart : (address - s.base).toNat = address.toNat - s.base.toNat := UInt64.toNat_sub_of_le _ _ hbase
    simp only [if_pos hbase, Option.bind_some, hstart]
    by_cases hinside : address.toNat - s.base.toNat + length ≤ s.bytes.length
    · rw [inWord?_of_lt (Nat.lt_of_le_of_lt hinside hmemory), Option.bind_some, if_pos hinside,
        if_pos ⟨hbase, hinside⟩, Nat.add_sub_cancel_left]
    · rw [if_neg (fun hholds => hinside hholds.2)]
      -- an end that is no word is not inside either
      rcases hend : inWord? (address.toNat - s.base.toNat + length) with _ | finish
      · rfl
      · have hfinish := Option.ite_none_right_eq_some.mp hend
        rw [Option.bind_some, ← Option.some.inj hfinish.2, if_neg hinside]
  · rw [if_neg hbase, if_neg (fun hholds => hbase hholds.1)]
    rfl

/-- Inside the window a buffer becomes the bytes there. -/
theorem fill_of_holds (hmemory : s.bytes.length < wordLimit) {address : UInt64} {buffer : Bytes}
    (h : s.Holds address buffer.length) :
    s.fill address buffer = (.ok (), (s.bytes.drop (address.toNat - s.base.toNat)).take buffer.length) := by
  rw [fill, stretch?_eq hmemory, if_pos h]

/-- Elsewhere it stays as it is. -/
theorem fill_of_not_holds (hmemory : s.bytes.length < wordLimit) {address : UInt64} {buffer : Bytes}
    (h : ¬ s.Holds address buffer.length) :
    s.fill address buffer = (.error (.io (.snapshot s.base) (.notCaptured buffer.length address)), buffer) := by
  rw [fill, stretch?_eq hmemory, if_neg h]

/-- **A buffer is filled by a read** of its length, and left alone when there is none. -/
theorem fill_eq (hmemory : s.bytes.length < wordLimit) (address : UInt64) (buffer : Bytes) :
    s.fill address buffer =
      match s.read address buffer.length with
      | .ok bytes => (.ok (), bytes)
      | .error e => (.error e, buffer) := by
  unfold read
  by_cases hholds : s.Holds address buffer.length
  · rw [if_pos hholds, fill_of_holds hmemory hholds]
  · rw [if_neg hholds, fill_of_not_holds hmemory hholds]

end Buffers

/-! ## Main statement -/

/-- **Reads are exact at every address.** In every window that a memory holds, wherever its base is:
    * A buffer is filled exactly if the address is not before the base and the bytes end in the window, as integers.
      What it then holds is that part of the window; if it is not filled, it is as it was.
    * A read of a length is what is filled into a buffer of this length.
    * A read is two reads, one behind the other, where the address of the second does not wrap.
    * A word is the number of its eight bytes. -/
theorem reads_are_exact (s : Snapshot) (hmemory : s.bytes.length < wordLimit) (address : UInt64) :
    (∀ buffer : Bytes,
      ((s.fill address buffer).1 = .ok () ↔
        (s.base.toNat : Int) ≤ address.toNat ∧
          (address.toNat - s.base.toNat : Int) + buffer.length ≤ s.bytes.length) ∧
      ((s.fill address buffer).1 = .ok () →
        (s.fill address buffer).2 = (s.bytes.drop (address.toNat - s.base.toNat)).take buffer.length) ∧
      (∀ e, (s.fill address buffer).1 = .error e → (s.fill address buffer).2 = buffer ∧ e.status = .io) ∧
      (s.fill address buffer).2.length = buffer.length ∧
      s.fill address buffer =
        match s.read address buffer.length with
        | .ok bytes => (.ok (), bytes)
        | .error e => (.error e, buffer)) ∧
    (∀ n m : Nat, address.toNat + n < wordLimit → ∀ bytes : Bytes,
      (s.read address (n + m) = .ok bytes ↔
        ∃ first second, s.read address n = .ok first ∧ s.read (address + UInt64.ofNat n) m = .ok second ∧
          bytes = first ++ second)) ∧
    ∀ value : UInt64, s.word address = .ok value ↔ s.read address 8 = .ok (ofNat 8 value.toNat) := by
  refine ⟨fun buffer => ?_, fun n m h bytes => read_add_iff h, fun value => word_eq_ok_iff⟩
  rw [← holds_iff, ← fill_eq hmemory]
  by_cases hholds : s.Holds address buffer.length
  · rw [fill_of_holds hmemory hholds]
    refine ⟨⟨fun _ => hholds, fun _ => rfl⟩, fun _ => rfl, ?_, hholds.length_slice, rfl⟩
    intro e he
    cases he
  · rw [fill_of_not_holds hmemory hholds]
    refine ⟨⟨?_, fun h => absurd h hholds⟩, ?_, ?_, rfl, rfl⟩
    · intro hok
      cases hok
    · intro hok
      cases hok
    · intro e he
      cases he
      exact ⟨rfl, rfl⟩

/-- A window across the largest address: what is before that address is read, also past it, and nothing is found at the
    small addresses behind it. -/
theorem reads_are_exact_wrapping :
    let s : Snapshot := ⟨0xfffffffffffffffc, [0, 1, 2, 3, 4, 5, 6, 7, 8, 9, 10, 11]⟩
    s.bytes.length < wordLimit ∧ s.fill 0xfffffffffffffffe [0, 0, 0, 0] = (.ok (), [2, 3, 4, 5]) ∧
      (s.fill 0 [7, 7]).1 ≠ .ok () ∧ s.word 0xfffffffffffffffe = .ok 0x0908070605040302 ∧
      s.read 0xfffffffffffffffe 1 = .ok [2] := by
  intro s
  have hmemory : s.bytes.length < wordLimit := by decide
  obtain ⟨hfill, hsplit, hword⟩ := reads_are_exact s hmemory 0xfffffffffffffffe
  obtain ⟨houtside, -⟩ := (reads_are_exact s hmemory 0).1 [7, 7]
  refine ⟨hmemory, (hfill [0, 0, 0, 0]).2.2.2.2.trans (by decide +kernel), ?_, (hword _).mpr (by decide +kernel), ?_⟩
  · rw [ne_eq, houtside]
    decide
  · obtain ⟨first, second, hfirst, -, hbytes⟩ := (hsplit 1 1 (by decide) [2, 3]).mp (by decide +kernel)
    have hlength := (read_eq_ok_iff.mp hfirst).1
    have hparts : [2] ++ [3] = first ++ second := hbytes
    rw [hfirst, (List.append_inj hparts hlength.symm).1]

end Snapshot

end Unwinder
