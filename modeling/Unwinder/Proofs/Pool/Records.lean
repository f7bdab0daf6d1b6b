import Unwinder.Proofs.Pool.Soundness

/-!
# `Proofs.Pool.Records` — a slot as five fields

A slot is kept as five fields: a state, a module with its path, a count, a stamp and a generation. A pool written that
way changes the fields one by one, and nothing in the type of a slot keeps a module from being in use without having
been taken, or from having a stamp while it is in use. This module writes the pool over such records, shows that it is
the pool of slots, call for call, and that every record keeps its shape.

## Contents
- **Records.** `SlotRecord` with the changes of its fields, and `SlotRecord.Shaped`, what the fields of one state are.
- **The pool of records.** `PoolRecord`, with `acquire`, `release`, `flush` and `run` as they are for slots.
- **Agreement.** `Slot.record` reads the fields of a slot; `acquire_records`, `release_records` and `run_records`: both
  pools answer the same, and are left the same.
- **Main statement.** `records_keep_shape`.
-/

namespace Unwinder

variable {α : Type}

/-! ## Records -/

/-- What a slot is used for. -/
inductive SlotState where
  | unused
  | active
  | warm
  deriving DecidableEq

/-- The fields of a slot. Its numbers have no upper bound, as those of a slot have none. -/
structure SlotRecord (α : Type) where
  state : SlotState
  /-- The module, with the path it was loaded under. -/
  loaded : Option (Path × α)
  count : Nat
  stamp : Option Nat
  generation : Nat

namespace SlotRecord

/-- The record of a slot that has never held anything. -/
def fresh : SlotRecord α := ⟨.unused, none, 0, none, 0⟩

/-- Drops the contents. -/
def clear (s : SlotRecord α) : SlotRecord α :=
  { s with state := .unused, loaded := none, count := 0, stamp := none, generation := s.generation + 1 }

/-- Whether a module is held that was loaded under the same path. -/
def holds (path : Path) (s : SlotRecord α) : Bool :=
  s.state ≠ .unused && s.loaded.any fun loaded => decide (loaded.1.Same path)

/-- Takes the module held once more; a warm one loses its stamp. -/
def retain (s : SlotRecord α) : SlotRecord α :=
  match s.state with
  | .warm => { s with state := .active, count := 1, stamp := none }
  | _ => { s with count := s.count + 1 }

/-- Puts a module into a slot, taken once. The stamp is left as it is. -/
def fill (path : Path) (module : α) (s : SlotRecord α) : SlotRecord α :=
  { s with loaded := some (path, module), state := .active, count := 1 }

/-- Counts the module held once less. -/
def lower (s : SlotRecord α) : SlotRecord α := { s with count := s.count - 1 }

/-- Makes the module held warm from `time` on. -/
def retire (time : Nat) (s : SlotRecord α) : SlotRecord α := { s with state := .warm, stamp := some time }

/-- **The shape of a record**, under a clock: an unused slot has no module, no count and no stamp; a module in use is
    taken and has no stamp; a warm one is not taken and has a stamp that the clock has shown. -/
def Shaped (clock : Nat) (s : SlotRecord α) : Prop :=
  match s.state with
  | .unused => s.loaded = none ∧ s.count = 0 ∧ s.stamp = none
  | .active => s.loaded.isSome ∧ 1 ≤ s.count ∧ s.stamp = none
  | .warm => s.loaded.isSome ∧ s.count = 0 ∧ ∃ since, s.stamp = some since ∧ 1 ≤ since ∧ since ≤ clock

end SlotRecord

/-! ## The pool of records -/

/-- A pool whose slots are records. -/
structure PoolRecord (α : Type) where
  slots : List (SlotRecord α)
  clock : Nat

namespace PoolRecord

/-- A pool without modules. -/
def ofCapacity (n : Nat) : PoolRecord α := ⟨List.replicate n .fresh, 0⟩

/-- Whether one stamp comes before another or is the same. No stamp comes before every stamp. -/
def noLater : Option Nat → Option Nat → Bool
  | none, _ => true
  | some _, none => false
  | some since, some since' => since ≤ since'

/-- The stamp and the place of the first warm record that no other comes before. -/
def oldest? : List (SlotRecord α) → Option (Option Nat × Nat)
  | [] => none
  | s :: ss =>
      let later := (oldest? ss).map fun p => (p.1, p.2 + 1)
      if s.state = .warm then
        match later with
        | none => some (s.stamp, 0)
        | some p => if noLater s.stamp p.1 then some (s.stamp, 0) else some p
      else later

/-- The slot for a new module. -/
def roomFor? (pool : PoolRecord α) : Option Nat :=
  match pool.slots.findIdx? (·.state = .unused) with
  | some i => some i
  | none => (oldest? pool.slots).map (·.2)

/-- The pool with one record changed. -/
def modify (pool : PoolRecord α) (i : Nat) (f : SlotRecord α → SlotRecord α) : PoolRecord α :=
  { pool with slots := pool.slots.modify i f }

theorem modify_modify (pool : PoolRecord α) (i : Nat) (f g : SlotRecord α → SlotRecord α) :
    (pool.modify i f).modify i g = pool.modify i fun s => g (f s) := by
  simp only [modify, List.modify_modify_eq]
  rfl

/-- The handle to the present contents of a slot. -/
def handleAt (pool : PoolRecord α) (i : Nat) : Handle := ⟨i, (pool.slots[i]?.map (·.generation)).getD 0⟩

/-- Takes the module of a path, loading it when the pool does not hold it. -/
def acquire (pool : PoolRecord α) (load : Path → Except Error α) (path : Path) :
    Except Error Handle × PoolRecord α :=
  match pool.slots.findIdx? (·.holds path) with
  | some i => (.ok (pool.handleAt i), pool.modify i .retain)
  | none =>
      match pool.roomFor? with
      | none => (.error (.poolFull pool.slots.length), pool)
      | some i =>
          let cleared := pool.modify i .clear
          match load path with
          | .error e => (.error e, cleared)
          | .ok module => (.ok (cleared.handleAt i), cleared.modify i (.fill path module))

/-- Gives a module back. -/
def release (pool : PoolRecord α) (handle : Handle) : Except Error Unit × PoolRecord α :=
  match pool.slots[handle.slot]? with
  | none => (.error (.misuse (.staleHandle handle)), pool)
  | some s =>
      if s.generation = handle.generation ∧ s.state ≠ .unused then
        if s.count = 0 then (.error (.misuse (.unheldHandle handle)), pool)
        else
          let lowered := pool.modify handle.slot .lower
          if s.count - 1 = 0 then
            (.ok (), { lowered.modify handle.slot (.retire (pool.clock + 1)) with clock := pool.clock + 1 })
          else (.ok (), lowered)
      else (.error (.misuse (.staleHandle handle)), pool)

/-- Drops every module. -/
def flush (pool : PoolRecord α) : PoolRecord α := ⟨pool.slots.map .clear, 0⟩

/-- The answer to a call, and the pool after it. -/
def perform (pool : PoolRecord α) : Pool.Call α → Except Error (Option Handle) × PoolRecord α
  | .acquire load path => ((pool.acquire load path).1.map some, (pool.acquire load path).2)
  | .release handle => ((pool.release handle).1.map fun _ => none, (pool.release handle).2)
  | .flush => (.ok none, pool.flush)

/-- The events of calls in sequence, and the pool after them. -/
def run (pool : PoolRecord α) : List (Pool.Call α) → List (Pool.Event α) × PoolRecord α
  | [] => ([], pool)
  | call :: calls =>
      let after := (pool.perform call).2.run calls
      (⟨call, (pool.perform call).1⟩ :: after.1, after.2)

end PoolRecord

/-! ## Agreement -/

namespace Holding

/-- The state a slot with these contents is in. -/
def state : Holding α → SlotState
  | .unused => .unused
  | .active _ _ _ => .active
  | .warm _ _ _ => .warm

/-- The module held with its path. -/
def loaded? : Holding α → Option (Path × α)
  | .unused => none
  | .active path module _ => some (path, module)
  | .warm path module _ => some (path, module)

end Holding

namespace Slot

/-- The fields of a slot. -/
def record (s : Slot α) : SlotRecord α :=
  ⟨s.holding.state, s.holding.loaded?, s.holding.count, s.holding.since?, s.generation⟩

theorem holds_record (path : Path) (s : Slot α) : s.record.holds path = s.holds path := by
  cases h : s.holding <;>
    simp [record, SlotRecord.holds, holds, h, Holding.state, Holding.loaded?, Holding.path?]

theorem state_record (s : Slot α) : (s.record.state = .unused) = (s.holding.isUnused = true) := by
  cases h : s.holding <;> simp [record, h, Holding.state, Holding.isUnused]

theorem retain_record {s : Slot α} (hused : s.holding ≠ .unused) : s.retain.record = s.record.retain := by
  cases h : s.holding with
  | unused => exact absurd h hused
  | active path module count => simp [record, retain, SlotRecord.retain, h, Holding.state, Holding.loaded?,
      Holding.count, Holding.since?]
  | warm path module since => simp [record, retain, SlotRecord.retain, h, Holding.state, Holding.loaded?,
      Holding.count, Holding.since?]

/-- A record that was cleared has no stamp, so that filling it need not take one away. -/
theorem fill_record (path : Path) (module : α) (s : Slot α) :
    (s.clear.fill path module).record = s.record.clear.fill path module := rfl

/-- Counting down and, for the last time, stamping is giving back. -/
theorem letGo_record {s : Slot α} {time : Nat} {path : Path} {module : α} {count : Nat}
    (hactive : s.holding = .active path module count) :
    (s.letGo time).record = if count - 1 = 0 then s.record.lower.retire time else s.record.lower := by
  rw [letGo_of_active time hactive]
  by_cases hlast : count ≤ 1
  · have hzero : count - 1 = 0 := by omega
    simp [hlast, record, hactive, SlotRecord.lower, SlotRecord.retire, hzero, Holding.state, Holding.loaded?,
      Holding.count, Holding.since?]
  · have hmore : count - 1 ≠ 0 := by omega
    simp [hlast, record, hactive, SlotRecord.lower, hmore, Holding.state, Holding.loaded?, Holding.count,
      Holding.since?]

end Slot

namespace Pool

/-- The pool of the records of the slots. -/
def records (pool : Pool α) : PoolRecord α := ⟨pool.slots.map Slot.record, pool.clock⟩

theorem records_ofCapacity (n : Nat) : (ofCapacity n : Pool α).records = PoolRecord.ofCapacity n := by
  simp only [records, ofCapacity, PoolRecord.ofCapacity, List.map_replicate]
  rfl

theorem getElem?_records (pool : Pool α) (i : Nat) : pool.records.slots[i]? = pool.slots[i]?.map Slot.record :=
  List.getElem?_map

theorem getElem?_records_eq_some {pool : Pool α} {i : Nat} {r : SlotRecord α} :
    pool.records.slots[i]? = some r ↔ ∃ s, pool.slots[i]? = some s ∧ s.record = r := by
  rw [getElem?_records, Option.map_eq_some_iff]

theorem handleAt_records (pool : Pool α) (i : Nat) : pool.records.handleAt i = pool.handleAt i := by
  rw [PoolRecord.handleAt, handleAt, getElem?_records]
  cases pool.slots[i]? <;> rfl

/-- **A change of one slot** is the change of its record. -/
theorem records_modify {pool : Pool α} {i : Nat} {s : Slot α} {f : Slot α → Slot α}
    {g : SlotRecord α → SlotRecord α} (hs : pool.slots[i]? = some s) (hchange : (f s).record = g s.record) :
    (pool.modify i f).records = pool.records.modify i g := by
  have hslots : (pool.modify i f).records.slots = pool.records.slots.modify i g := by
    apply List.ext_getElem?
    intro j
    rw [getElem?_records, getElem?_modify_slots hs]
    by_cases hj : j = i
    · rw [if_pos hj, hj, List.getElem?_modify_eq, getElem?_records, hs]
      simp [hchange]
    · rw [if_neg hj, List.getElem?_modify_ne g _ (Ne.symm hj), getElem?_records]
  rw [PoolRecord.modify, ← hslots]
  rfl

/-- Both pools find the same slot for a path. -/
theorem slotOf?_records (pool : Pool α) (path : Path) :
    pool.records.slots.findIdx? (·.holds path) = pool.slotOf? path := by
  rw [slotOf?, records, List.findIdx?_map]
  congr 1
  funext s
  exact s.holds_record path

/-- Both pools choose the same warm module to go. -/
theorem oldest?_records (slots : List (Slot α)) :
    PoolRecord.oldest? (slots.map Slot.record) = (oldest? slots).map fun p => (some p.1, p.2) := by
  induction slots with
  | nil => rfl
  | cons s ss ih =>
    rw [List.map_cons, PoolRecord.oldest?, oldest?_cons, ih]
    cases hholding : s.holding with
    | unused | active path module count =>
      cases oldest? ss <;> simp [Slot.record, hholding, Holding.state, Holding.since?]
    | warm path module since =>
      cases oldest? ss with
      | none => simp [Slot.record, hholding, Holding.state, Holding.since?]
      | some p =>
        by_cases hle : since ≤ p.1 <;>
          simp [Slot.record, hholding, Holding.state, Holding.since?, PoolRecord.noLater, hle]

/-- Both pools choose the same slot for a new module. -/
theorem roomFor?_records (pool : Pool α) : pool.records.roomFor? = pool.roomFor? := by
  have hunused : pool.records.slots.findIdx? (·.state = .unused) = pool.slots.findIdx? (·.holding.isUnused) := by
    rw [records, List.findIdx?_map]
    congr 1
    funext s
    simp [s.state_record]
  rw [PoolRecord.roomFor?, roomFor?, hunused]
  cases pool.slots.findIdx? (·.holding.isUnused) with
  | some i => rfl
  | none =>
    simp only [records, oldest?_records]
    cases oldest? pool.slots <;> rfl

/-- **`acquire` is the same over records.** -/
theorem acquire_records (pool : Pool α) (load : Path → Except Error α) (path : Path) :
    pool.records.acquire load path = ((pool.acquire load path).1, (pool.acquire load path).2.records) := by
  rw [PoolRecord.acquire, acquire, slotOf?_records, roomFor?_records]
  cases hfound : pool.slotOf? path with
  | some i =>
    obtain ⟨s, hs, hholds⟩ := slotOf?_eq_some hfound
    have hused : s.holding ≠ .unused := by
      intro hunused
      rw [Slot.not_holds_of_unused hunused] at hholds
      cases hholds
    simp only [handleAt_records, records_modify hs (Slot.retain_record hused)]
  | none =>
    cases hroom : pool.roomFor? with
    | none => simp [records, capacity]
    | some i =>
      obtain ⟨s, hs, -⟩ := roomFor?_eq_some hroom
      have hclear : (pool.modify i .clear).records = pool.records.modify i .clear := records_modify hs rfl
      cases load path with
      | error e => simp only [hclear]
      | ok module =>
        have hcleared : (pool.modify i .clear).slots[i]? = some s.clear := by
          rw [getElem?_modify_slots hs, if_pos rfl]
        have hfill : ((pool.modify i .clear).modify i (.fill path module)).records =
            (pool.modify i .clear).records.modify i (.fill path module) :=
          records_modify hcleared (Slot.fill_record path module s)
        simp only [hfill, ← hclear, handleAt_records]

/-- **`release` is the same over records.** -/
theorem release_records (pool : Pool α) (handle : Handle) :
    pool.records.release handle = ((pool.release handle).1, (pool.release handle).2.records) := by
  have houtcome := release_outcome pool handle
  generalize pool.release handle = outcome at houtcome
  -- a record passes for valid when the slot does
  have hvalid : ∀ {s : Slot α}, s.generation = handle.generation → s.holding ≠ .unused →
      s.record.generation = handle.generation ∧ s.record.state ≠ .unused := by
    intro s hgeneration hused
    refine ⟨hgeneration, ?_⟩
    rw [ne_eq, s.state_record, Holding.isUnused_iff]
    exact hused
  rw [PoolRecord.release, getElem?_records]
  cases houtcome with
  | stale hstale =>
    cases hs : pool.slots[handle.slot]? with
    | none => rfl
    | some s =>
      have hnot : ¬ (s.record.generation = handle.generation ∧ s.record.state ≠ .unused) := by
        rintro ⟨hgeneration, hstate⟩
        rw [ne_eq, s.state_record, Holding.isUnused_iff] at hstate
        rw [occupied_eq_ok.mpr ⟨s, hs, hgeneration, rfl, hstate⟩] at hstale
        cases hstale
      simp only [Option.map_some, if_neg hnot]
  | @unheld s hs hgeneration hused hcount =>
    have hzero : s.record.count = 0 := hcount
    simp only [hs, Option.map_some, if_pos (hvalid hgeneration hused), if_pos hzero]
  | @lowered s path module count hs hgeneration hactive =>
    have hused : s.holding ≠ .unused := by simp [hactive]
    have hcount : s.record.count = count + 2 := by simp [Slot.record, hactive, Holding.count]
    have hmore : ¬ s.record.count - 1 = 0 := by omega
    have hlower : (s.letGo (pool.clock + 1)).record = s.record.lower := by
      rw [Slot.letGo_record hactive, if_neg (by omega)]
    simp only [hs, Option.map_some, if_pos (hvalid hgeneration hused), if_neg hmore, records_modify hs hlower]
    rw [if_neg (by omega)]
  | @last s path module hs hgeneration hactive =>
    have hused : s.holding ≠ .unused := by simp [hactive]
    have hcount : s.record.count = 1 := by simp [Slot.record, hactive, Holding.count]
    have hretire : (s.letGo (pool.clock + 1)).record = s.record.lower.retire (pool.clock + 1) := by
      rw [Slot.letGo_record hactive, if_pos rfl]
    have hrecords := records_modify (g := fun s => s.lower.retire (pool.clock + 1)) hs hretire
    simp only [hs, Option.map_some, if_pos (hvalid hgeneration hused), hcount, Nat.sub_self, if_pos,
      PoolRecord.modify_modify]
    rw [if_neg Nat.one_ne_zero]
    exact congrArg (fun records => (Except.ok (), { records with clock := pool.clock + 1 })) hrecords.symm

/-- **A call is the same over records.** -/
theorem perform_records (pool : Pool α) (call : Call α) :
    pool.records.perform call = ((pool.perform call).1, (pool.perform call).2.records) := by
  cases call with
  | acquire load path => simp only [PoolRecord.perform, perform, acquire_records]
  | release handle => simp only [PoolRecord.perform, perform, release_records]
  | flush =>
    have hflush : pool.records.flush = pool.flush.records := by
      simp only [PoolRecord.flush, flush, records, List.map_map]
      rfl
    simp only [PoolRecord.perform, perform, hflush]

/-- **A run is the same over records.** -/
theorem run_records (pool : Pool α) (calls : List (Call α)) :
    pool.records.run calls = ((pool.run calls).1, (pool.run calls).2.records) := by
  induction calls generalizing pool with
  | nil => rfl
  | cons call calls ih => simp only [PoolRecord.run, run, perform_records, ih]

end Pool

/-! ## Main statement -/

namespace PoolRecord

/-- **A pool of `n` records in shape.** Every record has the shape of its state, no two warm ones have one stamp, and no
    two hold modules of one path. -/
structure InShape (n : Nat) (pool : PoolRecord α) : Prop where
  capacity : pool.slots.length = n
  shaped : ∀ s ∈ pool.slots, s.Shaped pool.clock
  stamps : ∀ (i j : Nat) (s t : SlotRecord α), pool.slots[i]? = some s → pool.slots[j]? = some t →
    s.state = .warm → t.state = .warm → s.stamp = t.stamp → i = j
  paths : ∀ (i j : Nat) (s t : SlotRecord α) (loaded loaded' : Path × α), pool.slots[i]? = some s →
    pool.slots[j]? = some t → s.loaded = some loaded → t.loaded = some loaded' → loaded.1.Same loaded'.1 → i = j

end PoolRecord

namespace Holding

/-- A warm module has a stamp. -/
theorem since_of_warm {h : Holding α} (hwarm : h.state = .warm) : ∃ since, h.since? = some since := by
  cases h with
  | unused => cases hwarm
  | active path module count => cases hwarm
  | warm path module since => exact ⟨since, rfl⟩

theorem path?_of_loaded {h : Holding α} {loaded : Path × α} (hloaded : h.loaded? = some loaded) :
    h.path? = some loaded.1 := by
  cases h with
  | unused => cases hloaded
  | active path module count | warm path module since =>
    cases hloaded
    rfl

end Holding

namespace Pool.Sound

variable {n : Nat} {pool : Pool α}

/-- The record of a slot of a sound pool has the shape of its state. -/
theorem shaped (h : pool.Sound n) {s : Slot α} (hs : s ∈ pool.slots) : s.record.Shaped pool.clock := by
  rw [SlotRecord.Shaped]
  cases hholding : s.holding with
  | unused => simp [Slot.record, hholding, Holding.state, Holding.loaded?, Holding.count, Holding.since?]
  | active path module count =>
    have hcount : 1 ≤ count := h.taken s hs path module count hholding
    simpa [Slot.record, hholding, Holding.state, Holding.loaded?, Holding.count, Holding.since?] using hcount
  | warm path module since =>
    have hsince : 1 ≤ since ∧ since ≤ pool.clock := h.ticked s hs since (by rw [hholding]; rfl)
    simpa [Slot.record, hholding, Holding.state, Holding.loaded?, Holding.count, Holding.since?] using hsince

/-- **The records of a sound pool are in shape.** -/
theorem inShape (h : pool.Sound n) : pool.records.InShape n := by
  refine ⟨?_, ?_, ?_, ?_⟩
  · rw [records, List.length_map]
    exact h.capacity
  · intro s hs
    obtain ⟨t, ht, rfl⟩ := List.mem_map.mp hs
    exact h.shaped ht
  · intro i j s t hs ht hswarm _ hstamp
    obtain ⟨u, hu, rfl⟩ := getElem?_records_eq_some.mp hs
    obtain ⟨v, hv, rfl⟩ := getElem?_records_eq_some.mp ht
    obtain ⟨since, hsince⟩ := Holding.since_of_warm hswarm
    exact h.stamps i j u v since hu hv hsince (hstamp.symm.trans hsince)
  · intro i j s t loaded loaded' hs ht hsloaded htloaded hsame
    obtain ⟨u, hu, rfl⟩ := getElem?_records_eq_some.mp hs
    obtain ⟨v, hv, rfl⟩ := getElem?_records_eq_some.mp ht
    exact h.paths i j u v loaded.1 loaded'.1 hu hv (Holding.path?_of_loaded hsloaded)
      (Holding.path?_of_loaded htloaded) hsame

end Pool.Sound

namespace PoolRecord

/-- **Records keep their shape.** Every run of calls on a pool of `n` records, whatever loading gives each time, has the
    answers and the fields that the run has on the pool of slots, and leaves records that are in shape. Along every
    continuation of the run the generation of a record never decreases. -/
theorem records_keep_shape (n : Nat) (calls : List (Pool.Call α)) :
    (ofCapacity n).run calls = (((Pool.ofCapacity n).run calls).1, ((Pool.ofCapacity n).run calls).2.records) ∧
      ((ofCapacity n).run calls).2.InShape n ∧
      ∀ (later : List (Pool.Call α)) (i : Nat) (s : SlotRecord α),
        ((ofCapacity n).run calls).2.slots[i]? = some s →
        ∃ t, (((ofCapacity n).run calls).2.run later).2.slots[i]? = some t ∧ s.generation ≤ t.generation := by
  have hrun : (ofCapacity n).run calls =
      (((Pool.ofCapacity n).run calls).1, ((Pool.ofCapacity n).run calls).2.records) := by
    rw [← Pool.records_ofCapacity, Pool.run_records]
  rw [hrun]
  refine ⟨rfl, (Pool.sound_run n calls).inShape, ?_⟩
  intro later i s hs
  obtain ⟨u, hu, rfl⟩ := Pool.getElem?_records_eq_some.mp hs
  obtain ⟨t, ht, hle⟩ := Pool.generations_grow hu later
  refine ⟨t.record, ?_, hle⟩
  rw [Pool.run_records, Pool.getElem?_records, ht]
  rfl

end PoolRecord

end Unwinder
