import Unwinder.Pool

/-!
# `Proofs.Pool.Calls` — what the calls on a pool can do

Everything else that is proved of the pool rests on the inversions of this module. They say once, with all their
conditions, which slot a call chooses, what it answers and how that slot changes; no later proof opens the
definitions of the operations.

## Contents
- **Slots.** What `slotOf?` and `roomFor?` find, and how `modify` changes a list of slots.
- **Outcomes.** `Acquires` and `Releases` list the outcomes of the two operations, `acquire_outcome` and
  `release_outcome` show the lists to be complete. `get_of_occupied` and `refused_of_occupied` say what the other
  operations answer.
- **Runs.** `Call`, `Event` and `run`, with `run_induction`: what holds at the start and is kept by every call holds
  after every run.
-/

namespace Unwinder

variable {α : Type}

namespace Holding

theorem isUnused_iff {h : Holding α} : h.isUnused = true ↔ h = .unused := by
  cases h <;> simp [isUnused]

/-- What is held and not in use is warm. -/
theorem eq_warm_of_since {h : Holding α} {since : Nat} (hsince : h.since? = some since) :
    ∃ path module, h = .warm path module since := by
  cases h with
  | unused => cases hsince
  | active path module count => cases hsince
  | warm path module since' =>
      cases hsince
      exact ⟨path, module, rfl⟩

theorem ne_unused_of_path? {h : Holding α} {path : Path} (hpath : h.path? = some path) : h ≠ .unused := by
  rintro rfl
  cases hpath

end Holding

namespace Slot

theorem holds_iff {s : Slot α} {path : Path} :
    s.holds path = true ↔ ∃ held, s.holding.path? = some held ∧ held.Same path := by
  unfold holds
  cases s.holding.path? with
  | none => simp
  | some held => simp

/-- An unused slot holds no path. -/
theorem not_holds_of_unused {s : Slot α} {path : Path} (h : s.holding = .unused) : s.holds path = false := by
  simp [holds, h, Holding.path?]

theorem retain_of_active {s : Slot α} {path : Path} {module : α} {count : Nat}
    (h : s.holding = .active path module count) : s.retain = ⟨.active path module (count + 1), s.generation⟩ := by
  rw [retain, h]

theorem retain_of_warm {s : Slot α} {path : Path} {module : α} {since : Nat}
    (h : s.holding = .warm path module since) : s.retain = ⟨.active path module 1, s.generation⟩ := by
  rw [retain, h]

@[simp] theorem retain_generation (s : Slot α) : s.retain.generation = s.generation := by
  unfold retain
  split <;> rfl

@[simp] theorem retain_path? (s : Slot α) : s.retain.holding.path? = s.holding.path? := by
  cases h : s.holding <;> simp [retain, h, Holding.path?]

@[simp] theorem retain_module? (s : Slot α) : s.retain.holding.module? = s.holding.module? := by
  cases h : s.holding <;> simp [retain, h, Holding.module?]

theorem retain_count {s : Slot α} (hused : s.holding ≠ .unused) : s.retain.holding.count = s.holding.count + 1 := by
  cases h : s.holding with
  | unused => exact absurd h hused
  | active path module count => simp [retain, h, Holding.count]
  | warm path module since => simp [retain, h, Holding.count]

/-- Given back for the last time, a module becomes warm; otherwise it stays in use. -/
theorem letGo_of_active {s : Slot α} {path : Path} {module : α} {count : Nat} (time : Nat)
    (h : s.holding = .active path module count) :
    s.letGo time =
      ⟨if count ≤ 1 then .warm path module time else .active path module (count - 1), s.generation⟩ := by
  simp only [letGo, h]
  by_cases hle : count ≤ 1
  · rw [if_pos hle, if_pos hle]
  · rw [if_neg hle, if_neg hle]

theorem letGo_of_many {s : Slot α} {path : Path} {module : α} {count : Nat} (time : Nat)
    (h : s.holding = .active path module (count + 2)) :
    s.letGo time = ⟨.active path module (count + 1), s.generation⟩ := by
  rw [letGo_of_active time h, if_neg (by omega)]
  rfl

theorem letGo_of_one {s : Slot α} {path : Path} {module : α} (time : Nat)
    (h : s.holding = .active path module 1) : s.letGo time = ⟨.warm path module time, s.generation⟩ := by
  rw [letGo_of_active time h, if_pos (Nat.le_refl 1)]

@[simp] theorem letGo_generation (s : Slot α) (time : Nat) : (s.letGo time).generation = s.generation := by
  unfold letGo
  split
  · split <;> rfl
  · rfl

theorem letGo_of_not_active {s : Slot α} (time : Nat)
    (h : ∀ path module count, s.holding ≠ .active path module count) : s.letGo time = s := by
  unfold letGo
  split
  · rename_i path module count hactive
    exact absurd hactive (h path module count)
  · rfl

@[simp] theorem letGo_path? (s : Slot α) (time : Nat) : (s.letGo time).holding.path? = s.holding.path? := by
  cases h : s.holding with
  | active path module count =>
      rw [letGo_of_active time h]
      split <;> rfl
  | _ => rw [letGo_of_not_active time (by simp [h]), h]

@[simp] theorem letGo_module? (s : Slot α) (time : Nat) : (s.letGo time).holding.module? = s.holding.module? := by
  cases h : s.holding with
  | active path module count =>
      rw [letGo_of_active time h]
      split <;> rfl
  | _ => rw [letGo_of_not_active time (by simp [h]), h]

@[simp] theorem letGo_count (s : Slot α) (time : Nat) : (s.letGo time).holding.count = s.holding.count - 1 := by
  cases h : s.holding with
  | active path module count =>
      rw [letGo_of_active time h]
      split
      · -- a warm module counts as one that is not taken
        show 0 = count - 1
        omega
      · rfl
  | _ =>
      rw [letGo_of_not_active time (by simp [h]), h]
      rfl

end Slot

namespace Pool

/-! ## Slots -/

/-- The slot found for a path holds it. -/
theorem slotOf?_eq_some {pool : Pool α} {path : Path} {i : Nat} (h : pool.slotOf? path = some i) :
    ∃ s, pool.slots[i]? = some s ∧ s.holds path = true := by
  obtain ⟨hi, hholds, _⟩ := List.findIdx?_eq_some_iff_getElem.mp h
  exact ⟨pool.slots[i], List.getElem?_eq_getElem hi, hholds⟩

theorem slotOf?_eq_none {pool : Pool α} {path : Path} (h : pool.slotOf? path = none) :
    ∀ s ∈ pool.slots, s.holds path = false := List.findIdx?_eq_none_iff.mp h

/-- The longest warm of a slot and of those after it. -/
theorem oldest?_cons (s : Slot α) (ss : List (Slot α)) :
    oldest? (s :: ss) =
      match s.holding.since?, oldest? ss with
      | none, none => none
      | none, some p => some (p.1, p.2 + 1)
      | some since, none => some (since, 0)
      | some since, some p => if since ≤ p.1 then some (since, 0) else some (p.1, p.2 + 1) := by
  rw [oldest?]
  cases s.holding.since? <;> cases oldest? ss <;> rfl

theorem oldest?_eq_none {slots : List (Slot α)} (h : oldest? slots = none) :
    ∀ s ∈ slots, s.holding.since? = none := by
  induction slots with
  | nil => exact fun s hs => by cases hs
  | cons s ss ih =>
      rw [oldest?_cons] at h
      cases hsince : s.holding.since? with
      | none =>
          cases hrest : oldest? ss with
          | none => exact List.forall_mem_cons.mpr ⟨hsince, ih hrest⟩
          | some p =>
              rw [hsince, hrest] at h
              cases h
      | some since =>
          rw [hsince] at h
          cases hrest : oldest? ss with
          | none =>
              rw [hrest] at h
              cases h
          | some p =>
              rw [hrest] at h
              simp only at h
              split at h <;> cases h

/-- **The longest warm.** The slot found holds a warm module, and none is warm since earlier. -/
theorem oldest?_eq_some {slots : List (Slot α)} {time i : Nat} (h : oldest? slots = some (time, i)) :
    ∃ s, slots[i]? = some s ∧ s.holding.since? = some time ∧
      ∀ t ∈ slots, ∀ since, t.holding.since? = some since → time ≤ since := by
  induction slots generalizing time i with
  | nil => cases h
  | cons s ss ih =>
      rw [oldest?_cons] at h
      -- where the rest has one, it bounds the rest; the comparison bounds it against the first slot
      cases hsince : s.holding.since? with
      | none =>
          cases hrest : oldest? ss with
          | none =>
              rw [hsince, hrest] at h
              cases h
          | some p =>
              rw [hsince, hrest] at h
              cases h
              obtain ⟨found, hfound, htime, hleast⟩ := ih hrest
              refine ⟨found, hfound, htime, List.forall_mem_cons.mpr ⟨?_, hleast⟩⟩
              simp [hsince]
      | some first =>
          cases hrest : oldest? ss with
          | none =>
              rw [hsince, hrest] at h
              cases h
              refine ⟨s, rfl, hsince, List.forall_mem_cons.mpr ⟨?_, ?_⟩⟩
              · simp [hsince]
              · intro t ht since htsince
                rw [oldest?_eq_none hrest t ht] at htsince
                cases htsince
          | some p =>
              rw [hsince, hrest] at h
              obtain ⟨found, hfound, htime, hleast⟩ := ih hrest
              by_cases hle : first ≤ p.1
              · simp only [if_pos hle, Option.some.injEq, Prod.mk.injEq] at h
                obtain ⟨rfl, rfl⟩ := h
                refine ⟨s, rfl, hsince, List.forall_mem_cons.mpr ⟨by simp [hsince], ?_⟩⟩
                exact fun t ht since htsince => Nat.le_trans hle (hleast t ht since htsince)
              · simp only [if_neg hle, Option.some.injEq, Prod.mk.injEq] at h
                obtain ⟨rfl, rfl⟩ := h
                refine ⟨found, hfound, htime, List.forall_mem_cons.mpr ⟨?_, hleast⟩⟩
                intro since htsince
                rw [hsince] at htsince
                cases htsince
                omega

/-- A slot that is neither unused nor warm is in use. -/
theorem active_of_not_unused {s : Slot α} (hused : s.holding.isUnused = false) (hwarm : s.holding.since? = none) :
    ∃ path module count, s.holding = .active path module count := by
  cases h : s.holding with
  | unused => simp [h, Holding.isUnused] at hused
  | active path module count => exact ⟨path, module, count, rfl⟩
  | warm path module since => simp [h, Holding.since?] at hwarm

/-- What a slot chosen for a new module holds: nothing, or, when no slot is unused, the module that has been warm for
    the longest. -/
def HasRoom (pool : Pool α) (s : Slot α) : Prop :=
  s.holding = .unused ∨
    (∀ t ∈ pool.slots, t.holding ≠ .unused) ∧
      ∃ path module since, s.holding = .warm path module since ∧
        ∀ t ∈ pool.slots, ∀ later, t.holding.since? = some later → since ≤ later

theorem roomFor?_eq_some {pool : Pool α} {i : Nat} (h : pool.roomFor? = some i) :
    ∃ s, pool.slots[i]? = some s ∧ HasRoom pool s := by
  unfold roomFor? at h
  split at h
  · rename_i j hunused
    cases h
    obtain ⟨hi, hs, _⟩ := List.findIdx?_eq_some_iff_getElem.mp hunused
    exact ⟨pool.slots[i], List.getElem?_eq_getElem hi, .inl (Holding.isUnused_iff.mp hs)⟩
  · rename_i hnone
    obtain ⟨p, hp, hi⟩ := Option.map_eq_some_iff.mp h
    have holdest : oldest? pool.slots = some (p.1, i) := by rw [hp, ← hi]
    obtain ⟨s, hs, hsince, hleast⟩ := oldest?_eq_some holdest
    obtain ⟨path, module, hwarm⟩ := Holding.eq_warm_of_since hsince
    refine ⟨s, hs, .inr ⟨?_, path, module, p.1, hwarm, hleast⟩⟩
    intro t ht hunused
    have hused := List.findIdx?_eq_none_iff.mp hnone t ht
    rw [hunused] at hused
    cases hused

/-- There is no room exactly when every module is in use. -/
theorem roomFor?_eq_none {pool : Pool α} (h : pool.roomFor? = none) :
    ∀ s ∈ pool.slots, ∃ path module count, s.holding = .active path module count := by
  unfold roomFor? at h
  split at h
  · cases h
  · rename_i hnone
    intro s hs
    have hwarm := oldest?_eq_none (Option.map_eq_none_iff.mp h) s hs
    exact active_of_not_unused (List.findIdx?_eq_none_iff.mp hnone s hs) hwarm

@[simp] theorem length_modify (pool : Pool α) (i : Nat) (f : Slot α → Slot α) :
    (pool.modify i f).slots.length = pool.slots.length := List.length_modify f pool.slots i

/-- The slots after one of them has been changed. -/
theorem getElem?_modify_slots {pool : Pool α} {i : Nat} {s : Slot α} (hs : pool.slots[i]? = some s)
    (f : Slot α → Slot α) (j : Nat) :
    (pool.modify i f).slots[j]? = if j = i then some (f s) else pool.slots[j]? := by
  rw [modify]
  by_cases hj : j = i
  · rw [if_pos hj, hj, List.getElem?_modify_eq, hs]
    rfl
  · rw [if_neg hj, List.getElem?_modify_ne f pool.slots (Ne.symm hj)]

/-! ## Outcomes -/

/-- **Outcomes of `acquire`**, with the pool that is left. -/
inductive Acquires (pool : Pool α) (load : Path → Except Error α) (path : Path) :
    Except Error Handle × Pool α → Prop where
  /-- The path is held: its module is taken once more. -/
  | again {i : Nat} {s : Slot α} (hs : pool.slots[i]? = some s) (hholds : s.holds path = true) :
      Acquires pool load path (.ok ⟨i, s.generation⟩, pool.modify i .retain)
  /-- Every module is in use. -/
  | full (hunknown : ∀ s ∈ pool.slots, s.holds path = false) (hroom : pool.roomFor? = none) :
      Acquires pool load path (.error (.poolFull pool.capacity), pool)
  /-- The module cannot be loaded; the slot chosen for it is left empty. -/
  | failed {i : Nat} {s : Slot α} {e : Error} (hunknown : ∀ s ∈ pool.slots, s.holds path = false)
      (hs : pool.slots[i]? = some s) (hroom : HasRoom pool s) (hload : load path = .error e) :
      Acquires pool load path (.error e, pool.modify i .clear)
  /-- The module is loaded into the slot chosen for it. -/
  | loaded {i : Nat} {s : Slot α} {module : α} (hunknown : ∀ s ∈ pool.slots, s.holds path = false)
      (hs : pool.slots[i]? = some s) (hroom : HasRoom pool s) (hload : load path = .ok module) :
      Acquires pool load path
        (.ok ⟨i, s.generation + 1⟩, pool.modify i fun s => (s.clear).fill path module)

theorem modify_modify (pool : Pool α) (i : Nat) (f g : Slot α → Slot α) :
    (pool.modify i f).modify i g = pool.modify i fun s => g (f s) := by
  simp only [modify, List.modify_modify_eq]
  rfl

theorem handleAt_eq {pool : Pool α} {i : Nat} {s : Slot α} (hs : pool.slots[i]? = some s) :
    pool.handleAt i = ⟨i, s.generation⟩ := by
  simp [handleAt, hs]

theorem acquire_outcome (pool : Pool α) (load : Path → Except Error α) (path : Path) :
    Acquires pool load path (pool.acquire load path) := by
  unfold acquire
  cases hslot : pool.slotOf? path with
  | some i =>
      obtain ⟨s, hs, hholds⟩ := slotOf?_eq_some hslot
      simp only [handleAt_eq hs]
      exact .again hs hholds
  | none =>
      have hunknown := slotOf?_eq_none hslot
      cases hroom : pool.roomFor? with
      | none => exact .full hunknown hroom
      | some i =>
          obtain ⟨s, hs, hhas⟩ := roomFor?_eq_some hroom
          cases hload : load path with
          | error e => exact .failed hunknown hs hhas hload
          | ok module =>
              -- the handle is that of the slot once it is cleared
              have hcleared : (pool.modify i .clear).slots[i]? = some s.clear := by
                rw [getElem?_modify_slots hs, if_pos rfl]
              simp only [handleAt_eq hcleared, modify_modify]
              exact .loaded hunknown hs hhas hload

/-- Taking a module never makes one warm. -/
theorem acquire_clock (pool : Pool α) (load : Path → Except Error α) (path : Path) :
    (pool.acquire load path).2.clock = pool.clock := by
  have houtcome := acquire_outcome pool load path
  generalize pool.acquire load path = outcome at houtcome ⊢
  cases houtcome <;> rfl

/-- Nothing is loaded for a path that a slot holds. -/
theorem acquire_of_holds {pool : Pool α} {s : Slot α} {path : Path} (hs : s ∈ pool.slots)
    (hholds : s.holds path = true) (load load' : Path → Except Error α) :
    pool.acquire load path = pool.acquire load' path := by
  unfold acquire
  cases hslot : pool.slotOf? path with
  | some i => rfl
  | none =>
      have hunknown := slotOf?_eq_none hslot s hs
      rw [hholds] at hunknown
      cases hunknown

/-- What a valid handle names. -/
theorem occupied_eq_ok {pool : Pool α} {handle : Handle} {holding : Holding α} :
    pool.occupied handle = .ok holding ↔
      ∃ s, pool.slots[handle.slot]? = some s ∧ s.generation = handle.generation ∧ s.holding = holding ∧
        holding ≠ .unused := by
  unfold occupied
  cases hs : pool.slots[handle.slot]? with
  | none => simp
  | some s =>
      by_cases hvalid : s.generation = handle.generation ∧ (!s.holding.isUnused) = true
      · simp only [if_pos hvalid]
        have hused : s.holding ≠ .unused := by
          intro hunused
          simp [hunused, Holding.isUnused] at hvalid
        constructor
        · intro h
          cases h
          exact ⟨s, rfl, hvalid.1, rfl, hused⟩
        · rintro ⟨s', hs', _, hholding, _⟩
          cases hs'
          rw [hholding]
      · simp only [if_neg hvalid]
        constructor
        · intro h
          cases h
        · rintro ⟨s', hs', hgeneration, hholding, hused⟩
          cases hs'
          refine absurd ⟨hgeneration, ?_⟩ hvalid
          rw [hholding, Bool.not_eq_true', Bool.eq_false_iff]
          exact fun hunused => hused (Holding.isUnused_iff.mp hunused)

/-- A handle that is not valid is stale. -/
theorem occupied_eq_error {pool : Pool α} {handle : Handle} {e : Error} (h : pool.occupied handle = .error e) :
    e = .misuse (.staleHandle handle) := by
  unfold occupied at h
  split at h
  · split at h
    · cases h
    · cases h
      rfl
  · cases h
    rfl

/-- What a valid handle gives access to. -/
theorem get_of_occupied {pool : Pool α} {handle : Handle} {holding : Holding α}
    (hoccupied : pool.occupied handle = .ok holding) :
    ∃ path module, holding.path? = some path ∧ holding.module? = some module ∧ pool.pathOf handle = .ok path ∧
      pool.get handle = .ok module := by
  obtain ⟨-, -, -, -, hused⟩ := occupied_eq_ok.mp hoccupied
  cases holding with
  | unused => exact absurd rfl hused
  | active path module count | warm path module since =>
      refine ⟨path, module, rfl, rfl, ?_, ?_⟩
      · rw [pathOf, hoccupied]
        rfl
      · rw [get, hoccupied]
        rfl

/-- A handle that is not valid is refused everywhere, in the same way. -/
theorem refused_of_occupied {pool : Pool α} {handle : Handle} {e : Error} (hoccupied : pool.occupied handle = .error e) :
    pool.get handle = .error e ∧ pool.pathOf handle = .error e ∧ pool.release handle = (.error e, pool) := by
  refine ⟨?_, ?_, ?_⟩
  · rw [get, hoccupied]
    rfl
  · rw [pathOf, hoccupied]
    rfl
  · rw [release, hoccupied]

/-- **Outcomes of `release`**, with the pool that is left. -/
inductive Releases (pool : Pool α) (handle : Handle) : Except Error Unit × Pool α → Prop where
  /-- The handle's contents are gone. -/
  | stale (hstale : pool.occupied handle = .error (.misuse (.staleHandle handle))) :
      Releases pool handle (.error (.misuse (.staleHandle handle)), pool)
  /-- The module has been given back as often as it was taken. -/
  | unheld {s : Slot α} (hs : pool.slots[handle.slot]? = some s) (hgeneration : s.generation = handle.generation)
      (hused : s.holding ≠ .unused) (hcount : s.holding.count = 0) :
      Releases pool handle (.error (.misuse (.unheldHandle handle)), pool)
  /-- The module stays in use. -/
  | lowered {s : Slot α} {path : Path} {module : α} {count : Nat} (hs : pool.slots[handle.slot]? = some s)
      (hgeneration : s.generation = handle.generation) (hactive : s.holding = .active path module (count + 2)) :
      Releases pool handle (.ok (), pool.modify handle.slot (.letGo (pool.clock + 1)))
  /-- Nobody uses the module any more. -/
  | last {s : Slot α} {path : Path} {module : α} (hs : pool.slots[handle.slot]? = some s)
      (hgeneration : s.generation = handle.generation) (hactive : s.holding = .active path module 1) :
      Releases pool handle
        (.ok (), { pool.modify handle.slot (.letGo (pool.clock + 1)) with clock := pool.clock + 1 })

theorem release_outcome (pool : Pool α) (handle : Handle) : Releases pool handle (pool.release handle) := by
  unfold release
  cases hoccupied : pool.occupied handle with
  | error e =>
      obtain rfl := occupied_eq_error hoccupied
      exact .stale hoccupied
  | ok holding =>
      -- a valid handle names a warm module, which counts as not taken, or one in use
      obtain ⟨s, hs, hgeneration, hholding, hused⟩ := occupied_eq_ok.mp hoccupied
      subst hholding
      cases hactive : s.holding with
      | unused => exact absurd hactive hused
      | warm path module since => exact .unheld hs hgeneration hused (by rw [hactive]; rfl)
      | active path module count =>
          match count with
          | 0 => exact .unheld hs hgeneration hused (by rw [hactive]; rfl)
          | 1 => exact .last hs hgeneration hactive
          | count + 2 => exact .lowered hs hgeneration hactive

/-- A release that is refused changes nothing. -/
theorem release_of_error {pool : Pool α} {handle : Handle} {e : Error} (h : (pool.release handle).1 = .error e) :
    (pool.release handle).2 = pool := by
  have houtcome := release_outcome pool handle
  generalize pool.release handle = outcome at h houtcome
  cases houtcome with
  | stale _ => rfl
  | unheld _ _ _ _ => rfl
  | lowered _ _ _ => cases h
  | last _ _ _ => cases h

/-! ## Runs -/

/-- A call that may change a pool. Every call of `acquire` comes with what loading gives at that moment. -/
inductive Call (α : Type) where
  | acquire (load : Path → Except Error α) (path : Path)
  | release (handle : Handle)
  | flush

/-- A call with its answer: a handle for `acquire`, nothing for the others. -/
structure Event (α : Type) where
  call : Call α
  answer : Except Error (Option Handle)

/-- The answer to a call, and the pool after it. -/
def perform (pool : Pool α) : Call α → Except Error (Option Handle) × Pool α
  | .acquire load path => ((pool.acquire load path).1.map some, (pool.acquire load path).2)
  | .release handle => ((pool.release handle).1.map fun _ => none, (pool.release handle).2)
  | .flush => (.ok none, pool.flush)

/-- The events of calls in sequence, and the pool after them. -/
def run (pool : Pool α) : List (Call α) → List (Event α) × Pool α
  | [] => ([], pool)
  | call :: calls =>
      let after := (pool.perform call).2.run calls
      (⟨call, (pool.perform call).1⟩ :: after.1, after.2)

/-- The events of a run are those of its calls, in order. -/
theorem run_calls (pool : Pool α) (calls : List (Call α)) : (pool.run calls).1.map (·.call) = calls := by
  induction calls generalizing pool with
  | nil => rfl
  | cons call calls ih =>
      simp only [run, List.map_cons]
      rw [ih]

/-- **Run induction.** What holds before the first call, and is kept by every call with its event, holds after every
    run. -/
theorem run_induction {start : Pool α} {motive : List (Event α) → Pool α → Prop} (hstart : motive [] start)
    (hcall : ∀ events pool call, motive events pool →
      motive (events ++ [⟨call, (pool.perform call).1⟩]) (pool.perform call).2)
    (calls : List (Call α)) : motive (start.run calls).1 (start.run calls).2 := by
  -- from the front, the events before the calls being a parameter
  have hrest : ∀ calls events pool, motive events pool →
      motive (events ++ (run pool calls).1) (run pool calls).2 := by
    intro calls
    induction calls with
    | nil =>
        intro events pool h
        rw [run, List.append_nil]
        exact h
    | cons call calls ih =>
        intro events pool h
        have hnext := ih _ _ (hcall events pool call h)
        rw [List.append_assoc] at hnext
        exact hnext
  exact hrest calls [] start hstart

end Pool

end Unwinder
