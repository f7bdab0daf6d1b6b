import Unwinder.Proofs.Pool.Calls

/-!
# `Proofs.Pool.AtRest` — a pool between two uses

Whoever takes a module, looks at it and gives it back leaves a pool in which nothing is in use. Such a pool never
lacks room, and what it keeps was loaded at some time before. This module follows one such use.

## Contents
- **Uses.** `Pool.lookup` takes a module and gives it back; `lookup_eq_ok` says what it rests on.
- **Rest.** `AtRest`: nothing is in use, and what is kept warm has a property of what was loaded.
  `AtRest.usable_of_acquire`: a handle to what is taken from it can be used and given back.
- **One use.** `AtRest.lookup`: a use succeeds or reports the failure of the load, and leaves the pool at rest.
-/

namespace Unwinder

variable {α : Type}

namespace Pool

/-! ## Uses -/

/-- Takes the module of a path and gives it back: the module with the path it was loaded under, and the pool after
    it. -/
def lookup (pool : Pool α) (load : Path → Except Error α) (path : Path) : Except Error (α × Path) × Pool α :=
  match pool.acquire load path with
  | (.error e, pool) => (.error e, pool)
  | (.ok handle, pool) =>
      (do
        let module ← pool.get handle
        let held ← pool.pathOf handle
        return (module, held), (pool.release handle).2)

/-- A use that succeeds rests on a handle that gives access to the module and its path. -/
theorem lookup_eq_ok {pool : Pool α} {load : Path → Except Error α} {path held : Path} {module : α}
    (h : (pool.lookup load path).1 = .ok (module, held)) :
    ∃ handle taken, pool.acquire load path = (.ok handle, taken) ∧ taken.get handle = .ok module ∧
      taken.pathOf handle = .ok held := by
  unfold lookup at h
  rcases hacquire : pool.acquire load path with ⟨e | handle, taken⟩
  · rw [hacquire] at h
    cases h
  · rw [hacquire] at h
    refine ⟨handle, taken, rfl, ?_⟩
    cases hget : taken.get handle with
    | error e => simp [bind, Except.bind, hget] at h
    | ok found =>
        cases hpath : taken.pathOf handle with
        | error e => simp [bind, Except.bind, hget, hpath] at h
        | ok place =>
            simp only [bind, Except.bind, hget, hpath, pure, Except.pure, Except.ok.injEq, Prod.mk.injEq] at h
            rw [h.1, h.2]
            exact ⟨rfl, rfl⟩

/-! ## Rest -/

/-- **Rest**: a pool of `n` slots in which nothing is in use. What is kept warm is `Known` under its path. -/
structure AtRest (n : Nat) (Known : Path → α → Prop) (pool : Pool α) : Prop where
  capacity : pool.slots.length = n
  idle : ∀ s ∈ pool.slots, s.holding = .unused ∨
    ∃ path module since, s.holding = .warm path module since ∧ Known path module

/-- What holds of every slot, and of one of them after a change, holds of every slot after the change. -/
theorem forall_slots_modify {Q : Slot α → Prop} {pool : Pool α} {i : Nat} {s : Slot α} {f : Slot α → Slot α}
    (hs : pool.slots[i]? = some s) (hall : ∀ t ∈ pool.slots, Q t) (hchanged : Q (f s)) :
    ∀ t ∈ (pool.modify i f).slots, Q t := by
  intro t ht
  obtain ⟨j, hj⟩ := List.mem_iff_getElem?.mp ht
  rw [getElem?_modify_slots hs] at hj
  split at hj
  · rw [← Option.some.inj hj]
    exact hchanged
  · exact hall t (List.mem_of_getElem? hj)

section TakenOnce

variable {pool : Pool α} {handle : Handle} {path : Path} {module : α}
  (hs : pool.slots[handle.slot]? = some ⟨.active path module 1, handle.generation⟩)

include hs

theorem occupied_taken_once : pool.occupied handle = .ok (.active path module 1) :=
  occupied_eq_ok.mpr ⟨_, hs, rfl, rfl, by simp⟩

/-- While a module is taken, its handle gives access to it and to its path. -/
theorem get_taken_once : pool.get handle = .ok module ∧ pool.pathOf handle = .ok path := by
  obtain ⟨path', module', hpath, hmodule, hpathOf, hget⟩ := get_of_occupied (occupied_taken_once hs)
  cases hpath
  cases hmodule
  exact ⟨hget, hpathOf⟩

/-- A module that is taken once can be given back, and becomes warm. -/
theorem release_taken_once :
    pool.release handle =
      (.ok (), { pool.modify handle.slot (.letGo (pool.clock + 1)) with clock := pool.clock + 1 }) := by
  rw [release, occupied_taken_once hs]
  rfl

end TakenOnce

namespace AtRest

variable {n : Nat} {Known : Path → α → Prop} {pool : Pool α}

/-- A pool that nothing was loaded into. -/
theorem ofCapacity (n : Nat) (Known : Path → α → Prop) : AtRest n Known (Pool.ofCapacity n) := by
  refine ⟨List.length_replicate, ?_⟩
  intro s hs
  rw [List.eq_of_mem_replicate hs]
  exact .inl rfl

/-- A pool at rest has room. -/
theorem roomFor?_ne_none (h : pool.AtRest n Known) (hslots : 0 < n) : pool.roomFor? ≠ none := by
  intro hfull
  have hfirst : 0 < pool.slots.length := by rw [h.capacity]; exact hslots
  have hmem := List.getElem_mem hfirst
  obtain ⟨path, module, count, hactive⟩ := roomFor?_eq_none hfull _ hmem
  rcases h.idle _ hmem with hunused | ⟨_, _, _, hwarm, -⟩
  · rw [hactive] at hunused
    cases hunused
  · rw [hactive] at hwarm
    cases hwarm

/-- Clearing a slot keeps a pool at rest. -/
theorem clear (h : pool.AtRest n Known) {i : Nat} {s : Slot α} (hs : pool.slots[i]? = some s) :
    (pool.modify i .clear).AtRest n Known :=
  ⟨(length_modify pool i _).trans h.capacity, forall_slots_modify hs h.idle (.inl rfl)⟩

/-- **A slot lent once and given back.** While it is lent the handle gives access to its module, and afterwards the
    pool is at rest again. -/
theorem lend (h : pool.AtRest n Known) {i generation : Nat} {s : Slot α} {f : Slot α → Slot α} {path : Path}
    {module : α} (hs : pool.slots[i]? = some s) (hlent : f s = ⟨.active path module 1, generation⟩)
    (hknown : Known path module) :
    (pool.modify i f).get ⟨i, generation⟩ = .ok module ∧ (pool.modify i f).pathOf ⟨i, generation⟩ = .ok path ∧
      ((pool.modify i f).release ⟨i, generation⟩).2.AtRest n Known := by
  have hslot : (pool.modify i f).slots[(Handle.mk i generation).slot]? =
      some ⟨.active path module 1, (Handle.mk i generation).generation⟩ := by
    rw [getElem?_modify_slots hs, if_pos rfl, hlent]
  obtain ⟨hget, hpathOf⟩ := get_taken_once hslot
  refine ⟨hget, hpathOf, ?_⟩
  rw [release_taken_once hslot, modify_modify]
  refine ⟨(length_modify pool i _).trans h.capacity, forall_slots_modify hs h.idle (.inr ?_)⟩
  refine ⟨path, module, (pool.modify i f).clock + 1, ?_, hknown⟩
  rw [hlent, Slot.letGo_of_one _ rfl]

/-- **What is taken from a pool at rest is taken once.** -/
theorem taken_once (h : pool.AtRest n Known) {load : Path → Except Error α} {path : Path} {handle : Handle}
    {taken : Pool α} (hacquire : pool.acquire load path = (.ok handle, taken)) :
    ∃ held module, taken.slots[handle.slot]? = some ⟨.active held module 1, handle.generation⟩ := by
  have houtcome := acquire_outcome pool load path
  rw [hacquire] at houtcome
  cases houtcome with
  | @again i s hs hholds =>
      obtain ⟨held, hpath, -⟩ := Slot.holds_iff.mp hholds
      rcases h.idle s (List.mem_of_getElem? hs) with hunused | ⟨path', module, since, hwarm, -⟩
      · rw [hunused] at hpath
        cases hpath
      · refine ⟨path', module, ?_⟩
        rw [getElem?_modify_slots hs, if_pos rfl, Slot.retain_of_warm hwarm]
  | @loaded i s module _ hs _ _ =>
      refine ⟨path, module, ?_⟩
      rw [getElem?_modify_slots hs, if_pos rfl]
      rfl

/-- While a module is taken its handle gives access to it and to its path, and then it can be given back. -/
theorem usable_of_acquire (h : pool.AtRest n Known) {load : Path → Except Error α} {path : Path} {handle : Handle}
    {taken : Pool α} (hacquire : pool.acquire load path = (.ok handle, taken)) :
    (∃ module, taken.get handle = .ok module) ∧ (∃ held, taken.pathOf handle = .ok held) ∧
      (taken.release handle).1 = .ok () := by
  obtain ⟨held, module, hslot⟩ := h.taken_once hacquire
  obtain ⟨hget, hpathOf⟩ := get_taken_once hslot
  exact ⟨⟨module, hget⟩, ⟨held, hpathOf⟩, congrArg Prod.fst (release_taken_once hslot)⟩

/-! ## One use -/

/-- **A use of a pool at rest** leaves it at rest. It gives the module of a path that is the same as the one asked
    for, and fails only as loading that module does. -/
theorem lookup (h : pool.AtRest n Known) (hslots : 0 < n) {load : Path → Except Error α} {path : Path}
    (hload : ∀ module, load path = .ok module → Known path module) :
    (pool.lookup load path).2.AtRest n Known ∧
      match (pool.lookup load path).1 with
      | .error e => load path = .error e
      | .ok (module, held) => held.Same path ∧ Known held module := by
  have houtcome := acquire_outcome pool load path
  unfold Pool.lookup
  generalize pool.acquire load path = outcome at houtcome ⊢
  cases houtcome with
  | @again i s hs hholds =>
      -- the slot that holds the path is warm, since nothing is in use
      obtain ⟨held, hpath, hsame⟩ := Slot.holds_iff.mp hholds
      rcases h.idle s (List.mem_of_getElem? hs) with hunused | ⟨path', module, since, hwarm, hknown⟩
      · rw [hunused] at hpath
        cases hpath
      · rw [hwarm] at hpath
        cases hpath
        obtain ⟨hget, hpathOf, hrest⟩ := h.lend hs (Slot.retain_of_warm hwarm) hknown
        refine ⟨hrest, ?_⟩
        simp only [bind, Except.bind, hget, hpathOf]
        exact ⟨hsame, hknown⟩
  | full _ hroom => exact absurd hroom (h.roomFor?_ne_none hslots)
  | failed _ hs _ herror => exact ⟨h.clear hs, herror⟩
  | @loaded i s module _ hs _ hok =>
      have hlent : s.clear.fill path module = ⟨.active path module 1, s.generation + 1⟩ := rfl
      obtain ⟨hget, hpathOf, hrest⟩ := h.lend (f := fun s => s.clear.fill path module) hs hlent (hload module hok)
      refine ⟨hrest, ?_⟩
      simp only [bind, Except.bind, hget, hpathOf]
      exact ⟨Path.Same.refl path, hload module hok⟩

end AtRest

end Pool

end Unwinder
