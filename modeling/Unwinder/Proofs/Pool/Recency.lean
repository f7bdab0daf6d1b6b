import Mathlib.Data.Multiset.Filter
import Unwinder.Proofs.Pool.Calls

/-!
# `Proofs.Pool.Recency` — the pool is a least-recently-released store

A pool keeps its modules in slots, and the order in which they became warm in the stamps of a clock. What its
users see is simpler: counts for the paths in use, and a list of the warm ones, oldest first. This module states
that simpler store as a transition relation and shows that every run of a pool is one of its runs.

## Contents
- **The abstract store.** `Recency` and its transitions `Recency.Step`, one for each clause of the contract, with
  `Recency.Valid`: the paths are pairwise different, the counts positive, and no more are held than fit.
- **Abstraction.** `Tracks` reads the abstract store off the slots; `InOrder` is its part about stamps.
- **Simulation.** `Tracks.acquire` and `Tracks.release`: an outcome of a call is a transition.
- **Main statement.** `run_refines_recency`, for every capacity and every sequence of calls.
-/

namespace Unwinder

variable {α : Type}

/-! ## The abstract store -/

/-- A module that is held, by the path it was loaded under and the handle it goes by. -/
structure Lease where
  path : Path
  handle : Handle

/-- The modules held: those in use, and the warm ones in the order in which they became warm. -/
structure Recency where
  /-- The finite map from the modules in use to how often each is taken, as the set of its entries. -/
  active : Multiset (Lease × Nat)
  warm : List Lease

namespace Recency

/-- Nothing is held. -/
def empty : Recency := ⟨0, []⟩

/-- Everything held. -/
def leases (r : Recency) : Multiset Lease := r.active.map (·.1) + (r.warm : Multiset Lease)

/-- How many modules are held. -/
def held (r : Recency) : Nat := r.active.card + r.warm.length

/-- No module is held under a path. -/
def Unknown (r : Recency) (path : Path) : Prop := ∀ lease ∈ r.leases, ¬ lease.path.Same path

/-- Making room for one more module among `n`: while fewer are held nothing has to go, and then the one that has
    been warm for the longest. -/
inductive Room (n : Nat) : Recency → Recency → Prop where
  | spare {r : Recency} (hspare : r.held < n) : Room n r r
  | evict {active : Multiset (Lease × Nat)} {oldest : Lease} {warm : List Lease}
      (hfull : n ≤ held ⟨active, oldest :: warm⟩) : Room n ⟨active, oldest :: warm⟩ ⟨active, warm⟩

/-- **The contract of a store of `n` modules**: how each event changes what is held. -/
inductive Step (n : Nat) : Recency → Pool.Event α → Recency → Prop where
  /-- A path in use is taken once more, under the same handle. -/
  | again {active : Multiset (Lease × Nat)} {warm : List Lease} {lease : Lease} {count : Nat}
      {load : Path → Except Error α} {path : Path} (hsame : lease.path.Same path) :
      Step n ⟨(lease, count) ::ₘ active, warm⟩ ⟨.acquire load path, .ok (some lease.handle)⟩
        ⟨(lease, count + 1) ::ₘ active, warm⟩
  /-- A warm path comes into use again, under the same handle. -/
  | revive {active : Multiset (Lease × Nat)} {before after : List Lease} {lease : Lease}
      {load : Path → Except Error α} {path : Path} (hsame : lease.path.Same path) :
      Step n ⟨active, before ++ lease :: after⟩ ⟨.acquire load path, .ok (some lease.handle)⟩
        ⟨(lease, 1) ::ₘ active, before ++ after⟩
  /-- An unknown path is loaded where there is room, under a handle that nothing held has. -/
  | load {r roomy : Recency} {load : Path → Except Error α} {path : Path} {module : α} {handle : Handle}
      (hunknown : r.Unknown path) (hroom : Room n r roomy) (hload : load path = .ok module)
      (hfresh : ∀ lease ∈ r.leases, lease.handle ≠ handle) :
      Step n r ⟨.acquire load path, .ok (some handle)⟩ ⟨(⟨path, handle⟩, 1) ::ₘ roomy.active, roomy.warm⟩
  /-- A module that cannot be loaded costs no more than the room that was made for it. -/
  | fail {r roomy : Recency} {load : Path → Except Error α} {path : Path} {e : Error}
      (hunknown : r.Unknown path) (hroom : Room n r roomy) (hload : load path = .error e) :
      Step n r ⟨.acquire load path, .error e⟩ roomy
  /-- Without room for an unknown path nothing changes. -/
  | full {active : Multiset (Lease × Nat)} {load : Path → Except Error α} {path : Path}
      (hunknown : Unknown ⟨active, []⟩ path) (hfull : n ≤ held ⟨active, []⟩) :
      Step n ⟨active, []⟩ ⟨.acquire load path, .error (.poolFull n)⟩ ⟨active, []⟩
  /-- A module taken more than once stays in use. -/
  | lower {active : Multiset (Lease × Nat)} {warm : List Lease} {lease : Lease} {count : Nat} :
      Step n ⟨(lease, count + 2) ::ₘ active, warm⟩ ⟨.release lease.handle, .ok none⟩
        ⟨(lease, count + 1) ::ₘ active, warm⟩
  /-- A module given back for the last time becomes the youngest of the warm ones. -/
  | last {active : Multiset (Lease × Nat)} {warm : List Lease} {lease : Lease} :
      Step n ⟨(lease, 1) ::ₘ active, warm⟩ ⟨.release lease.handle, .ok none⟩ ⟨active, warm ++ [lease]⟩
  /-- A warm module cannot be given back. -/
  | unheld {r : Recency} {lease : Lease} (hwarm : lease ∈ r.warm) :
      Step n r ⟨.release lease.handle, .error (.misuse (.unheldHandle lease.handle))⟩ r
  /-- Nor can a handle that nothing held goes by. -/
  | stale {r : Recency} {handle : Handle} (hstale : ∀ lease ∈ r.leases, lease.handle ≠ handle) :
      Step n r ⟨.release handle, .error (.misuse (.staleHandle handle))⟩ r
  /-- Everything is dropped. -/
  | flush {r : Recency} : Step n r ⟨.flush, .ok none⟩ empty

/-- The runs of a store of `n` modules, with their events. -/
inductive Run (n : Nat) (start : Recency) : List (Pool.Event α) → Recency → Prop where
  | nil : Run n start [] start
  | snoc {events : List (Pool.Event α)} {event : Pool.Event α} {r r' : Recency} (hrun : Run n start events r)
      (hstep : Step n r event r') : Run n start (events ++ [event]) r'

/-- What makes `active` a finite map, together with `warm`: every module is held once, under one path and one handle,
    those in use are taken, and there is room for all. -/
structure Valid (n : Nat) (r : Recency) : Prop where
  held_le : r.held ≤ n
  counted : ∀ entry ∈ r.active, 0 < entry.2
  apart : (r.leases.map (·.path.components)).Nodup
  named : (r.leases.map (·.handle)).Nodup

theorem leases_cons (entry : Lease × Nat) (active : Multiset (Lease × Nat)) (warm : List Lease) :
    leases ⟨entry ::ₘ active, warm⟩ = entry.1 ::ₘ leases ⟨active, warm⟩ := by
  simp [leases]

/-- It does not matter for what is held where in the list a warm module stands. -/
theorem leases_warm (active : Multiset (Lease × Nat)) (before after : List Lease) (lease : Lease) :
    leases ⟨active, before ++ lease :: after⟩ = lease ::ₘ leases ⟨active, before ++ after⟩ := by
  have hperm : ((before ++ lease :: after : List Lease) : Multiset Lease)
      = lease ::ₘ ((before ++ after : List Lease) : Multiset Lease) :=
    Multiset.coe_eq_coe.mpr List.perm_middle
  simp only [leases, hperm, Multiset.add_cons]

theorem card_leases (r : Recency) : r.leases.card = r.held := by
  simp [leases, held]

theorem Valid.empty (n : Nat) : Recency.empty.Valid n := by
  refine ⟨Nat.zero_le n, ?_, ?_, ?_⟩ <;> simp [leases, Recency.empty]

/-- Holding the same modules, or fewer, with positive counts, keeps a store valid. -/
theorem Valid.of_le {n : Nat} {r r' : Recency} (h : r.Valid n) (hle : r'.leases ≤ r.leases)
    (hcounted : ∀ entry ∈ r'.active, 0 < entry.2) : r'.Valid n := by
  refine ⟨?_, hcounted, ?_, ?_⟩
  · have hcard := Multiset.card_le_card hle
    rw [card_leases, card_leases] at hcard
    exact hcard.trans h.held_le
  · exact Multiset.nodup_of_le (Multiset.map_le_map hle) h.apart
  · exact Multiset.nodup_of_le (Multiset.map_le_map hle) h.named

/-- Making room takes nothing in, and leaves the modules in use alone. -/
theorem Room.leases_le {n : Nat} {r roomy : Recency} (h : Room n r roomy) :
    roomy.leases ≤ r.leases ∧ roomy.active = r.active := by
  cases h with
  | spare _ => exact ⟨le_refl _, rfl⟩
  | @evict active oldest warm _ =>
      have hleases := leases_warm active [] warm oldest
      rw [List.nil_append, List.nil_append] at hleases
      rw [hleases]
      exact ⟨Multiset.le_cons_self _ _, rfl⟩

/-- After making room in a valid store there is some. -/
theorem Room.held_lt {n : Nat} {r roomy : Recency} (h : Room n r roomy) (hvalid : r.Valid n) : roomy.held < n := by
  cases h with
  | spare hspare => exact hspare
  | evict _ =>
      have hle := hvalid.held_le
      simp only [held, List.length_cons] at hle ⊢
      omega

/-- One more module, where there is room for it and nothing held has its path or its handle. -/
theorem Valid.load {n : Nat} {r : Recency} (h : r.Valid n) (hspare : r.held < n) {lease : Lease}
    (hunknown : r.Unknown lease.path) (hfresh : ∀ other ∈ r.leases, other.handle ≠ lease.handle) :
    Valid n ⟨(lease, 1) ::ₘ r.active, r.warm⟩ := by
  have hleases : leases ⟨(lease, 1) ::ₘ r.active, r.warm⟩ = lease ::ₘ r.leases := leases_cons _ _ _
  refine ⟨?_, ?_, ?_, ?_⟩
  · rw [← card_leases, hleases, Multiset.card_cons, card_leases]
    exact hspare
  · exact Multiset.forall_mem_cons.mpr ⟨Nat.one_pos, h.counted⟩
  · rw [hleases, Multiset.map_cons, Multiset.nodup_cons]
    refine ⟨?_, h.apart⟩
    intro hmem
    obtain ⟨other, hother, hsame⟩ := Multiset.mem_map.mp hmem
    exact hunknown other hother hsame
  · rw [hleases, Multiset.map_cons, Multiset.nodup_cons]
    refine ⟨?_, h.named⟩
    intro hmem
    obtain ⟨other, hother, hsame⟩ := Multiset.mem_map.mp hmem
    exact hfresh other hother hsame

/-- **Every transition keeps a store valid.** -/
theorem Step.valid {n : Nat} {r r' : Recency} {event : Pool.Event α} (h : Step n r event r') (hvalid : r.Valid n) :
    r'.Valid n := by
  cases h with
  | again _ =>
      obtain ⟨-, hothers⟩ := Multiset.forall_mem_cons.mp hvalid.counted
      refine hvalid.of_le (le_of_eq (by rw [leases_cons, leases_cons])) ?_
      exact Multiset.forall_mem_cons.mpr ⟨Nat.succ_pos _, hothers⟩
  | revive _ =>
      refine hvalid.of_le (le_of_eq (by rw [leases_cons, leases_warm])) ?_
      exact Multiset.forall_mem_cons.mpr ⟨Nat.one_pos, hvalid.counted⟩
  | load hunknown hroom _ hfresh =>
      obtain ⟨hle, hactive⟩ := hroom.leases_le
      have hmem : ∀ lease, lease ∈ leases _ → lease ∈ r.leases := fun _ hlease => Multiset.mem_of_le hle hlease
      have hroomy : Valid n _ := hvalid.of_le hle (by rw [hactive]; exact hvalid.counted)
      exact hroomy.load (hroom.held_lt hvalid) (fun other hother => hunknown other (hmem other hother))
        (fun other hother => hfresh other (hmem other hother))
  | fail _ hroom _ =>
      obtain ⟨hle, hactive⟩ := hroom.leases_le
      exact hvalid.of_le hle (by rw [hactive]; exact hvalid.counted)
  | full _ _ => exact hvalid
  | lower =>
      obtain ⟨-, hothers⟩ := Multiset.forall_mem_cons.mp hvalid.counted
      refine hvalid.of_le (le_of_eq (by rw [leases_cons, leases_cons])) ?_
      exact Multiset.forall_mem_cons.mpr ⟨Nat.succ_pos _, hothers⟩
  | @last active warm lease =>
      have hleases := leases_warm active warm [] lease
      rw [List.append_nil] at hleases
      refine hvalid.of_le (le_of_eq (by rw [hleases, leases_cons])) ?_
      exact (Multiset.forall_mem_cons.mp hvalid.counted).2
  | unheld _ => exact hvalid
  | stale _ => exact hvalid
  | flush => exact .empty n

end Recency

/-! ## Abstraction -/

namespace Pool

/-- What a slot in use stands for. -/
def inUse? (place : Slot α × Nat) : Option (Lease × Nat) :=
  match place.1.holding with
  | .active path _ count => some (⟨path, ⟨place.2, place.1.generation⟩⟩, count)
  | _ => none

/-- What a warm slot stands for, with its stamp. -/
def keptWarm? (place : Slot α × Nat) : Option (Lease × Nat) :=
  match place.1.holding with
  | .warm path _ since => some (⟨path, ⟨place.2, place.1.generation⟩⟩, since)
  | _ => none

theorem inUse?_eq_some {s : Slot α} {i : Nat} {entry : Lease × Nat} :
    inUse? (s, i) = some entry ↔
      ∃ path module count, s.holding = .active path module count ∧ (⟨path, ⟨i, s.generation⟩⟩, count) = entry := by
  unfold inUse?
  cases s.holding <;> simp

theorem keptWarm?_eq_some {s : Slot α} {i : Nat} {entry : Lease × Nat} :
    keptWarm? (s, i) = some entry ↔
      ∃ path module since, s.holding = .warm path module since ∧ (⟨path, ⟨i, s.generation⟩⟩, since) = entry := by
  unfold keptWarm?
  cases s.holding <;> simp

/-- A slot in use stands for one module, and for nothing warm. -/
theorem readings_of_active {s : Slot α} {path : Path} {module : α} {count : Nat}
    (h : s.holding = .active path module count) (i : Nat) :
    inUse? (s, i) = some (⟨path, ⟨i, s.generation⟩⟩, count) ∧ keptWarm? (s, i) = none := by
  simp [inUse?, keptWarm?, h]

theorem readings_of_warm {s : Slot α} {path : Path} {module : α} {since : Nat}
    (h : s.holding = .warm path module since) (i : Nat) :
    inUse? (s, i) = none ∧ keptWarm? (s, i) = some (⟨path, ⟨i, s.generation⟩⟩, since) := by
  simp [inUse?, keptWarm?, h]

theorem readings_of_unused {s : Slot α} (h : s.holding = .unused) (i : Nat) :
    inUse? (s, i) = none ∧ keptWarm? (s, i) = none := by
  simp [inUse?, keptWarm?, h]

/-- An entry, if there is one, together with others. -/
def joined : Option (Lease × Nat) → Multiset (Lease × Nat) → Multiset (Lease × Nat)
  | none, others => others
  | some entry, others => entry ::ₘ others

/-- What the slots of a pool stand for under either reading. -/
def collect (reading : Slot α × Nat → Option (Lease × Nat)) (pool : Pool α) : Multiset (Lease × Nat) :=
  (pool.slots.zipIdx.filterMap reading : List (Lease × Nat))

section Collect

variable {reading : Slot α × Nat → Option (Lease × Nat)} {pool : Pool α}

theorem mem_collect {entry : Lease × Nat} :
    entry ∈ pool.collect reading ↔ ∃ i s, pool.slots[i]? = some s ∧ reading (s, i) = some entry := by
  simp only [collect, Multiset.mem_coe, List.mem_filterMap, Prod.exists, List.mem_zipIdx_iff_getElem?]
  constructor
  · rintro ⟨s, i, hs, hentry⟩
    exact ⟨i, s, hs, hentry⟩
  · rintro ⟨i, s, hs, hentry⟩
    exact ⟨s, i, hs, hentry⟩

/-- What the slots before and after one of them stand for does not depend on what this one holds. -/
theorem entries_split (reading : Slot α × Nat → Option (Lease × Nat)) (front : List (Slot α)) (s : Slot α)
    (back : List (Slot α)) :
    (((front ++ s :: back).zipIdx.filterMap reading : List (Lease × Nat)) : Multiset (Lease × Nat)) =
      joined (reading (s, front.length))
        (front.zipIdx.filterMap reading ++ (back.zipIdx (front.length + 1)).filterMap reading :
          List (Lease × Nat)) := by
  rw [List.zipIdx_append, List.zipIdx_cons, Nat.zero_add, List.filterMap_append, List.filterMap_cons]
  cases reading (s, front.length) with
  | none => rfl
  | some entry => exact Multiset.coe_eq_coe.mpr List.perm_middle

/-- **Frame.** Changing a slot changes what this slot stands for, and nothing else. -/
theorem collect_modify {i : Nat} {s : Slot α} (hs : pool.slots[i]? = some s)
    (reading : Slot α × Nat → Option (Lease × Nat)) :
    ∃ others, pool.collect reading = joined (reading (s, i)) others ∧
      ∀ f, (pool.modify i f).collect reading = joined (reading (f s, i)) others := by
  obtain ⟨hi, rfl⟩ := List.getElem?_eq_some_iff.mp hs
  have hlength : (pool.slots.take i).length = i := List.length_take_of_le (Nat.le_of_lt hi)
  have hsplit := fun t => entries_split reading (pool.slots.take i) t (pool.slots.drop (i + 1))
  rw [hlength] at hsplit
  have hbefore := hsplit pool.slots[i]
  rw [List.getElem_cons_drop, List.take_append_drop] at hbefore
  refine ⟨_, hbefore, ?_⟩
  intro f
  have hafter := hsplit (f pool.slots[i])
  rw [← List.modify_eq_take_cons_drop hi] at hafter
  exact hafter

/-- Where the slot stood for an entry, this one is replaced. -/
theorem collect_modify_of_some {i : Nat} {s : Slot α} {entry : Lease × Nat} (hs : pool.slots[i]? = some s)
    (h : reading (s, i) = some entry) :
    ∃ others, pool.collect reading = entry ::ₘ others ∧
      ∀ f, (pool.modify i f).collect reading = joined (reading (f s, i)) others := by
  obtain ⟨others, hbefore, hafter⟩ := collect_modify hs reading
  rw [h] at hbefore
  exact ⟨others, hbefore, hafter⟩

/-- Where the slot stood for nothing, what it stands for now comes in addition. -/
theorem collect_modify_of_none {i : Nat} {s : Slot α} (hs : pool.slots[i]? = some s) (h : reading (s, i) = none)
    (f : Slot α → Slot α) :
    (pool.modify i f).collect reading = joined (reading (f s, i)) (pool.collect reading) := by
  obtain ⟨others, hbefore, hafter⟩ := collect_modify hs reading
  rw [h] at hbefore
  rw [hafter, hbefore]
  rfl

/-- Every slot that is not unused stands for one module. -/
theorem card_collect (pool : Pool α) :
    (pool.collect inUse?).card + (pool.collect keptWarm?).card = pool.loaded := by
  -- over the slots, wherever their numbering begins
  have hcount : ∀ (slots : List (Slot α)) (first : Nat),
      ((slots.zipIdx first).filterMap inUse?).length + ((slots.zipIdx first).filterMap keptWarm?).length =
        slots.countP (!·.holding.isUnused) := by
    intro slots
    induction slots with
    | nil => exact fun _ => rfl
    | cons s ss ih =>
        intro first
        rw [List.zipIdx_cons, List.filterMap_cons, List.filterMap_cons, List.countP_cons, ← ih (first + 1)]
        cases hholding : s.holding with
        | unused =>
            obtain ⟨hactive, hwarm⟩ := readings_of_unused hholding first
            rw [hactive, hwarm]
            rfl
        | active path module count =>
            obtain ⟨hactive, hwarm⟩ := readings_of_active hholding first
            rw [hactive, hwarm]
            exact Nat.add_right_comm _ 1 _
        | warm path module since =>
            obtain ⟨hactive, hwarm⟩ := readings_of_warm hholding first
            rw [hactive, hwarm]
            rfl
  exact hcount pool.slots 0

end Collect

/-! ## The order of the warm modules -/

/-- The stamps say in which order modules became warm: the list of the entries by increasing stamp, none of them
    later than the clock. -/
def InOrder (clock : Nat) (entries : Multiset (Lease × Nat)) (warm : List Lease) : Prop :=
  ∃ stamped : List (Lease × Nat), (stamped : Multiset (Lease × Nat)) = entries ∧
    stamped.Pairwise (fun a b => a.2 < b.2) ∧ (∀ entry ∈ stamped, entry.2 ≤ clock) ∧ stamped.map (·.1) = warm

theorem InOrder.none (clock : Nat) : InOrder clock 0 [] := ⟨[], rfl, .nil, by simp, rfl⟩

theorem InOrder.mem_iff {clock : Nat} {entries : Multiset (Lease × Nat)} {warm : List Lease}
    (h : InOrder clock entries warm) {lease : Lease} : lease ∈ warm ↔ ∃ since, (lease, since) ∈ entries := by
  obtain ⟨stamped, rfl, -, -, rfl⟩ := h
  simp

/-- A module taken out of the list stood at its front when none is warm since earlier. -/
theorem InOrder.remove {clock : Nat} {entry : Lease × Nat} {others : Multiset (Lease × Nat)} {warm : List Lease}
    (h : InOrder clock (entry ::ₘ others) warm) :
    ∃ before after, warm = before ++ entry.1 :: after ∧ InOrder clock others (before ++ after) ∧
      ((∀ other ∈ others, entry.2 ≤ other.2) → before = []) := by
  obtain ⟨stamped, hstamped, hordered, hclock, rfl⟩ := h
  have hmem : entry ∈ stamped := by
    rw [← Multiset.mem_coe, hstamped]
    exact Multiset.mem_cons_self _ _
  -- the stamps order the entries strictly, and without one of them the others stay in order
  obtain ⟨before, after, rfl⟩ := List.append_of_mem hmem
  have hothers : ((before ++ after : List (Lease × Nat)) : Multiset (Lease × Nat)) = others := by
    rw [← Multiset.cons_inj_right entry, ← hstamped, Multiset.cons_coe, Multiset.coe_eq_coe]
    exact List.perm_middle.symm
  have hsub : (before ++ after).Sublist (before ++ entry :: after) :=
    (List.Sublist.refl before).append (List.sublist_cons_self entry after)
  refine ⟨before.map (·.1), after.map (·.1), by simp, ?_, ?_⟩
  · refine ⟨before ++ after, hothers, hordered.sublist hsub, ?_, by simp⟩
    exact fun other hother => hclock other (hsub.subset hother)
  · intro hleast
    cases before with
    | nil => rfl
    | cons first before =>
        -- the first of the list would be warm since earlier
        have hfirst : first ∈ others := by
          rw [← hothers]
          simp
        have hle := hleast first hfirst
        have hlt := (List.pairwise_append.mp hordered).2.2 first (by simp) entry (by simp)
        omega

/-- The next tick of the clock is later than all stamps. -/
theorem InOrder.push {clock : Nat} {others : Multiset (Lease × Nat)} {warm : List Lease}
    (h : InOrder clock others warm) (lease : Lease) :
    InOrder (clock + 1) ((lease, clock + 1) ::ₘ others) (warm ++ [lease]) := by
  obtain ⟨stamped, rfl, hordered, hclock, rfl⟩ := h
  refine ⟨stamped ++ [(lease, clock + 1)], ?_, ?_, ?_, by simp⟩
  · rw [Multiset.cons_coe, Multiset.coe_eq_coe]
    exact List.perm_append_singleton _ _
  · rw [List.pairwise_append]
    refine ⟨hordered, List.pairwise_singleton _ _, ?_⟩
    intro earlier hearlier last hlast
    rw [List.mem_singleton.mp hlast]
    exact Nat.lt_succ_of_le (hclock earlier hearlier)
  · intro entry hentry
    rcases List.mem_append.mp hentry with hearlier | hlast
    · exact Nat.le_succ_of_le (hclock entry hearlier)
    · rw [List.mem_singleton.mp hlast]

/-! ## Simulation -/

/-- **The abstraction.** A pool of `n` slots, with the abstract store that its slots and stamps stand for. -/
structure Tracks (n : Nat) (pool : Pool α) (r : Recency) : Prop where
  capacity : pool.slots.length = n
  active : pool.collect inUse? = r.active
  warm : InOrder pool.clock (pool.collect keptWarm?) r.warm

namespace Tracks

variable {n : Nat} {pool : Pool α} {r : Recency}

/-- Unused slots stand for nothing. -/
theorem of_unused {pool : Pool α} (hcapacity : pool.slots.length = n)
    (hunused : ∀ s ∈ pool.slots, s.holding = .unused) : Tracks n pool .empty := by
  have hnone : ∀ reading : Slot α × Nat → Option (Lease × Nat),
      (∀ s i, s.holding = .unused → reading (s, i) = none) → pool.collect reading = 0 := by
    intro reading hentry
    refine Multiset.eq_zero_of_forall_notMem ?_
    intro entry hmem
    obtain ⟨i, s, hs, hstands⟩ := mem_collect.mp hmem
    rw [hentry s i (hunused s (List.mem_of_getElem? hs))] at hstands
    cases hstands
  refine ⟨hcapacity, ?_, ?_⟩
  · exact hnone inUse? fun s i hs => (readings_of_unused hs i).1
  · rw [hnone keptWarm? fun s i hs => (readings_of_unused hs i).2]
    exact InOrder.none _

/-- What is held is what the slots that are not unused hold, under their present generations. -/
theorem mem_leases (h : Tracks n pool r) {lease : Lease} :
    lease ∈ r.leases ↔ ∃ s, pool.slots[lease.handle.slot]? = some s ∧ s.generation = lease.handle.generation ∧
      s.holding.path? = some lease.path := by
  rw [Recency.leases, Multiset.mem_add, Multiset.mem_map, Multiset.mem_coe, h.warm.mem_iff, ← h.active]
  constructor
  · rintro (⟨entry, hentry, rfl⟩ | ⟨since, hentry⟩)
    · obtain ⟨i, s, hs, hstands⟩ := mem_collect.mp hentry
      obtain ⟨path, module, count, hholding, rfl⟩ := inUse?_eq_some.mp hstands
      exact ⟨s, hs, rfl, by rw [hholding]; rfl⟩
    · obtain ⟨i, s, hs, hstands⟩ := mem_collect.mp hentry
      obtain ⟨path, module, stamp, hholding, hlease⟩ := keptWarm?_eq_some.mp hstands
      obtain ⟨rfl, -⟩ := Prod.mk.inj hlease
      exact ⟨s, hs, rfl, by rw [hholding]; rfl⟩
  · rintro ⟨s, hs, hgeneration, hpath⟩
    cases hholding : s.holding with
    | unused => simp [hholding, Holding.path?] at hpath
    | active path module count =>
        simp only [hholding, Holding.path?, Option.some.injEq] at hpath
        refine .inl ⟨(lease, count), mem_collect.mpr ⟨lease.handle.slot, s, hs, ?_⟩, rfl⟩
        rw [(readings_of_active hholding _).1, hgeneration, hpath]
    | warm path module since =>
        simp only [hholding, Holding.path?, Option.some.injEq] at hpath
        refine .inr ⟨since, mem_collect.mpr ⟨lease.handle.slot, s, hs, ?_⟩⟩
        rw [(readings_of_warm hholding _).2, hgeneration, hpath]

theorem held_eq (h : Tracks n pool r) : r.held = pool.loaded := by
  obtain ⟨stamped, hstamped, -, -, hwarm⟩ := h.warm
  rw [← card_collect, Recency.held, ← h.active, ← hstamped, ← hwarm, List.length_map, Multiset.coe_card]

/-- With an unused slot, fewer modules are held than fit. -/
theorem held_lt (h : Tracks n pool r) {s : Slot α} (hs : s ∈ pool.slots) (hunused : s.holding = .unused) :
    r.held < n := by
  rw [h.held_eq, ← h.capacity]
  refine List.countP_lt_length_iff.mpr ⟨s, hs, ?_⟩
  simp [hunused, Holding.isUnused]

/-- Without one, as many are held as fit. -/
theorem le_held (h : Tracks n pool r) (hused : ∀ s ∈ pool.slots, s.holding ≠ .unused) : n ≤ r.held := by
  rw [h.held_eq, ← h.capacity]
  refine le_of_eq (List.countP_eq_length.mpr ?_).symm
  intro s hs
  rw [Bool.not_eq_true', Bool.eq_false_iff]
  exact fun hunused => hused s hs (Holding.isUnused_iff.mp hunused)

/-- A path that no slot holds is unknown. -/
theorem unknown (h : Tracks n pool r) {path : Path} (hunknown : ∀ s ∈ pool.slots, s.holds path = false) :
    r.Unknown path := by
  intro lease hlease hsame
  obtain ⟨s, hs, -, hpath⟩ := h.mem_leases.mp hlease
  have hholds : s.holds path = true := Slot.holds_iff.mpr ⟨lease.path, hpath, hsame⟩
  rw [hunknown s (List.mem_of_getElem? hs)] at hholds
  cases hholds

/-- A module in use is taken once more, or given back. -/
theorem recount (h : Tracks n pool r) {i : Nat} {s : Slot α} {path : Path} {module : α} {count : Nat}
    (hs : pool.slots[i]? = some s) (hactive : s.holding = .active path module count) :
    ∃ others, r = ⟨(⟨path, ⟨i, s.generation⟩⟩, count) ::ₘ others, r.warm⟩ ∧
      ∀ f count', f s = ⟨.active path module count', s.generation⟩ →
        Tracks n (pool.modify i f) ⟨(⟨path, ⟨i, s.generation⟩⟩, count') ::ₘ others, r.warm⟩ := by
  -- the entry of the slot is replaced, and the warm ones are the same as before
  obtain ⟨hstands, hnone⟩ := readings_of_active hactive i
  obtain ⟨others, hbefore, hafter⟩ := collect_modify_of_some hs hstands
  refine ⟨others, by rw [← hbefore, h.active], ?_⟩
  intro f count' hf
  refine ⟨?_, ?_, ?_⟩
  · rw [length_modify]
    exact h.capacity
  · rw [hafter, hf]
    rfl
  · rw [collect_modify_of_none hs hnone, hf]
    exact h.warm

/-- A warm module leaves the list, from its front when it has been warm for the longest. -/
theorem withdraw (h : Tracks n pool r) {i : Nat} {s : Slot α} {path : Path} {module : α} {since : Nat}
    (hs : pool.slots[i]? = some s) (hwarm : s.holding = .warm path module since) :
    ∃ before after, r = ⟨r.active, before ++ ⟨path, ⟨i, s.generation⟩⟩ :: after⟩ ∧
      ((∀ t ∈ pool.slots, ∀ later, t.holding.since? = some later → since ≤ later) → before = []) ∧
      ∀ f, keptWarm? (f s, i) = none →
        Tracks n (pool.modify i f) ⟨joined (inUse? (f s, i)) r.active, before ++ after⟩ := by
  obtain ⟨hnone, hstands⟩ := readings_of_warm hwarm i
  obtain ⟨others, hbefore, hafter⟩ := collect_modify_of_some hs hstands
  have horder := h.warm
  rw [hbefore] at horder
  obtain ⟨before, after, hlist, hrest, hfront⟩ := horder.remove
  refine ⟨before, after, by rw [← hlist], ?_, ?_⟩
  · intro hleast
    refine hfront ?_
    intro other hother
    have hmem : other ∈ pool.collect keptWarm? := by
      rw [hbefore]
      exact Multiset.mem_cons_of_mem hother
    obtain ⟨j, t, ht, hreading⟩ := mem_collect.mp hmem
    obtain ⟨path', module', later, hholding, rfl⟩ := keptWarm?_eq_some.mp hreading
    exact hleast t (List.mem_of_getElem? ht) later (by rw [hholding]; rfl)
  · intro f hf
    refine ⟨?_, ?_, ?_⟩
    · rw [length_modify]
      exact h.capacity
    · rw [collect_modify_of_none hs hnone, h.active]
    · rw [hafter, hf]
      exact hrest

/-- An unused slot takes in what it is given. -/
theorem occupy (h : Tracks n pool r) {i : Nat} {s : Slot α} (hs : pool.slots[i]? = some s)
    (hunused : s.holding = .unused) {f : Slot α → Slot α} (hf : keptWarm? (f s, i) = none) :
    Tracks n (pool.modify i f) ⟨joined (inUse? (f s, i)) r.active, r.warm⟩ := by
  obtain ⟨hactive, hwarm⟩ := readings_of_unused hunused i
  refine ⟨?_, ?_, ?_⟩
  · rw [length_modify]
    exact h.capacity
  · rw [collect_modify_of_none hs hactive, h.active]
  · rw [collect_modify_of_none hs hwarm, hf]
    exact h.warm

/-- A module given back for the last time becomes the youngest of the warm ones. -/
theorem retire (h : Tracks n pool r) {i : Nat} {s : Slot α} {path : Path} {module : α}
    (hs : pool.slots[i]? = some s) (hactive : s.holding = .active path module 1) :
    ∃ others, r = ⟨(⟨path, ⟨i, s.generation⟩⟩, 1) ::ₘ others, r.warm⟩ ∧
      Tracks n { pool.modify i (.letGo (pool.clock + 1)) with clock := pool.clock + 1 }
        ⟨others, r.warm ++ [⟨path, ⟨i, s.generation⟩⟩]⟩ := by
  obtain ⟨hstands, hnone⟩ := readings_of_active hactive i
  obtain ⟨others, hbefore, hafter⟩ := collect_modify_of_some hs hstands
  have hletGo := Slot.letGo_of_one (pool.clock + 1) hactive
  refine ⟨others, by rw [← hbefore, h.active], ?_, ?_, ?_⟩
  · show (pool.modify i _).slots.length = n
    rw [length_modify]
    exact h.capacity
  · show (pool.modify i _).collect inUse? = others
    rw [hafter, hletGo]
    rfl
  · show InOrder _ ((pool.modify i _).collect keptWarm?) _
    rw [collect_modify_of_none hs hnone, hletGo]
    exact h.warm.push _

/-- **Making room.** Clearing the slot chosen for a new module drops nothing while fewer than `n` modules are held,
    and then the one at the front of the list. -/
theorem makeRoom (h : Tracks n pool r) {i : Nat} {s : Slot α} (hs : pool.slots[i]? = some s)
    (hroom : HasRoom pool s) : ∃ roomy, Recency.Room n r roomy ∧ Tracks n (pool.modify i .clear) roomy := by
  rcases hroom with hunused | ⟨hall, path, module, since, hwarm, hleast⟩
  · exact ⟨r, .spare (h.held_lt (List.mem_of_getElem? hs) hunused), h.occupy hs hunused rfl⟩
  · obtain ⟨before, after, hr, hfront, htracks⟩ := h.withdraw hs hwarm
    have hfull := h.le_held hall
    have hcleared := htracks .clear rfl
    -- nothing is warm since earlier, so that the module stood at the front
    rw [hfront hleast] at hr hcleared
    refine ⟨⟨r.active, after⟩, ?_, hcleared⟩
    rw [hr] at hfull ⊢
    exact .evict hfull

/-- When every module is in use, none is warm and nothing more fits. -/
theorem full (h : Tracks n pool r) (hroom : pool.roomFor? = none) : r.warm = [] ∧ n ≤ r.held := by
  have hactive := roomFor?_eq_none hroom
  constructor
  · refine List.eq_nil_iff_forall_not_mem.mpr ?_
    intro lease hlease
    obtain ⟨since, hentry⟩ := h.warm.mem_iff.mp hlease
    obtain ⟨i, s, hs, hstands⟩ := mem_collect.mp hentry
    obtain ⟨path, module, count, hholding⟩ := hactive s (List.mem_of_getElem? hs)
    rw [(readings_of_active hholding i).2] at hstands
    cases hstands
  · refine h.le_held ?_
    intro s hs hunused
    obtain ⟨path, module, count, hholding⟩ := hactive s hs
    rw [hunused] at hholding
    cases hholding

/-- **`acquire` is a transition.** -/
theorem acquire (h : Tracks n pool r) {load : Path → Except Error α} {path : Path}
    {outcome : Except Error Handle × Pool α} (houtcome : Acquires pool load path outcome) :
    ∃ r', Recency.Step n r ⟨.acquire load path, outcome.1.map some⟩ r' ∧ Tracks n outcome.2 r' := by
  cases houtcome with
  | @again i s hs hholds =>
      -- the slot that holds the path is in use or warm, and its module keeps its handle
      obtain ⟨held, hpath, hsame⟩ := Slot.holds_iff.mp hholds
      cases hholding : s.holding with
      | unused => simp [hholding, Holding.path?] at hpath
      | active path' module count =>
          simp only [hholding, Holding.path?, Option.some.injEq] at hpath
          subst hpath
          obtain ⟨others, hr, htracks⟩ := h.recount hs hholding
          rw [hr]
          exact ⟨_, .again hsame, htracks .retain (count + 1) (Slot.retain_of_active hholding)⟩
      | warm path' module since =>
          simp only [hholding, Holding.path?, Option.some.injEq] at hpath
          subst hpath
          obtain ⟨before, after, hr, -, htracks⟩ := h.withdraw hs hholding
          have hretain := Slot.retain_of_warm hholding
          have htracks := htracks .retain (by rw [hretain]; rfl)
          rw [hretain] at htracks
          rw [hr]
          exact ⟨_, .revive hsame, htracks⟩
  | full hunknown hroom =>
      obtain ⟨hwarm, hfull⟩ := h.full hroom
      have hr : r = ⟨r.active, []⟩ := by rw [← hwarm]
      have hstep :
          Recency.Step n ⟨r.active, []⟩ ⟨.acquire load path, .error (.poolFull n)⟩ ⟨r.active, []⟩ := by
        rw [hr] at hfull
        refine .full ?_ hfull
        rw [← hr]
        exact h.unknown hunknown
      rw [← hr] at hstep
      refine ⟨r, ?_, h⟩
      rw [Pool.capacity, h.capacity]
      exact hstep
  | failed hunknown hs hroom hload =>
      obtain ⟨roomy, hmake, htracks⟩ := h.makeRoom hs hroom
      exact ⟨roomy, .fail (h.unknown hunknown) hmake hload, htracks⟩
  | @loaded i s module hunknown hs hroom hload =>
      obtain ⟨roomy, hmake, htracks⟩ := h.makeRoom hs hroom
      have hcleared : (pool.modify i .clear).slots[i]? = some s.clear := by rw [getElem?_modify_slots hs, if_pos rfl]
      have hfilled := htracks.occupy hcleared rfl (f := .fill path module) rfl
      rw [modify_modify] at hfilled
      refine ⟨_, .load (h.unknown hunknown) hmake hload ?_, hfilled⟩
      -- the slot's generation has just gone up, past that of every handle to it
      intro lease hlease heq
      obtain ⟨t, ht, hgeneration, -⟩ := h.mem_leases.mp hlease
      rw [heq] at ht hgeneration
      rw [hs, Option.some.injEq] at ht
      rw [ht] at hgeneration
      simp at hgeneration

/-- **`release` is a transition.** -/
theorem release (h : Tracks n pool r) (hvalid : r.Valid n) {handle : Handle} {outcome : Except Error Unit × Pool α}
    (houtcome : Releases pool handle outcome) :
    ∃ r', Recency.Step n r (α := α) ⟨.release handle, outcome.1.map fun _ => none⟩ r' ∧ Tracks n outcome.2 r' := by
  cases houtcome with
  | stale hstale =>
      refine ⟨r, .stale ?_, h⟩
      rintro lease hlease rfl
      obtain ⟨s, hs, hgeneration, hpath⟩ := h.mem_leases.mp hlease
      rw [occupied_eq_ok.mpr ⟨s, hs, hgeneration, rfl, Holding.ne_unused_of_path? hpath⟩] at hstale
      cases hstale
  | @unheld s hs hgeneration hused hcount =>
      cases hholding : s.holding with
      | unused => exact absurd hholding hused
      | active path module count =>
          -- taken modules have positive counts
          obtain ⟨others, hr, -⟩ := h.recount hs hholding
          have hpositive := hvalid.counted (⟨path, ⟨handle.slot, s.generation⟩⟩, count)
            (by rw [hr]; exact Multiset.mem_cons_self _ _)
          simp only [hholding, Holding.count] at hcount hpositive
          omega
      | warm path module since =>
          obtain ⟨before, after, hr, -, -⟩ := h.withdraw hs hholding
          rw [hgeneration] at hr
          have hwarm : (⟨path, handle⟩ : Lease) ∈ r.warm := by
            rw [hr]
            simp
          exact ⟨r, .unheld hwarm, h⟩
  | @lowered s path module count hs hgeneration hactive =>
      obtain ⟨others, hr, htracks⟩ := h.recount hs hactive
      rw [hgeneration] at hr htracks
      have htracks := htracks (.letGo (pool.clock + 1)) (count + 1)
        (by rw [Slot.letGo_of_many _ hactive, hgeneration])
      rw [hr]
      exact ⟨_, .lower, htracks⟩
  | @last s path module hs hgeneration hactive =>
      obtain ⟨others, hr, htracks⟩ := h.retire hs hactive
      rw [hgeneration] at hr htracks
      rw [hr]
      exact ⟨_, .last, htracks⟩

/-- **Every call is a transition.** -/
theorem perform (h : Tracks n pool r) (hvalid : r.Valid n) (call : Call α) :
    ∃ r', Recency.Step n r ⟨call, (pool.perform call).1⟩ r' ∧ Tracks n (pool.perform call).2 r' := by
  cases call with
  | acquire load path => exact h.acquire (acquire_outcome pool load path)
  | release handle => exact h.release hvalid (release_outcome pool handle)
  | flush =>
      refine ⟨.empty, .flush, of_unused ?_ ?_⟩
      · show (pool.slots.map Slot.clear).length = n
        rw [List.length_map]
        exact h.capacity
      · intro s hs
        obtain ⟨t, -, rfl⟩ := List.mem_map.mp hs
        rfl

/-- A path that is held is found, so that nothing is loaded for it. -/
theorem acquire_held (h : Tracks n pool r) {lease : Lease} (hlease : lease ∈ r.leases) {path : Path}
    (hsame : lease.path.Same path) (load load' : Path → Except Error α) :
    pool.acquire load path = pool.acquire load' path := by
  obtain ⟨s, hs, -, hpath⟩ := h.mem_leases.mp hlease
  have hholds : s.holds path = true := Slot.holds_iff.mpr ⟨lease.path, hpath, hsame⟩
  exact acquire_of_holds (List.mem_of_getElem? hs) hholds load load'

end Tracks

/-! ## Main statement -/

/-- **The pool is a least-recently-released store.** Whatever calls are made on a pool of `n` slots, whatever loading
    gives each time, the events are a run of the abstract store: the pool ends in slots that stand for what this run
    holds, which is at most `n` modules under different paths and handles. A path that is held is not loaded again,
    and a refused release leaves the slots themselves as they were. -/
theorem run_refines_recency (n : Nat) (calls : List (Call α)) :
    ∃ r, Recency.Run n .empty ((ofCapacity n).run calls).1 r ∧ Tracks n ((ofCapacity n).run calls).2 r ∧
      r.Valid n ∧
      (∀ lease ∈ r.leases, ∀ path, lease.path.Same path → ∀ load load' : Path → Except Error α,
        ((ofCapacity n).run calls).2.acquire load path = ((ofCapacity n).run calls).2.acquire load' path) ∧
      ∀ handle e, (((ofCapacity n).run calls).2.release handle).1 = .error e →
        (((ofCapacity n).run calls).2.release handle).2 = ((ofCapacity n).run calls).2 := by
  -- the abstract store is carried along, and stays valid
  have hrun : ∃ r, Recency.Run n .empty ((ofCapacity n).run calls).1 r ∧ Tracks n ((ofCapacity n).run calls).2 r ∧
      r.Valid n := by
    refine run_induction (motive := fun events pool =>
      ∃ r, Recency.Run n .empty events r ∧ Tracks n pool r ∧ r.Valid n) ?_ ?_ calls
    · refine ⟨.empty, .nil, Tracks.of_unused List.length_replicate ?_, .empty n⟩
      intro s hs
      rw [List.eq_of_mem_replicate hs]
      rfl
    · rintro events pool call ⟨r, hrun, htracks, hvalid⟩
      obtain ⟨r', hstep, htracks'⟩ := htracks.perform hvalid call
      exact ⟨r', hrun.snoc hstep, htracks', hstep.valid hvalid⟩
  obtain ⟨r, hevents, htracks, hvalid⟩ := hrun
  refine ⟨r, hevents, htracks, hvalid, ?_, ?_⟩
  · intro lease hlease path hsame load load'
    exact htracks.acquire_held hlease hsame load load'
  · intro handle e herror
    exact release_of_error herror

end Pool

end Unwinder
