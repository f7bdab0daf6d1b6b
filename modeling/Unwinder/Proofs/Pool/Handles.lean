import Mathlib.Data.List.Count
import Unwinder.Proofs.Pool.Calls

/-!
# `Proofs.Pool.Handles` — a handle never comes to name another module

Slots are reused: for other paths, after failed loads, after a flush, and by a path that becomes warm and is taken
again. What a handle may say is therefore a matter of the whole history of a pool, here the events of a run.

## Contents
- **Histories.** How often a handle was issued and given back (`acquired`, `released`), what was loaded when it was
  issued first (`FirstLoad`), and whether everything was dropped since (`FlushedSince`).
- **One slot.** `Turns` lists what an event does to a slot, `Ledger` says how a slot accounts for a handle to it, and
  `Ledger.step` shows that every turn keeps the account.
- **Runs.** `accounts_run`: every slot accounts for every handle, after every run. `Passed` is the state of a handle
  whose contents are gone, which no call ends.
- **Main statement.** `handles_never_alias`.
-/

namespace Unwinder

variable {α : Type}

namespace Pool

/-! ## Histories -/

/-- The handle an event hands out. -/
def Event.issued? : Event α → Option Handle
  | ⟨.acquire _ _, .ok (some h)⟩ => some h
  | _ => none

/-- The handle an event takes back. -/
def Event.returned? : Event α → Option Handle
  | ⟨.release h, .ok _⟩ => some h
  | _ => none

/-- How often a handle has been handed out. -/
def acquired (events : List (Event α)) (h : Handle) : Nat := events.countP (·.issued? = some h)

/-- How often a handle has been taken back. -/
def released (events : List (Event α)) (h : Handle) : Nat := events.countP (·.returned? = some h)

/-- Some `acquire` has answered with a handle. -/
def Issued (events : List (Event α)) (h : Handle) : Prop := ∃ event ∈ events, event.issued? = some h

/-- The path for which a handle was handed out the first time, and the module that loading gave then. -/
def FirstLoad (events : List (Event α)) (h : Handle) (path : Path) (module : α) : Prop :=
  ∃ load, events.find? (·.issued? = some h) = some ⟨.acquire load path, .ok (some h)⟩ ∧ load path = .ok module

/-- Everything was dropped after a handle had been issued. -/
def FlushedSince (events : List (Event α)) (h : Handle) : Prop :=
  ∃ before after, events = before ++ after ∧ Issued before h ∧ ∃ event ∈ after, event.call = .flush

section Histories

variable {events : List (Event α)} {event : Event α} {h : Handle}

theorem acquired_snoc :
    acquired (events ++ [event]) h = acquired events h + if event.issued? = some h then 1 else 0 := by
  simp [acquired, List.countP_append, List.countP_singleton]

theorem released_snoc :
    released (events ++ [event]) h = released events h + if event.returned? = some h then 1 else 0 := by
  simp [released, List.countP_append, List.countP_singleton]

theorem issued_snoc : Issued (events ++ [event]) h ↔ Issued events h ∨ event.issued? = some h := by
  simp [Issued, or_and_right, exists_or]

theorem acquired_eq_zero : acquired events h = 0 ↔ ¬ Issued events h := by
  simp [acquired, Issued, List.countP_eq_zero]

/-- The first load is settled by the events up to it. -/
theorem FirstLoad.snoc {path : Path} {module : α} (hload : FirstLoad events h path module) :
    FirstLoad (events ++ [event]) h path module := by
  obtain ⟨load, hfirst, hmodule⟩ := hload
  refine ⟨load, ?_, hmodule⟩
  rw [List.find?_append, hfirst]
  rfl

theorem FirstLoad.issued {path : Path} {module : α} (hload : FirstLoad events h path module) :
    Issued events h := by
  obtain ⟨load, hfirst, -⟩ := hload
  exact ⟨_, List.mem_of_find?_eq_some hfirst, rfl⟩

theorem FirstLoad.unique {path path' : Path} {module module' : α} (hload : FirstLoad events h path module)
    (hload' : FirstLoad events h path' module') : path' = path ∧ module' = module := by
  obtain ⟨load, hfirst, hmodule⟩ := hload
  obtain ⟨load', hfirst', hmodule'⟩ := hload'
  rw [hfirst] at hfirst'
  cases hfirst'
  rw [hmodule] at hmodule'
  exact ⟨rfl, (Except.ok.inj hmodule').symm⟩

/-- The first `acquire` to answer with a handle that it loads a module for. -/
theorem firstLoad_snoc {load : Path → Except Error α} {path : Path} {module : α} (hnew : acquired events h = 0)
    (hload : load path = .ok module) :
    FirstLoad (events ++ [⟨.acquire load path, .ok (some h)⟩]) h path module := by
  refine ⟨load, ?_, hload⟩
  have hnone : events.find? (·.issued? = some h) = none := by
    rw [List.find?_eq_none]
    exact List.countP_eq_zero.mp hnew
  rw [List.find?_append, hnone]
  simp [Event.issued?]

theorem FlushedSince.snoc (hflushed : FlushedSince events h) : FlushedSince (events ++ [event]) h := by
  obtain ⟨before, after, rfl, hissued, flush, hmem, hflush⟩ := hflushed
  exact ⟨before, after ++ [event], by simp, hissued, flush, List.mem_append_left _ hmem, hflush⟩

end Histories

/-! ## One slot -/

/-- An event that neither hands a handle out nor takes it back. -/
def Event.Quiet (event : Event α) (h : Handle) : Prop := event.issued? ≠ some h ∧ event.returned? ≠ some h

/-- **Turns of a slot**: what an event does to the slot at place `i`. -/
inductive Turns (event : Event α) (i : Nat) (s : Slot α) : Slot α → Prop where
  /-- Nothing. -/
  | kept (hquiet : ∀ h, h.slot = i → event.Quiet h) : Turns event i s s
  /-- Its module is taken once more. -/
  | retained (hissued : event.issued? = some ⟨i, s.generation⟩) (hreturned : event.returned? = none)
      (hused : s.holding ≠ .unused) : Turns event i s s.retain
  /-- It is cleared for a module that cannot be loaded. -/
  | vacated (hquiet : ∀ h, h.slot = i → event.Quiet h) (hidle : s.holding.count = 0) : Turns event i s s.clear
  /-- It is cleared for a module that can. -/
  | reused {load : Path → Except Error α} {path : Path} {module : α}
      (hevent : event = ⟨.acquire load path, .ok (some ⟨i, s.generation + 1⟩)⟩) (hload : load path = .ok module)
      (hidle : s.holding.count = 0) : Turns event i s (s.clear.fill path module)
  /-- Its module is given back. -/
  | givenBack (time : Nat) (hevent : event = ⟨.release ⟨i, s.generation⟩, .ok none⟩) (hheld : 0 < s.holding.count) :
      Turns event i s (s.letGo time)
  /-- It is cleared with all the others. -/
  | flushed (hevent : event = ⟨.flush, .ok none⟩) : Turns event i s s.clear

/-- **How a slot accounts for a handle to it.** The handle belongs to contents to come, to the present contents, or to
    past ones; the present contents were loaded when it was issued first, and count what is out. -/
inductive Ledger (events : List (Event α)) (h : Handle) (s : Slot α) : Prop where
  | ahead (hgeneration : s.generation < h.generation) (hacquired : acquired events h = 0)
      (hreleased : released events h = 0)
  | vacant (hgeneration : s.generation = h.generation) (hunused : s.holding = .unused)
      (hacquired : acquired events h = 0) (hreleased : released events h = 0)
  | present {path : Path} {module : α} (hgeneration : s.generation = h.generation)
      (hpath : s.holding.path? = some path) (hmodule : s.holding.module? = some module)
      (hload : FirstLoad events h path module) (hcount : acquired events h = released events h + s.holding.count)
  | gone (hgeneration : h.generation < s.generation)
      (hloaded : Issued events h → ∃ path module, FirstLoad events h path module)
      (hsettled : FlushedSince events h ∨ acquired events h = released events h)

namespace Ledger

variable {events : List (Event α)} {event : Event α} {h : Handle} {s : Slot α}

/-- Events about other handles leave the account as it is. -/
theorem quiet (hledger : Ledger events h s) (hquiet : event.Quiet h) : Ledger (events ++ [event]) h s := by
  have hacquired : acquired (events ++ [event]) h = acquired events h := by
    rw [acquired_snoc, if_neg hquiet.1, Nat.add_zero]
  have hreleased : released (events ++ [event]) h = released events h := by
    rw [released_snoc, if_neg hquiet.2, Nat.add_zero]
  cases hledger with
  | ahead hgeneration ha hr => exact .ahead hgeneration (hacquired.trans ha) (hreleased.trans hr)
  | vacant hgeneration hunused ha hr => exact .vacant hgeneration hunused (hacquired.trans ha) (hreleased.trans hr)
  | present hgeneration hpath hmodule hload hcount =>
      exact .present hgeneration hpath hmodule hload.snoc (by rw [hacquired, hreleased, hcount])
  | gone hgeneration hloaded hsettled =>
      refine .gone hgeneration ?_ ?_
      · intro hissued
        obtain ⟨path, module, hload⟩ := hloaded ((issued_snoc.mp hissued).resolve_right hquiet.1)
        exact ⟨path, module, hload.snoc⟩
      · rcases hsettled with hflushed | hcount
        · exact .inl hflushed.snoc
        · exact .inr (by rw [hacquired, hreleased, hcount])

/-- An event about the present handle of a slot says nothing about the others, nor does what the slot holds. -/
theorem other (hledger : Ledger events h s) (hne : h.generation ≠ s.generation) {t : Slot α}
    (hsame : t.generation = s.generation)
    (hpresent : ∀ k, event.issued? = some k ∨ event.returned? = some k → k.generation = s.generation) :
    Ledger (events ++ [event]) h t := by
  have hquiet : event.Quiet h := by
    constructor
    · exact fun hissued => hne (hpresent h (.inl hissued))
    · exact fun hreturned => hne (hpresent h (.inr hreturned))
  cases hledger.quiet hquiet with
  | ahead hgeneration ha hr => exact .ahead (by rw [hsame]; exact hgeneration) ha hr
  | vacant hgeneration _ _ _ => exact absurd hgeneration.symm hne
  | present hgeneration _ _ _ _ => exact absurd hgeneration.symm hne
  | gone hgeneration hloaded hsettled => exact .gone (by rw [hsame]; exact hgeneration) hloaded hsettled

/-- What a slot says about its present handle. -/
theorem of_used (hledger : Ledger events h s) (hgeneration : h.generation = s.generation)
    (hused : s.holding ≠ .unused) :
    ∃ path module, s.holding.path? = some path ∧ s.holding.module? = some module ∧ FirstLoad events h path module ∧
      acquired events h = released events h + s.holding.count := by
  cases hledger with
  | ahead hlt _ _ => omega
  | vacant _ hunused _ _ => exact absurd hunused hused
  | present _ hpath hmodule hload hcount => exact ⟨_, _, hpath, hmodule, hload, hcount⟩
  | gone hlt _ _ => omega

/-- Dropping the contents of a slot ends the handles of its generation. Nothing is out, or a flush took it. -/
theorem clear (hledger : Ledger events h s)
    (hdrop : s.holding.count = 0 ∨ (Issued events h → FlushedSince events h)) : Ledger events h s.clear := by
  cases hledger with
  | ahead hgeneration ha hr =>
      -- the next generation is the handle's, or still comes before it
      by_cases hnext : h.generation = s.generation + 1
      · exact .vacant hnext.symm rfl ha hr
      · refine .ahead ?_ ha hr
        show s.generation + 1 < h.generation
        omega
  | vacant hgeneration _ ha hr =>
      refine .gone (by rw [← hgeneration]; exact Nat.lt_succ_self _) ?_ (.inr (ha.trans hr.symm))
      exact fun hissued => absurd hissued (acquired_eq_zero.mp ha)
  | present hgeneration _ _ hload hcount =>
      refine .gone (by rw [← hgeneration]; exact Nat.lt_succ_self _) (fun _ => ⟨_, _, hload⟩) ?_
      rcases hdrop with hnone | hflushed
      · exact .inr (by rw [hcount, hnone, Nat.add_zero])
      · exact .inl (hflushed hload.issued)
  | gone hgeneration hloaded hsettled => exact .gone (Nat.lt_succ_of_lt hgeneration) hloaded hsettled

/-- A module loaded into an empty slot is the first under the handle of the slot's generation. -/
theorem fill (hledger : Ledger events h s) (hunused : s.holding = .unused) {load : Path → Except Error α}
    {path : Path} {module : α} (hload : load path = .ok module) :
    Ledger (events ++ [⟨.acquire load path, .ok (some ⟨h.slot, s.generation⟩)⟩]) h (s.fill path module) := by
  by_cases hgeneration : h.generation = s.generation
  · have hhandle : (⟨h.slot, s.generation⟩ : Handle) = h := by rw [← hgeneration]
    rw [hhandle]
    cases hledger with
    | ahead hlt _ _ => omega
    | vacant _ _ ha hr =>
        -- nothing was issued under this generation before
        refine .present hgeneration.symm rfl rfl (firstLoad_snoc ha hload) ?_
        rw [acquired_snoc, released_snoc, ha, hr]
        simp [Event.issued?, Event.returned?, Slot.fill, Holding.count]
    | present _ hpath _ _ _ =>
        rw [hunused] at hpath
        cases hpath
    | gone hlt _ _ => omega
  · refine hledger.other hgeneration rfl ?_
    rintro k (hissued | hreturned)
    · simp only [Event.issued?, Option.some.injEq] at hissued
      rw [← hissued]
    · simp [Event.returned?] at hreturned

/-- A module taken once more is out once more. -/
theorem retain (hledger : Ledger events h s) (hissued : event.issued? = some ⟨h.slot, s.generation⟩)
    (hreturned : event.returned? = none) (hused : s.holding ≠ .unused) :
    Ledger (events ++ [event]) h s.retain := by
  by_cases hgeneration : h.generation = s.generation
  · have hhandle : (⟨h.slot, s.generation⟩ : Handle) = h := by rw [← hgeneration]
    rw [hhandle] at hissued
    obtain ⟨path, module, hpath, hmodule, hload, hcount⟩ := hledger.of_used hgeneration hused
    refine .present (s.retain_generation.trans hgeneration.symm) (s.retain_path?.trans hpath)
      (s.retain_module?.trans hmodule) hload.snoc ?_
    rw [acquired_snoc, released_snoc, if_pos hissued, hreturned, if_neg (by simp), Slot.retain_count hused, hcount]
    omega
  · refine hledger.other hgeneration s.retain_generation ?_
    rintro k (hk | hk)
    · rw [hissued, Option.some.injEq] at hk
      rw [← hk]
    · rw [hreturned] at hk
      cases hk

/-- A module given back is out once less. -/
theorem giveBack (hledger : Ledger events h s) (time : Nat) (hheld : 0 < s.holding.count) :
    Ledger (events ++ [⟨.release ⟨h.slot, s.generation⟩, .ok none⟩]) h (s.letGo time) := by
  by_cases hgeneration : h.generation = s.generation
  · have hhandle : (⟨h.slot, s.generation⟩ : Handle) = h := by rw [← hgeneration]
    have hused : s.holding ≠ .unused := by
      intro hunused
      rw [hunused] at hheld
      cases hheld
    rw [hhandle]
    obtain ⟨path, module, hpath, hmodule, hload, hcount⟩ := hledger.of_used hgeneration hused
    refine .present ((s.letGo_generation time).trans hgeneration.symm) ((s.letGo_path? time).trans hpath)
      ((s.letGo_module? time).trans hmodule) hload.snoc ?_
    have hissued : Event.issued? (α := α) ⟨.release h, .ok none⟩ = none := rfl
    have hreturned : Event.returned? (α := α) ⟨.release h, .ok none⟩ = some h := rfl
    rw [acquired_snoc, released_snoc, hissued, hreturned, if_neg (by simp), if_pos rfl, Slot.letGo_count, hcount]
    omega
  · refine hledger.other hgeneration (s.letGo_generation time) ?_
    rintro k (hissued | hreturned)
    · simp [Event.issued?] at hissued
    · simp only [Event.returned?, Option.some.injEq] at hreturned
      rw [← hreturned]

/-- **Every turn of a slot keeps the account of a handle to it.** -/
theorem step (hledger : Ledger events h s) {t : Slot α} (hturns : Turns event h.slot s t) :
    Ledger (events ++ [event]) h t := by
  cases hturns with
  | kept hquiet => exact hledger.quiet (hquiet h rfl)
  | retained hissued hreturned hused => exact hledger.retain hissued hreturned hused
  | vacated hquiet hidle => exact (hledger.quiet (hquiet h rfl)).clear (.inl hidle)
  | reused hevent hload hidle =>
      rw [hevent]
      exact (hledger.clear (.inl hidle)).fill rfl hload
  | givenBack time hevent hheld =>
      rw [hevent]
      exact hledger.giveBack time hheld
  | flushed hevent =>
      have hquiet : event.Quiet h := by simp [Event.Quiet, hevent, Event.issued?, Event.returned?]
      refine (hledger.quiet hquiet).clear (.inr ?_)
      intro hissued
      -- the flush itself issued nothing
      have hbefore : Issued events h := (issued_snoc.mp hissued).resolve_right hquiet.1
      exact ⟨events, [event], rfl, hbefore, event, List.mem_singleton_self _, by rw [hevent]⟩

end Ledger

/-! ## Runs -/

variable {pool : Pool α} {load : Path → Except Error α} {path : Path} {handle : Handle}

/-- A slot chosen for a new module is not in use. -/
theorem HasRoom.idle {s : Slot α} (h : HasRoom pool s) : s.holding.count = 0 := by
  rcases h with hunused | ⟨-, path, module, since, hwarm, -⟩
  · rw [hunused]
    rfl
  · rw [hwarm]
    rfl

/-- Every slot turns when `acquire` is called. -/
theorem Acquires.turns {outcome : Except Error Handle × Pool α} (houtcome : Acquires pool load path outcome)
    {i : Nat} {s : Slot α} (hs : pool.slots[i]? = some s) :
    ∃ t, outcome.2.slots[i]? = some t ∧ Turns ⟨.acquire load path, outcome.1.map some⟩ i s t := by
  -- the events name the slot that was chosen, and are quiet about the others
  have hother : ∀ {j g : Nat}, i ≠ j → ∀ h : Handle, h.slot = i →
      Event.Quiet (α := α) ⟨.acquire load path, .ok (some ⟨j, g⟩)⟩ h := by
    rintro j g hne h rfl
    constructor
    · simp only [Event.issued?, ne_eq, Option.some.injEq]
      rintro rfl
      exact hne rfl
    · simp [Event.returned?]
  have hfailed : ∀ (e : Error) (h : Handle), Event.Quiet (α := α) ⟨.acquire load path, .error e⟩ h := by
    intro e h
    simp [Event.Quiet, Event.issued?, Event.returned?]
  cases houtcome with
  | @again j u hu hholds =>
      by_cases hj : i = j
      · subst hj
        obtain rfl : s = u := Option.some.inj (hs.symm.trans hu)
        refine ⟨s.retain, by rw [getElem?_modify_slots hs, if_pos rfl], .retained rfl rfl ?_⟩
        intro hunused
        rw [Slot.not_holds_of_unused hunused] at hholds
        cases hholds
      · exact ⟨s, by rw [getElem?_modify_slots hu, if_neg hj, hs], .kept (hother hj)⟩
  | full hunknown hroom => exact ⟨s, hs, .kept fun h _ => hfailed _ h⟩
  | @failed j u e hunknown hu hroom hload =>
      by_cases hj : i = j
      · subst hj
        obtain rfl : s = u := Option.some.inj (hs.symm.trans hu)
        exact ⟨s.clear, by rw [getElem?_modify_slots hs, if_pos rfl], .vacated (fun h _ => hfailed e h) hroom.idle⟩
      · exact ⟨s, by rw [getElem?_modify_slots hu, if_neg hj, hs], .kept fun h _ => hfailed e h⟩
  | @loaded j u module hunknown hu hroom hload =>
      by_cases hj : i = j
      · subst hj
        obtain rfl : s = u := Option.some.inj (hs.symm.trans hu)
        exact ⟨s.clear.fill path module, by rw [getElem?_modify_slots hs, if_pos rfl], .reused rfl hload hroom.idle⟩
      · exact ⟨s, by rw [getElem?_modify_slots hu, if_neg hj, hs], .kept (hother hj)⟩

/-- Every slot turns when `release` is called. -/
theorem Releases.turns {outcome : Except Error Unit × Pool α} (houtcome : Releases pool handle outcome) {i : Nat}
    {s : Slot α} (hs : pool.slots[i]? = some s) :
    ∃ t, outcome.2.slots[i]? = some t ∧ Turns ⟨.release handle, outcome.1.map fun _ => none⟩ i s t := by
  have hother : i ≠ handle.slot → ∀ h : Handle, h.slot = i →
      Event.Quiet (α := α) ⟨.release handle, .ok none⟩ h := by
    rintro hne h rfl
    constructor
    · simp [Event.issued?]
    · simp only [Event.returned?, ne_eq, Option.some.injEq]
      rintro rfl
      exact hne rfl
  have hfailed : ∀ (e : Error) (h : Handle), Event.Quiet (α := α) ⟨.release handle, .error e⟩ h := by
    intro e h
    simp [Event.Quiet, Event.issued?, Event.returned?]
  cases houtcome with
  | stale _ => exact ⟨s, hs, .kept fun h _ => hfailed _ h⟩
  | unheld _ _ _ _ => exact ⟨s, hs, .kept fun h _ => hfailed _ h⟩
  | @lowered u path module count hu hgeneration hactive =>
      by_cases hj : i = handle.slot
      · subst hj
        obtain rfl : s = u := Option.some.inj (hs.symm.trans hu)
        refine ⟨s.letGo (pool.clock + 1), by rw [getElem?_modify_slots hs, if_pos rfl], .givenBack _ ?_ ?_⟩
        · rw [hgeneration]
          rfl
        · rw [hactive]
          exact Nat.succ_pos _
      · exact ⟨s, by rw [getElem?_modify_slots hu, if_neg hj, hs], .kept (hother hj)⟩
  | @last u path module hu hgeneration hactive =>
      by_cases hj : i = handle.slot
      · subst hj
        obtain rfl : s = u := Option.some.inj (hs.symm.trans hu)
        refine ⟨s.letGo (pool.clock + 1), ?_, .givenBack _ ?_ ?_⟩
        · show (pool.modify _ _).slots[handle.slot]? = _
          rw [getElem?_modify_slots hs, if_pos rfl]
        · rw [hgeneration]
          rfl
        · rw [hactive]
          exact Nat.one_pos
      · refine ⟨s, ?_, .kept (hother hj)⟩
        show (pool.modify _ _).slots[i]? = _
        rw [getElem?_modify_slots hu, if_neg hj, hs]

/-- No call changes the number of slots. -/
theorem length_perform (pool : Pool α) (call : Call α) :
    (pool.perform call).2.slots.length = pool.slots.length := by
  cases call with
  | acquire load path =>
      have houtcome := acquire_outcome pool load path
      show (pool.acquire load path).2.slots.length = pool.slots.length
      generalize pool.acquire load path = outcome at houtcome
      cases houtcome <;> simp
  | release handle =>
      have houtcome := release_outcome pool handle
      show (pool.release handle).2.slots.length = pool.slots.length
      generalize pool.release handle = outcome at houtcome
      cases houtcome <;> simp
  | flush => simp [perform, flush]

/-- **Every slot turns with every call**: a slot after a call was the slot at its place before, turned once. -/
theorem perform_turns {pool : Pool α} {call : Call α} {i : Nat} {t : Slot α}
    (ht : (pool.perform call).2.slots[i]? = some t) :
    ∃ s, pool.slots[i]? = some s ∧ Turns ⟨call, (pool.perform call).1⟩ i s t := by
  have hbound := (List.getElem?_eq_some_iff.mp ht).1
  rw [length_perform] at hbound
  have hs := List.getElem?_eq_getElem hbound
  refine ⟨_, hs, ?_⟩
  cases call with
  | acquire load path =>
      obtain ⟨t', ht', hturns⟩ := (acquire_outcome pool load path).turns hs
      obtain rfl : t = t' := Option.some.inj (ht.symm.trans ht')
      exact hturns
  | release handle =>
      obtain ⟨t', ht', hturns⟩ := (release_outcome pool handle).turns hs
      obtain rfl : t = t' := Option.some.inj (ht.symm.trans ht')
      exact hturns
  | flush =>
      have ht' : (pool.slots.map Slot.clear)[i]? = some t := ht
      rw [List.getElem?_map, hs, Option.map_some, Option.some.injEq] at ht'
      rw [← ht']
      exact .flushed rfl

/-- A handle that is handed out names a slot. -/
theorem issued_within (pool : Pool α) (call : Call α) {h : Handle}
    (hissued : Event.issued? ⟨call, (pool.perform call).1⟩ = some h) : h.slot < pool.slots.length := by
  cases call with
  | acquire load path =>
      have houtcome := acquire_outcome pool load path
      simp only [perform] at hissued
      generalize pool.acquire load path = outcome at houtcome hissued
      cases houtcome with
      | again hs _ =>
          obtain rfl := Option.some.inj hissued
          exact (List.getElem?_eq_some_iff.mp hs).1
      | full _ _ => cases hissued
      | failed _ _ _ _ => cases hissued
      | loaded _ hs _ _ =>
          obtain rfl := Option.some.inj hissued
          exact (List.getElem?_eq_some_iff.mp hs).1
  | release handle => cases hissued
  | flush => cases hissued

/-- **Accounts.** Every slot accounts for every handle to it, and every handle issued is to a slot. -/
structure Accounts (events : List (Event α)) (pool : Pool α) : Prop where
  ledger : ∀ h s, pool.slots[h.slot]? = some s → Ledger events h s
  within : ∀ h, Issued events h → h.slot < pool.slots.length

/-- Every call keeps the accounts. -/
theorem Accounts.perform {events : List (Event α)} (haccounts : Accounts events pool) (call : Call α) :
    Accounts (events ++ [⟨call, (pool.perform call).1⟩]) (pool.perform call).2 := by
  constructor
  · intro h t ht
    obtain ⟨s, hs, hturns⟩ := perform_turns ht
    exact (haccounts.ledger h s hs).step hturns
  · intro h hissued
    rw [length_perform]
    rcases issued_snoc.mp hissued with hbefore | hnow
    · exact haccounts.within h hbefore
    · exact issued_within pool call hnow

/-- **The accounts hold after every run.** -/
theorem accounts_run (n : Nat) (calls : List (Call α)) :
    Accounts ((ofCapacity n).run calls).1 ((ofCapacity n).run calls).2 := by
  refine run_induction ⟨?_, ?_⟩ (fun _ _ call haccounts => haccounts.perform call) calls
  · intro h s hs
    rw [List.eq_of_mem_replicate (List.mem_of_getElem? hs)]
    by_cases hzero : h.generation = 0
    · exact .vacant hzero.symm rfl rfl rfl
    · exact .ahead (Nat.pos_of_ne_zero hzero) rfl rfl
  · rintro h ⟨event, hmem, -⟩
    cases hmem

/-- The contents that a handle names are gone, or its slot was emptied under its generation. -/
def Passed (pool : Pool α) (h : Handle) : Prop :=
  ∀ s, pool.slots[h.slot]? = some s →
    h.generation < s.generation ∨ h.generation = s.generation ∧ s.holding = .unused

/-- Generations never go back, and a slot that was emptied is filled under a new one. -/
theorem Turns.later {event : Event α} {i : Nat} {s t : Slot α} (h : Turns event i s t) :
    s.generation < t.generation ∨ s.generation = t.generation ∧ (s.holding = .unused → t.holding = .unused) := by
  cases h with
  | kept _ => exact .inr ⟨rfl, id⟩
  | retained _ _ hused => exact .inr ⟨(Slot.retain_generation s).symm, fun hunused => absurd hunused hused⟩
  | vacated _ _ => exact .inl (Nat.lt_succ_self _)
  | reused _ _ _ => exact .inl (Nat.lt_succ_self _)
  | givenBack time _ hheld =>
      refine .inr ⟨(s.letGo_generation time).symm, ?_⟩
      intro hunused
      rw [hunused] at hheld
      cases hheld
  | flushed _ => exact .inl (Nat.lt_succ_self _)

/-- **What has passed does not come back.** -/
theorem Passed.run {h : Handle} (hpassed : Passed pool h) (calls : List (Call α)) : Passed (pool.run calls).2 h := by
  refine run_induction (motive := fun _ pool => Passed pool h) hpassed ?_ calls
  intro _ pool call hpassed t ht
  -- generations only grow, and a slot emptied under the handle's stays empty until it grows
  obtain ⟨s, hs, hturns⟩ := perform_turns ht
  rcases hpassed s hs with hlt | ⟨heq, hunused⟩
  · rcases hturns.later with hlater | ⟨hsame, -⟩
    · exact .inl (Nat.lt_trans hlt hlater)
    · exact .inl (by rw [← hsame]; exact hlt)
  · rcases hturns.later with hlater | ⟨hsame, hstays⟩
    · exact .inl (by rw [heq]; exact hlater)
    · exact .inr ⟨heq.trans hsame, hstays hunused⟩

/-! ## What handles answer -/

/-- One of the operations refuses a handle as stale. -/
def RefusedAsStale (pool : Pool α) (h : Handle) : Prop :=
  pool.get h = .error (.misuse (.staleHandle h)) ∨ pool.pathOf h = .error (.misuse (.staleHandle h)) ∨
    pool.occupied h = .error (.misuse (.staleHandle h)) ∨ (pool.release h).1 = .error (.misuse (.staleHandle h))

/-- All of them refuse it as an invalid argument, and leave the pool as it is. -/
def RefusedByAll (pool : Pool α) (h : Handle) : Prop :=
  ∃ e : Error, e.status = .invalidArgument ∧ pool.get h = .error e ∧ pool.pathOf h = .error e ∧
    pool.occupied h = .error e ∧ pool.release h = (.error e, pool)

/-- A refusal by one of them shows that the contents are not there. -/
theorem RefusedAsStale.occupied {h : Handle} (hrefused : RefusedAsStale pool h) :
    pool.occupied h = .error (.misuse (.staleHandle h)) := by
  cases hoccupied : pool.occupied h with
  | error e => rw [occupied_eq_error hoccupied]
  | ok holding =>
      obtain ⟨path, module, -, -, hpath, hget⟩ := get_of_occupied hoccupied
      rcases hrefused with hrefused | hrefused | hrefused | hrefused
      · rw [hget] at hrefused
        cases hrefused
      · rw [hpath] at hrefused
        cases hrefused
      · rw [hoccupied] at hrefused
        cases hrefused
      · have houtcome := release_outcome pool h
        generalize pool.release h = outcome at houtcome hrefused
        cases houtcome with
        | stale hstale =>
            rw [hoccupied] at hstale
            cases hstale
        | unheld _ _ _ _ => cases hrefused
        | lowered _ _ _ => cases hrefused
        | last _ _ _ => cases hrefused

theorem Passed.refused {h : Handle} (hpassed : Passed pool h) : RefusedByAll pool h := by
  have hoccupied : pool.occupied h = .error (.misuse (.staleHandle h)) := by
    cases hoccupied : pool.occupied h with
    | error e => rw [occupied_eq_error hoccupied]
    | ok holding =>
        obtain ⟨s, hs, hgeneration, rfl, hused⟩ := occupied_eq_ok.mp hoccupied
        rcases hpassed s hs with hlt | ⟨-, hunused⟩
        · omega
        · exact absurd hunused hused
  obtain ⟨hget, hpathOf, hrelease⟩ := refused_of_occupied hoccupied
  exact ⟨_, rfl, hget, hpathOf, hoccupied, hrelease⟩

section Accounts

variable {events : List (Event α)} {h : Handle}

/-- A handle that was issued and is refused names contents that are gone. -/
theorem Accounts.passed (haccounts : Accounts events pool) (hissued : Issued events h)
    (hrefused : RefusedAsStale pool h) : Passed pool h := by
  have hoccupied := hrefused.occupied
  intro s hs
  cases haccounts.ledger h s hs with
  | ahead _ hacquired _ => exact absurd hissued (acquired_eq_zero.mp hacquired)
  | vacant _ _ hacquired _ => exact absurd hissued (acquired_eq_zero.mp hacquired)
  | present hgeneration hpath _ _ _ =>
      rw [occupied_eq_ok.mpr ⟨s, hs, hgeneration, rfl, Holding.ne_unused_of_path? hpath⟩] at hoccupied
      cases hoccupied
  | gone hgeneration _ _ => exact .inl hgeneration

/-- What a handle names was loaded when it was issued first, and is out as often as it was taken and not given
    back. -/
theorem Accounts.occupied (haccounts : Accounts events pool) {holding : Holding α}
    (hoccupied : pool.occupied h = .ok holding) :
    (∃ path module, holding.path? = some path ∧ holding.module? = some module ∧ FirstLoad events h path module) ∧
      acquired events h = released events h + holding.count := by
  obtain ⟨s, hs, hgeneration, rfl, hused⟩ := occupied_eq_ok.mp hoccupied
  obtain ⟨path, module, hpath, hmodule, hload, hcount⟩ := (haccounts.ledger h s hs).of_used hgeneration.symm hused
  exact ⟨⟨path, module, hpath, hmodule, hload⟩, hcount⟩

/-- The operations answer with the path and the module of the first load, or not at all. -/
theorem Accounts.answers (haccounts : Accounts events pool) {path : Path} {module : α}
    (hload : FirstLoad events h path module) :
    (∀ found, pool.get h = .ok found → found = module) ∧ ∀ found, pool.pathOf h = .ok found → found = path := by
  cases hoccupied : pool.occupied h with
  | error e =>
      obtain ⟨hget, hpathOf, -⟩ := refused_of_occupied hoccupied
      constructor
      · intro found hfound
        rw [hget] at hfound
        cases hfound
      · intro found hfound
        rw [hpathOf] at hfound
        cases hfound
  | ok holding =>
      -- what is held was loaded first under this handle, and so is what the operations answer with
      obtain ⟨⟨path', module', hpath, hmodule, hload'⟩, -⟩ := haccounts.occupied hoccupied
      obtain ⟨rfl, rfl⟩ := hload.unique hload'
      obtain ⟨path'', module'', hpath'', hmodule'', hpathOf, hget⟩ := get_of_occupied hoccupied
      rw [hpath, Option.some.injEq] at hpath''
      rw [hmodule, Option.some.injEq] at hmodule''
      constructor
      · intro found hfound
        rw [hget] at hfound
        rw [hmodule'', Except.ok.inj hfound]
      · intro found hfound
        rw [hpathOf] at hfound
        rw [hpath'', Except.ok.inj hfound]

/-- A handle that is out and not flushed is valid. -/
theorem Accounts.valid (haccounts : Accounts events pool) (hissued : Issued events h)
    (hout : released events h < acquired events h) (hflushed : ¬ FlushedSince events h) :
    ∃ holding, pool.occupied h = .ok holding := by
  have hs := List.getElem?_eq_getElem (haccounts.within h hissued)
  cases haccounts.ledger h _ hs with
  | ahead _ hacquired _ => omega
  | vacant _ _ hacquired _ => omega
  | present hgeneration hpath _ _ _ =>
      exact ⟨_, occupied_eq_ok.mpr ⟨_, hs, hgeneration, rfl, Holding.ne_unused_of_path? hpath⟩⟩
  | gone _ _ hsettled =>
      -- contents go when nothing is out, or in a flush
      rcases hsettled with hsince | hcount
      · exact absurd hsince hflushed
      · omega

/-- Something was loaded when a handle was issued first. -/
theorem Accounts.loaded (haccounts : Accounts events pool) (hissued : Issued events h) :
    ∃ path module, FirstLoad events h path module := by
  cases haccounts.ledger h _ (List.getElem?_eq_getElem (haccounts.within h hissued)) with
  | ahead _ hacquired _ => exact absurd hissued (acquired_eq_zero.mp hacquired)
  | vacant _ _ hacquired _ => exact absurd hissued (acquired_eq_zero.mp hacquired)
  | present _ _ _ hload _ => exact ⟨_, _, hload⟩
  | gone _ hloaded _ => exact hloaded hissued

end Accounts

/-! ## Main statement -/

/-- **Handles never alias.** Take any run of a pool, whatever loading gives each time, and a handle that some
    `acquire` of the run has answered with.
    - Whenever the handle gives access to a module or a path, they are those of the load for which it was issued first.
    - Once it is refused as stale by one operation, all operations refuse it after every continuation of the run, and
      leave the pool as it is.
    - While it is out, that is taken more often than given back and not flushed, it is valid, and what a valid handle
      reports as its count is the number of times it is out. -/
theorem handles_never_alias (n : Nat) (calls : List (Call α)) {events : List (Event α)} {pool : Pool α}
    (hrun : (ofCapacity n).run calls = (events, pool)) (h : Handle) (hissued : Issued events h) :
    (∃ path module, FirstLoad events h path module ∧ (∀ found, pool.get h = .ok found → found = module) ∧
      ∀ found, pool.pathOf h = .ok found → found = path) ∧
    (RefusedAsStale pool h → ∀ later : List (Call α), RefusedByAll (pool.run later).2 h) ∧
    (released events h < acquired events h → ¬ FlushedSince events h → ∃ holding, pool.occupied h = .ok holding) ∧
    ∀ holding, pool.occupied h = .ok holding → acquired events h = released events h + holding.count := by
  have haccounts := accounts_run n calls
  rw [hrun] at haccounts
  refine ⟨?_, ?_, ?_, ?_⟩
  · obtain ⟨path, module, hload⟩ := haccounts.loaded hissued
    exact ⟨path, module, hload, haccounts.answers hload⟩
  · intro hrefused later
    exact ((haccounts.passed hissued hrefused).run later).refused
  · exact haccounts.valid hissued
  · intro holding hoccupied
    exact (haccounts.occupied hoccupied).2

/-- Calls on one slot that evict the module of a path for that of another. -/
def evicting : List (Call Nat) :=
  [.acquire (fun _ => .ok 7) ⟨"/a"⟩, .release ⟨0, 1⟩, .acquire (fun _ => .ok 8) ⟨"/b"⟩]

/-- The first handle stays refused whatever comes next, and the second one is valid. -/
theorem handles_never_alias_evicting :
    (∀ later : List (Call Nat), RefusedByAll ((((ofCapacity 1).run evicting).2).run later).2 ⟨0, 1⟩) ∧
      ∃ holding, ((ofCapacity 1).run evicting).2.occupied ⟨0, 2⟩ = .ok holding := by
  constructor
  · have hfirst : Issued ((ofCapacity 1).run evicting).1 ⟨0, 1⟩ := ⟨_, List.mem_cons_self, rfl⟩
    exact (handles_never_alias 1 evicting rfl ⟨0, 1⟩ hfirst).2.1 (.inr (.inr (.inl rfl)))
  · have hsecond : Issued ((ofCapacity 1).run evicting).1 ⟨0, 2⟩ := by
      refine ⟨_, List.mem_cons_of_mem _ (List.mem_cons_of_mem _ List.mem_cons_self), rfl⟩
    refine (handles_never_alias 1 evicting rfl ⟨0, 2⟩ hsecond).2.2.1 (by decide) ?_
    rintro ⟨before, after, hevents, -, event, hmem, hflush⟩
    have hrun : ((ofCapacity 1).run evicting).1 = before ++ after := hevents
    have hcalls : Call.flush ∈ evicting := by
      rw [← run_calls (ofCapacity 1) evicting, hrun]
      exact List.mem_map.mpr ⟨event, List.mem_append_right _ hmem, hflush⟩
    simp [evicting] at hcalls

end Pool

end Unwinder
