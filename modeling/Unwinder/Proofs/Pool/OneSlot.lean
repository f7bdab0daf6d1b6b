import Unwinder.Proofs.Faults
import Unwinder.Proofs.Pool.Soundness

/-!
# `Proofs.Pool.OneSlot` — a call changes one slot at most

A call on a pool is about one module, and the other modules should not notice it, above all when it fails. A refused
call leaves the pool as it was. The exception is a module that cannot be loaded, for which a slot was cleared before;
that slot stays empty, under a generation that no handle ever comes to have.

## Contents
- **Other slots.** `AgreeBut`: two pools of which only one slot may differ, with what handles to the others answer.
- **Failed loads.** `Vacated`, how a load that fails leaves a pool; `acquire_of_error` and `acquire_of_ok`.
- **Unused generations.** `Passed.never_issued`: a handle whose contents are gone is not handed out again.
- **Main statement.** `calls_change_one_slot`.
-/

namespace Unwinder

variable {α : Type}

namespace Pool

/-! ## Other slots -/

/-- **One slot apart**: only the slot at place `i` may have changed. -/
def AgreeBut (i : Nat) (before after : Pool α) : Prop := ∀ j, j ≠ i → after.slots[j]? = before.slots[j]?

theorem agreeBut_modify {pool : Pool α} {i : Nat} {s : Slot α} (hs : pool.slots[i]? = some s)
    (f : Slot α → Slot α) : AgreeBut i pool (pool.modify i f) := by
  intro j hj
  rw [getElem?_modify_slots hs, if_neg hj]

/-- **Handles to other slots** keep their validity, and what they name with its state, its count and its stamp. -/
theorem AgreeBut.answers {i : Nat} {before after : Pool α} (h : AgreeBut i before after) {handle : Handle}
    (hother : handle.slot ≠ i) :
    after.occupied handle = before.occupied handle ∧ after.get handle = before.get handle ∧
      after.pathOf handle = before.pathOf handle := by
  have hoccupied : after.occupied handle = before.occupied handle := by
    rw [occupied, occupied, h handle.slot hother]
  refine ⟨hoccupied, ?_, ?_⟩
  · rw [get, get, hoccupied]
  · rw [pathOf, pathOf, hoccupied]

/-! ## Failed loads -/

/-- **A slot vacated** for a module that could not be loaded. It was unused or, with no slot unused, its module had been
    warm for longer than every other; it is unused under the next generation, and everything else is as it was. -/
structure Vacated (i : Nat) (s : Slot α) (before after : Pool α) : Prop where
  chosen : before.slots[i]? = some s
  idle : s.holding = .unused ∨
    (∀ t ∈ before.slots, t.holding ≠ .unused) ∧ ∃ path module since, s.holding = .warm path module since ∧
      ∀ (j : Nat) (t : Slot α) (later : Nat), j ≠ i → before.slots[j]? = some t → t.holding.since? = some later →
        since < later
  emptied : after.slots[i]? = some ⟨.unused, s.generation + 1⟩
  others : AgreeBut i before after

section Acquire

variable {n : Nat} {pool : Pool α} {load : Path → Except Error α} {path : Path}

/-- A module that is taken changes the slot that its handle names. -/
theorem acquire_of_ok {handle : Handle} (h : (pool.acquire load path).1 = .ok handle) :
    AgreeBut handle.slot pool (pool.acquire load path).2 := by
  have houtcome := acquire_outcome pool load path
  generalize pool.acquire load path = outcome at houtcome h ⊢
  cases houtcome with
  | again hs _ | loaded _ hs _ _ =>
    cases h
    exact agreeBut_modify hs _
  | full _ _ => cases h
  | failed _ _ _ _ => cases h

/-- **A module that is not taken** found every other one in use and changed nothing, or could not be loaded and vacated
    a slot. -/
theorem acquire_of_error (hsound : pool.Sound n) {e : Error} (h : (pool.acquire load path).1 = .error e) :
    e = .poolFull pool.capacity ∧ (pool.acquire load path).2 = pool ∨
      load path = .error e ∧ ∃ i s, Vacated i s pool (pool.acquire load path).2 := by
  have houtcome := acquire_outcome pool load path
  generalize pool.acquire load path = outcome at houtcome h ⊢
  cases houtcome with
  | again _ _ => cases h
  | loaded _ _ _ _ => cases h
  | full _ _ =>
    cases h
    exact .inl ⟨rfl, rfl⟩
  | @failed i s e' _ hs hroom hload =>
    cases h
    refine .inr ⟨hload, i, s, hs, ?_, ?_, agreeBut_modify hs _⟩
    · rcases hroom with hunused | ⟨hused, held, module, since, hwarm, hleast⟩
      · exact .inl hunused
      · refine .inr ⟨hused, held, module, since, hwarm, ?_⟩
        intro j t later hj ht hlater
        exact hsound.warm_longest hs (by rw [hwarm]; rfl) hleast hj ht hlater
    · rw [getElem?_modify_slots hs, if_pos rfl]
      rfl

end Acquire

/-- A module that is given back changes the slot that its handle names. -/
theorem release_of_ok {pool : Pool α} {handle : Handle} (h : (pool.release handle).1 = .ok ()) :
    AgreeBut handle.slot pool (pool.release handle).2 := by
  have houtcome := release_outcome pool handle
  generalize pool.release handle = outcome at houtcome h ⊢
  cases houtcome with
  | stale _ => cases h
  | unheld _ _ _ _ => cases h
  | lowered hs _ _ => exact agreeBut_modify hs _
  | last hs _ _ => exact agreeBut_modify hs _

/-! ## Unused generations -/

/-- The events of calls in two parts are the events of both. -/
theorem run_append (pool : Pool α) (calls later : List (Call α)) :
    (pool.run (calls ++ later)).1 = (pool.run calls).1 ++ ((pool.run calls).2.run later).1 := by
  induction calls generalizing pool with
  | nil => rfl
  | cons call calls ih => simp only [List.cons_append, run, ih]

theorem issued?_of_error (call : Call α) (e : Error) : Event.issued? ⟨call, .error e⟩ = none := by
  cases call <;> rfl

/-- A handle that is handed out is to what its slot held before, or is of the generation after that. -/
theorem Turns.issued {event : Event α} {s t : Slot α} {handle : Handle} (h : Turns event handle.slot s t)
    (hissued : event.issued? = some handle) :
    handle.generation = s.generation ∧ s.holding ≠ .unused ∨ handle.generation = s.generation + 1 := by
  cases h with
  | kept hquiet => exact absurd hissued (hquiet handle rfl).1
  | vacated hquiet _ => exact absurd hissued (hquiet handle rfl).1
  | retained hpresent _ hused =>
    rw [hpresent, Option.some.injEq] at hissued
    exact .inl ⟨by rw [← hissued], hused⟩
  | reused hevent _ _ =>
    rw [hevent] at hissued
    have hhandle := Option.some.inj hissued
    exact .inr (by rw [← hhandle])
  | givenBack _ hevent _ =>
    rw [hevent] at hissued
    cases hissued
  | flushed hevent =>
    rw [hevent] at hissued
    cases hissued

/-- **What has passed is not handed out again.** -/
theorem Passed.never_issued {pool : Pool α} {h : Handle} (hpassed : Passed pool h) (calls : List (Call α)) :
    ¬ Issued (pool.run calls).1 h := by
  have hrun : Passed (pool.run calls).2 h ∧ ¬ Issued (pool.run calls).1 h := by
    refine run_induction (motive := fun events pool => Passed pool h ∧ ¬ Issued events h) ⟨hpassed, ?_⟩ ?_ calls
    · rintro ⟨event, hmem, -⟩
      cases hmem
    · rintro events pool call ⟨hpassed, hbefore⟩
      refine ⟨hpassed.run [call], ?_⟩
      intro hissued
      have hnow := (issued_snoc.mp hissued).resolve_left hbefore
      have hbound := issued_within pool call hnow
      rw [← length_perform pool call] at hbound
      obtain ⟨s, hs, hturns⟩ := perform_turns (List.getElem?_eq_getElem hbound)
      rcases hturns.issued hnow with ⟨hpresent, hused⟩ | hnext
      · rcases hpassed s hs with hlt | ⟨-, hunused⟩
        · omega
        · exact hused hunused
      · rcases hpassed s hs with hlt | ⟨heq, -⟩ <;> omega
  exact hrun.2

/-- **The generation of a vacated slot is never used**: not before, when it was still to come, and not afterwards, when
    the slot is cleared once more before it is filled. -/
theorem Vacated.never_issued {n i : Nat} {s : Slot α} {calls : List (Call α)} {call : Call α} {e : Error}
    (h : Vacated i s ((ofCapacity n).run calls).2 (((ofCapacity n).run calls).2.perform call).2)
    (herror : (((ofCapacity n).run calls).2.perform call).1 = .error e)
    (later : List (Call α)) : ¬ Issued ((ofCapacity n).run (calls ++ call :: later)).1 ⟨i, s.generation + 1⟩ := by
  have hpassed : Passed (((ofCapacity n).run calls).2.perform call).2 ⟨i, s.generation + 1⟩ := by
    intro t ht
    rw [h.emptied, Option.some.injEq] at ht
    exact .inr (by rw [← ht]; exact ⟨rfl, rfl⟩)
  have hbefore : ¬ Issued ((ofCapacity n).run calls).1 ⟨i, s.generation + 1⟩ := by
    cases (accounts_run n calls).ledger ⟨i, s.generation + 1⟩ s h.chosen with
    | ahead _ hacquired _ => exact acquired_eq_zero.mp hacquired
    | vacant hgeneration _ _ _ => simp at hgeneration
    | present hgeneration _ _ _ _ => simp at hgeneration
    | gone hgeneration _ _ =>
      have hlt : s.generation + 1 < s.generation := hgeneration
      omega
  rw [run_append, run]
  rintro ⟨event, hmem, hissued⟩
  rcases List.mem_append.mp hmem with hold | hnew
  · exact hbefore ⟨event, hold, hissued⟩
  · rcases List.mem_cons.mp hnew with rfl | hafter
    · rw [herror, issued?_of_error] at hissued
      cases hissued
    · exact hpassed.never_issued later ⟨event, hafter, hissued⟩

/-! ## Main statement -/

/-- **A call changes one slot at most.** After every run of calls on a pool,
    - taking a module does not change the clock, and changes no slot but the one its handle names;
    - when it fails because every module is in use, it changes nothing;
    - when it fails otherwise, the module could not be loaded. One slot was vacated for it, handles to the others answer
      as before, and for the generation that this slot has now no handle is issued in the whole history of the pool;
    - giving a module back changes no slot but the one the handle names, and nothing when it is refused. -/
theorem calls_change_one_slot (n : Nat) (calls : List (Call Module)) (files : FileSystem) (path : Path)
    (handle : Handle) :
    let pool := ((ofCapacity n).run calls).2
    let taking := pool.acquire (Module.load files) path
    let giving := pool.release handle
    taking.2.clock = pool.clock ∧
      (∀ taken, taking.1 = .ok taken → AgreeBut taken.slot pool taking.2) ∧
      (∀ e, taking.1 = .error e → e.status = .cacheFull → taking.2 = pool) ∧
      (∀ e, taking.1 = .error e → e.status ≠ .cacheFull → Module.load files path = .error e ∧
        ∃ i s, Vacated i s pool taking.2 ∧
          (∀ other : Handle, other.slot ≠ i → taking.2.occupied other = pool.occupied other ∧
            taking.2.get other = pool.get other ∧ taking.2.pathOf other = pool.pathOf other) ∧
          ∀ later, ¬ Issued ((ofCapacity n).run (calls ++ .acquire (Module.load files) path :: later)).1
            ⟨i, s.generation + 1⟩) ∧
      (giving.1 = .ok () → AgreeBut handle.slot pool giving.2) ∧
      ∀ e, giving.1 = .error e → giving.2 = pool := by
  intro pool taking giving
  have hsound : pool.Sound n := sound_run n calls
  refine ⟨acquire_clock pool _ path, fun taken => acquire_of_ok, ?_, ?_, release_of_ok, fun e => release_of_error⟩
  · intro e herror hfull
    rcases acquire_of_error hsound herror with ⟨-, hsame⟩ | ⟨hload, -⟩
    · exact hsame
    · -- no load finds the pool full
      rcases Module.load_fails hload with ⟨fault, rfl⟩ | ⟨defect, rfl⟩ | ⟨place, rfl⟩ <;> cases hfull
  · intro e herror hnot
    rcases acquire_of_error hsound herror with ⟨rfl, -⟩ | ⟨hload, i, s, hvacated⟩
    · exact absurd rfl hnot
    · have hfailed : (pool.perform (.acquire (Module.load files) path)).1 = .error e := by
        show taking.1.map some = .error e
        rw [herror]
        rfl
      exact ⟨hload, i, s, hvacated, fun other => hvacated.others.answers, hvacated.never_issued hfailed⟩

/-- A module without debug information, as good as any other for a pool. -/
def bareModule : Module :=
  ⟨⟨⟨"/a"⟩, [], .bits64, 0, 0, 0, .empty⟩, ⟨⟨.empty, .empty, .empty⟩, .empty⟩⟩

/-- A module is taken and given back, and then another one cannot be loaded: the first one is dropped, and no handle of
    the generation after it is ever issued. -/
theorem calls_change_one_slot_dropping :
    let calls : List (Call Module) := [.acquire (fun _ => .ok bareModule) ⟨"/a"⟩, .release ⟨0, 1⟩]
    let files : FileSystem := ⟨fun _ => .error (.errno .noEntry)⟩
    let pool := ((ofCapacity 1).run calls).2
    let after := (pool.acquire (Module.load files) ⟨"/b"⟩).2
    (∃ holding, pool.occupied ⟨0, 1⟩ = .ok holding) ∧ after.clock = pool.clock ∧
      after.slots[0]? = some ⟨.unused, 2⟩ ∧
      ∀ later, ¬ Issued ((ofCapacity 1).run (calls ++ .acquire (Module.load files) ⟨"/b"⟩ :: later)).1 ⟨0, 2⟩ := by
  intro calls files pool after
  obtain ⟨hclock, -, -, hfailed, -, -⟩ := calls_change_one_slot 1 calls files ⟨"/b"⟩ ⟨0, 1⟩
  obtain ⟨-, i, s, hvacated, -, hnever⟩ := hfailed _ rfl (by decide)
  -- there is only one slot
  have hi : i = 0 := by
    have hbound : i < pool.slots.length := (List.getElem?_eq_some_iff.mp hvacated.chosen).1
    have hone : pool.slots.length = 1 := rfl
    omega
  subst hi
  have hgeneration : s.generation = 1 := by
    have hslot := hvacated.chosen
    have hwarm : pool.slots[0]? = some ⟨.warm ⟨"/a"⟩ bareModule 1, 1⟩ := rfl
    rw [hwarm, Option.some.injEq] at hslot
    rw [← hslot]
  rw [hgeneration] at hnever
  refine ⟨⟨_, rfl⟩, hclock, ?_, hnever⟩
  rw [hvacated.emptied, hgeneration]

end Pool

end Unwinder
