import Unwinder.Proofs.Pool.AtRest
import Unwinder.Proofs.Pool.Handles

/-!
# `Proofs.Pool.Soundness` — what holds of a pool after every run

A pool finds the module of a path by looking for the first slot that holds it, and the module to drop by looking for
the least stamp. Both are settled only if no two slots hold one path and no two carry one stamp. A flush sets the clock
back; the stamps stay different because none is left then.

## Contents
- **The invariant.** `Sound`: counts, stamps and paths of the slots. `Sound.modify` is the one argument for a changed
  slot; `Sound.perform` follows it through the calls, `sound_run` through the runs.
- **The longest warm.** `Sound.warm_longest`: the module that goes has been warm for longer than every other.
- **Generations.** `generations_grow`: they never decrease along a run.
- **Counters.** `counted_run`: neither the clock nor a generation or a count goes beyond the number of calls, so that
  words hold them along every run of fewer calls than they have values.
-/

namespace Unwinder

variable {α : Type}

namespace Pool

/-! ## The invariant -/

/-- **Soundness** of a pool of `n` slots: modules in use are taken, stamps are ticks of the clock, and no two slots
    share a stamp or a path. -/
structure Sound (n : Nat) (pool : Pool α) : Prop where
  capacity : pool.slots.length = n
  taken : ∀ s ∈ pool.slots, ∀ path module count, s.holding = .active path module count → 0 < count
  ticked : ∀ s ∈ pool.slots, ∀ since, s.holding.since? = some since → 0 < since ∧ since ≤ pool.clock
  stamps : ∀ (i j : Nat) (s t : Slot α) (since : Nat), pool.slots[i]? = some s → pool.slots[j]? = some t →
    s.holding.since? = some since → t.holding.since? = some since → i = j
  paths : ∀ (i j : Nat) (s t : Slot α) (path held : Path), pool.slots[i]? = some s → pool.slots[j]? = some t →
    s.holding.path? = some path → t.holding.path? = some held → path.Same held → i = j

namespace Sound

variable {n : Nat} {pool : Pool α}

/-- Unused slots break nothing. -/
theorem of_unused (hcapacity : pool.slots.length = n) (hunused : ∀ s ∈ pool.slots, s.holding = .unused) :
    pool.Sound n := by
  have hnone : ∀ {i : Nat} {s : Slot α}, pool.slots[i]? = some s → s.holding = .unused :=
    fun hs => hunused _ (List.mem_of_getElem? hs)
  refine ⟨hcapacity, ?_, ?_, ?_, ?_⟩
  · intro s hs path module count hactive
    rw [hunused s hs] at hactive
    cases hactive
  · intro s hs since hsince
    rw [hunused s hs] at hsince
    cases hsince
  · intro i j s t since hs _ hsince
    rw [hnone hs] at hsince
    cases hsince
  · intro i j s t path held hs _ hpath
    rw [hnone hs] at hpath
    cases hpath

/-- **One changed slot.** It may keep its path or take one that no slot holds, and may keep its stamp or take one that
    the clock has not shown. -/
theorem modify (h : pool.Sound n) {i clock : Nat} {s : Slot α} {f : Slot α → Slot α} (hs : pool.slots[i]? = some s)
    (hclock : pool.clock ≤ clock)
    (htaken : ∀ path module count, (f s).holding = .active path module count → 0 < count)
    (hsince : ∀ since, (f s).holding.since? = some since →
      s.holding.since? = some since ∨ pool.clock < since ∧ since ≤ clock)
    (hpath : ∀ path, (f s).holding.path? = some path →
      s.holding.path? = some path ∨ ∀ t ∈ pool.slots, t.holds path = false) :
    Sound n { pool.modify i f with clock := clock } := by
  have hmem := List.mem_of_getElem? hs
  -- a slot after the change is the changed one, or was there before
  have hslots : ∀ {j : Nat} {t : Slot α}, (pool.modify i f).slots[j]? = some t →
      j = i ∧ t = f s ∨ j ≠ i ∧ pool.slots[j]? = some t := by
    intro j t ht
    rw [getElem?_modify_slots hs] at ht
    by_cases hj : j = i
    · rw [if_pos hj] at ht
      exact .inl ⟨hj, (Option.some.inj ht).symm⟩
    · rw [if_neg hj] at ht
      exact .inr ⟨hj, ht⟩
  have hstampApart : ∀ {j : Nat} {t : Slot α} {since : Nat}, j ≠ i → pool.slots[j]? = some t →
      (f s).holding.since? = some since → t.holding.since? ≠ some since := by
    intro j t since hj ht hnew hold
    rcases hsince since hnew with hkept | ⟨hlate, -⟩
    · exact hj (h.stamps j i t s since ht hs hold hkept)
    · have hle := (h.ticked t (List.mem_of_getElem? ht) since hold).2
      omega
  have hpathApart : ∀ {j : Nat} {t : Slot α} {path held : Path}, j ≠ i → pool.slots[j]? = some t →
      (f s).holding.path? = some path → t.holding.path? = some held → ¬ held.Same path := by
    intro j t path held hj ht hnew hold hsame
    rcases hpath path hnew with hkept | hunknown
    · exact hj (h.paths j i t s held path ht hs hold hkept hsame)
    · have hholds : t.holds path = true := Slot.holds_iff.mpr ⟨held, hold, hsame⟩
      rw [hunknown t (List.mem_of_getElem? ht)] at hholds
      cases hholds
  refine ⟨(length_modify pool i f).trans h.capacity, forall_slots_modify hs h.taken htaken, ?_, ?_, ?_⟩
  · refine forall_slots_modify hs (Q := fun t => ∀ since, t.holding.since? = some since → 0 < since ∧ since ≤ clock)
      ?_ ?_
    · intro t ht since hold
      obtain ⟨hpositive, hle⟩ := h.ticked t ht since hold
      exact ⟨hpositive, Nat.le_trans hle hclock⟩
    · intro since hnew
      rcases hsince since hnew with hkept | ⟨hlate, hle⟩
      · obtain ⟨hpositive, hle⟩ := h.ticked s hmem since hkept
        exact ⟨hpositive, Nat.le_trans hle hclock⟩
      · exact ⟨by omega, hle⟩
  · intro j k t u since ht hu htsince husince
    rcases hslots ht with ⟨rfl, rfl⟩ | ⟨hj, htold⟩
    · rcases hslots hu with ⟨rfl, -⟩ | ⟨hk, huold⟩
      · rfl
      · exact absurd husince (hstampApart hk huold htsince)
    · rcases hslots hu with ⟨rfl, rfl⟩ | ⟨hk, huold⟩
      · exact absurd htsince (hstampApart hj htold husince)
      · exact h.stamps j k t u since htold huold htsince husince
  · intro j k t u path held ht hu htpath hupath hsame
    rcases hslots ht with ⟨rfl, rfl⟩ | ⟨hj, htold⟩
    · rcases hslots hu with ⟨rfl, -⟩ | ⟨hk, huold⟩
      · rfl
      · exact absurd hsame.symm (hpathApart hk huold htpath hupath)
    · rcases hslots hu with ⟨rfl, rfl⟩ | ⟨hk, huold⟩
      · exact absurd hsame (hpathApart hj htold hupath htpath)
      · exact h.paths j k t u path held htold huold htpath hupath hsame

/-- A slot that comes to hold nothing. -/
theorem clear (h : pool.Sound n) {i : Nat} {s : Slot α} (hs : pool.slots[i]? = some s) :
    (pool.modify i .clear).Sound n := by
  refine h.modify hs (Nat.le_refl _) ?_ ?_ ?_
  · intro path module count hactive
    cases hactive
  · intro since hsince
    cases hsince
  · intro path hpath
    cases hpath

theorem acquire (h : pool.Sound n) {load : Path → Except Error α} {path : Path}
    {outcome : Except Error Handle × Pool α} (houtcome : Acquires pool load path outcome) : outcome.2.Sound n := by
  cases houtcome with
  | @again i s hs hholds =>
      have hused : s.holding ≠ .unused := by
        intro hunused
        rw [Slot.not_holds_of_unused hunused] at hholds
        cases hholds
      refine h.modify hs (Nat.le_refl _) ?_ ?_ ?_
      · intro held module count hactive
        have hcount := Slot.retain_count hused
        rw [hactive] at hcount
        simp only [Holding.count] at hcount
        omega
      · intro since hsince
        cases hholding : s.holding <;> simp [Slot.retain, hholding, Holding.since?] at hsince
      · intro held hpath
        rw [Slot.retain_path?] at hpath
        exact .inl hpath
  | full _ _ => exact h
  | failed _ hs _ _ => exact h.clear hs
  | loaded hunknown hs _ _ =>
      refine h.modify hs (Nat.le_refl _) ?_ ?_ ?_
      · rintro held module count ⟨⟩
        exact Nat.one_pos
      · intro since hsince
        cases hsince
      · rintro held ⟨⟩
        exact .inr hunknown

theorem release (h : pool.Sound n) {handle : Handle} {outcome : Except Error Unit × Pool α}
    (houtcome : Releases pool handle outcome) : outcome.2.Sound n := by
  cases houtcome with
  | stale _ => exact h
  | unheld _ _ _ _ => exact h
  | @lowered s path module count hs _ hactive =>
      have hlet := Slot.letGo_of_many (pool.clock + 1) hactive
      refine h.modify hs (Nat.le_refl _) ?_ ?_ ?_
      · rw [hlet]
        rintro held module' count' ⟨⟩
        exact Nat.succ_pos count
      · rw [hlet]
        intro since hsince
        cases hsince
      · intro held hpath
        rw [Slot.letGo_path?] at hpath
        exact .inl hpath
  | @last s path module hs _ hactive =>
      have hlet := Slot.letGo_of_one (pool.clock + 1) hactive
      refine h.modify hs (Nat.le_succ _) ?_ ?_ ?_
      · rw [hlet]
        intro held module' count' hholding
        cases hholding
      · rw [hlet]
        rintro since ⟨⟩
        exact .inr ⟨Nat.lt_succ_self _, Nat.le_refl _⟩
      · intro held hpath
        rw [Slot.letGo_path?] at hpath
        exact .inl hpath

/-- **Every call keeps a pool sound.** -/
theorem perform (h : pool.Sound n) (call : Call α) : (pool.perform call).2.Sound n := by
  cases call with
  | acquire load path => exact h.acquire (acquire_outcome pool load path)
  | release handle => exact h.release (release_outcome pool handle)
  | flush =>
      refine of_unused ?_ ?_
      · show (pool.slots.map Slot.clear).length = n
        rw [List.length_map]
        exact h.capacity
      · intro s hs
        obtain ⟨t, -, rfl⟩ := List.mem_map.mp hs
        rfl

end Sound

/-- **A pool is sound after every run.** -/
theorem sound_run (n : Nat) (calls : List (Call α)) : ((ofCapacity n).run calls).2.Sound n := by
  refine run_induction (motive := fun _ pool => pool.Sound n) ?_ (fun _ _ call h => h.perform call) calls
  refine .of_unused List.length_replicate ?_
  intro s hs
  rw [List.eq_of_mem_replicate hs]
  rfl

/-! ## The longest warm -/

/-- **A stamp that is least is less than every other.** -/
theorem Sound.warm_longest {n : Nat} {pool : Pool α} (h : pool.Sound n) {i : Nat} {s : Slot α} {since : Nat}
    (hs : pool.slots[i]? = some s) (hsince : s.holding.since? = some since)
    (hleast : ∀ t ∈ pool.slots, ∀ later, t.holding.since? = some later → since ≤ later) {j : Nat} (hj : j ≠ i)
    {t : Slot α} (ht : pool.slots[j]? = some t) {later : Nat} (hlater : t.holding.since? = some later) :
    since < later := by
  have hle := hleast t (List.mem_of_getElem? ht) later hlater
  have hne : since ≠ later := by
    rintro rfl
    exact hj (h.stamps j i t s since ht hs hlater hsince)
  omega

/-! ## Generations -/

/-- **Generations never decrease**: along a run every slot stays at its place, in the same generation or a later one. -/
theorem generations_grow {pool : Pool α} {i : Nat} {s : Slot α} (hs : pool.slots[i]? = some s)
    (calls : List (Call α)) :
    ∃ t, (pool.run calls).2.slots[i]? = some t ∧ s.generation ≤ t.generation := by
  refine run_induction (motive := fun _ after => ∃ t, after.slots[i]? = some t ∧ s.generation ≤ t.generation)
    ⟨s, hs, Nat.le_refl _⟩ ?_ calls
  rintro events pool call ⟨t, ht, hle⟩
  have hbound : i < (pool.perform call).2.slots.length := by
    rw [length_perform]
    exact (List.getElem?_eq_some_iff.mp ht).1
  have hu := List.getElem?_eq_getElem hbound
  refine ⟨_, hu, ?_⟩
  obtain ⟨t', ht', hturns⟩ := perform_turns hu
  obtain rfl : t = t' := Option.some.inj (ht.symm.trans ht')
  rcases hturns.later with hlater | ⟨hsame, -⟩
  · omega
  · omega

/-! ## Counters -/

/-- A slot is counted up by one at most. -/
theorem Turns.counts {event : Event α} {i : Nat} {s t : Slot α} (h : Turns event i s t) :
    t.generation ≤ s.generation + 1 ∧ t.holding.count ≤ s.holding.count + 1 := by
  cases h with
  | kept _ => exact ⟨Nat.le_succ _, Nat.le_succ _⟩
  | retained _ _ hused =>
      rw [Slot.retain_generation, Slot.retain_count hused]
      exact ⟨Nat.le_succ _, Nat.le_refl _⟩
  | vacated _ _ => exact ⟨Nat.le_refl _, Nat.zero_le _⟩
  | reused _ _ _ => exact ⟨Nat.le_refl _, Nat.succ_le_succ (Nat.zero_le _)⟩
  | givenBack time _ _ =>
      rw [Slot.letGo_generation, Slot.letGo_count]
      omega
  | flushed _ => exact ⟨Nat.le_refl _, Nat.zero_le _⟩

/-- So is the clock. -/
theorem perform_clock (pool : Pool α) (call : Call α) : (pool.perform call).2.clock ≤ pool.clock + 1 := by
  cases call with
  | acquire load path =>
      show (pool.acquire load path).2.clock ≤ pool.clock + 1
      rw [acquire_clock]
      exact Nat.le_succ _
  | release handle =>
      have houtcome := release_outcome pool handle
      show (pool.release handle).2.clock ≤ pool.clock + 1
      generalize pool.release handle = outcome at houtcome ⊢
      cases houtcome with
      | stale _ | unheld _ _ _ _ | lowered _ _ _ => exact Nat.le_succ _
      | last _ _ _ => exact Nat.le_refl _
  | flush => exact Nat.zero_le _

/-- **Counters up to a limit.** The times in a sound pool are readings of its clock. -/
structure CountedTo (limit : Nat) (pool : Pool α) : Prop where
  clock : pool.clock ≤ limit
  slots : ∀ (i : Nat) (s : Slot α), pool.slots[i]? = some s → s.generation ≤ limit ∧ s.holding.count ≤ limit

/-- A call raises the limit by one. -/
theorem CountedTo.perform {limit : Nat} {pool : Pool α} (h : pool.CountedTo limit) (call : Call α) :
    (pool.perform call).2.CountedTo (limit + 1) := by
  constructor
  · exact Nat.le_trans (perform_clock pool call) (Nat.succ_le_succ h.clock)
  · intro i t ht
    obtain ⟨s, hs, hturns⟩ := perform_turns ht
    obtain ⟨hgeneration, hcount⟩ := h.slots i s hs
    obtain ⟨hgeneration', hcount'⟩ := hturns.counts
    exact ⟨Nat.le_trans hgeneration' (Nat.succ_le_succ hgeneration), Nat.le_trans hcount' (Nat.succ_le_succ hcount)⟩

/-- **No counter goes beyond the number of calls.** -/
theorem counted_run (n : Nat) (calls : List (Call α)) : ((ofCapacity n).run calls).2.CountedTo calls.length := by
  have hcounted : ((ofCapacity n).run calls).2.CountedTo ((ofCapacity n).run calls).1.length := by
    refine run_induction (motive := fun events pool => pool.CountedTo events.length) ⟨Nat.le_refl 0, ?_⟩ ?_ calls
    · intro i s hs
      rw [List.eq_of_mem_replicate (List.mem_of_getElem? hs)]
      exact ⟨Nat.le_refl 0, Nat.le_refl 0⟩
    · intro events pool call h
      rw [List.length_append]
      exact h.perform call
  rwa [← List.length_map (·.call), run_calls] at hcounted

end Pool

end Unwinder
