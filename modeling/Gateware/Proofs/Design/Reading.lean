import Mathlib.Algebra.BigOperators.Fin
import Mathlib.Order.Monotone.Basic
import Gateware.Proofs.Session

/-!
# Reading lookups

A lookup is read through a bounded number of levels.  The bound hides nothing: a lookup
stands for the switch over the values of its elements, each of which may be a lookup
again, with no word of levels.
-/

set_option autoImplicit false

namespace Gateware

section Finished

variable {α β : Type}

/-- A result that did not run out of levels. -/
def Finished (result : Except Fault α) : Prop := result ≠ .error .endlessBank

instance (result : Except Fault α) : Decidable (Finished result) :=
  match result with
  | .ok _ => isTrue fun same => by cases same
  | .error fault => decidable_of_iff (fault ≠ .endlessBank) (by simp [Finished])

theorem finished_map {result : Except Fault α} {change : α → β} :
    Finished (result.map change) ↔ Finished result := by
  cases result with
  | error fault => simp [Finished, Except.map]
  | ok value => simp [Finished, Except.map]

theorem mapM_eq_of_finished {step other : α → Except Fault β} {given : List α}
    (agree : ∀ item ∈ given, Finished (step item) → other item = step item)
    (finished : Finished (given.mapM step)) : given.mapM other = given.mapM step := by
  induction given with
  | nil => rfl
  | cons first rest ih =>
      rw [List.mapM_cons] at finished
      rw [List.mapM_cons, List.mapM_cons]
      cases run : step first with
      | error fault =>
          have ended : Finished (step first) := by
            intro endless
            apply finished
            rw [endless]
            rfl
          rw [agree first List.mem_cons_self ended, run]
          rfl
      | ok result =>
          have ended : Finished (step first) := by
            rw [run]
            intro same
            cases same
          have restEnded : Finished (rest.mapM step) := by
            intro endless
            apply finished
            rw [run, endless]
            rfl
          have tail := ih (fun item later => agree item (List.mem_cons_of_mem _ later)) restEnded
          rw [agree first List.mem_cons_self ended, run, tail]

end Finished

namespace Design

variable (design : Design)

/-! ## One level of a reading -/

def keyed (width : Nat) (values : List Value) : List (Keys × Value) :=
  values.zipIdx.map fun (value, position) => (some [Binary.text position width], value)

def scan (levels bank count : Nat) : Except Fault (List Value) :=
  ((design.elements bank).take count).mapM
    (design.elementValueWith (design.lookupValueWithin levels))

private theorem mapM_zipIdx {α β γ : Type} (step : α → Except Fault β) (place : Nat → β → γ)
    (given : List α) (start : Nat) :
    ((given.zipIdx start).mapM fun (item, position) => do
        let result ← step item
        pure (place position result)) =
      (given.mapM step).map fun results =>
        (results.zipIdx start).map fun (result, position) => place position result := by
  induction given generalizing start with
  | nil => rfl
  | cons first rest ih =>
      rw [List.zipIdx_cons, List.mapM_cons, List.mapM_cons, ih (start + 1)]
      dsimp only
      cases step first with
      | error fault => rfl
      | ok result => cases rest.mapM step <;> rfl

theorem lookupValueWithin_succ (levels : Nat) (lookup : Lookup) :
    design.lookupValueWithin (levels + 1) lookup =
      (design.scan levels lookup.bank (reach lookup.index.width)).map fun values =>
        .switch lookup.index (keyed lookup.index.width values) := by
  have keys := mapM_zipIdx (design.elementValueWith (design.lookupValueWithin levels))
    (fun position value => (some [Binary.text position lookup.index.width], value))
    ((design.elements lookup.bank).take (reach lookup.index.width)) 0
  rw [lookupValueWithin]
  simp only [keys, scan]
  cases List.mapM (m := Except Fault)
    (design.elementValueWith (design.lookupValueWithin levels)) _ <;> rfl

theorem finished_succ {levels : Nat} {lookup : Lookup} :
    Finished (design.lookupValueWithin (levels + 1) lookup) ↔
      Finished (design.scan levels lookup.bank (reach lookup.index.width)) := by
  rw [lookupValueWithin_succ, finished_map]

private theorem scan_step_of {levels : Nat}
    (readings : ∀ lookup, Finished (design.lookupValueWithin levels lookup) →
      design.lookupValueWithin (levels + 1) lookup = design.lookupValueWithin levels lookup)
    {bank count : Nat} (finished : Finished (design.scan levels bank count)) :
    design.scan (levels + 1) bank count = design.scan levels bank count := by
  apply mapM_eq_of_finished _ finished
  intro element _ ended
  cases element with
  | lookup source => exact readings source ended
  | _ => rfl

theorem lookupValueWithin_step {levels : Nat} {lookup : Lookup}
    (finished : Finished (design.lookupValueWithin levels lookup)) :
    design.lookupValueWithin (levels + 1) lookup = design.lookupValueWithin levels lookup := by
  induction levels generalizing lookup with
  | zero => exact absurd rfl finished
  | succ levels ih =>
      rw [finished_succ] at finished
      rw [lookupValueWithin_succ, lookupValueWithin_succ,
        design.scan_step_of (fun _ ended => ih ended) finished]

theorem scan_step {levels bank count : Nat} (finished : Finished (design.scan levels bank count)) :
    design.scan (levels + 1) bank count = design.scan levels bank count :=
  design.scan_step_of (fun _ ended => design.lookupValueWithin_step ended) finished

/-! ## The bound on the levels -/

def elementCount : Nat := (design.banks.toList.map fun bank => bank.elements.length).sum

theorem readingDepth_eq : design.readingDepth = design.elementCount + 2 := by
  rw [readingDepth, elementCount]
  induction design.banks.toList with
  | nil => rfl
  | cons first rest ih => rw [List.foldr_cons, ih, List.map_cons, List.sum_cons, Nat.add_assoc]

def ended (levels : Nat) : Finset (Σ _ : Nat, Nat) :=
  ((Finset.range design.banks.size).sigma fun bank =>
      Finset.range (design.elements bank).length).filter
    fun place => Finished (design.scan levels place.1 (place.2 + 1))

theorem card_ended_le (levels : Nat) : (design.ended levels).card ≤ design.elementCount := by
  have total : ∑ bank ∈ Finset.range design.banks.size, (design.elements bank).length =
      design.elementCount := by
    rw [elementCount, Finset.sum_range, ← Fin.sum_univ_fun_getElem]
    apply Finset.sum_congr rfl
    intro bank _
    simp [elements]
  calc (design.ended levels).card
      ≤ ((Finset.range design.banks.size).sigma fun bank =>
          Finset.range (design.elements bank).length).card := Finset.card_filter_le _ _
    _ = design.elementCount := by simpa [Finset.card_sigma] using total

theorem ended_subset (levels : Nat) : design.ended levels ⊆ design.ended (levels + 1) := by
  intro place
  simp only [ended, Finset.mem_filter]
  rintro ⟨inside, finished⟩
  refine ⟨inside, ?_⟩
  rw [design.scan_step finished]
  exact finished

/-- What a reading of some elements comes to depends on the last one that exists. -/
theorem finished_scan_iff {levels bank count : Nat} :
    Finished (design.scan levels bank count) ↔
      min count (design.elements bank).length = 0 ∨
        (⟨bank, min count (design.elements bank).length - 1⟩ : Σ _ : Nat, Nat) ∈
          design.ended levels := by
  have cut : design.scan levels bank count =
      design.scan levels bank (min count (design.elements bank).length) := by
    rw [scan, scan, ← List.take_eq_take_min]
  rw [cut]
  generalize limit : min count (design.elements bank).length = last
  cases last with
  | zero => simp [scan, Finished, pure, Except.pure]
  | succ last =>
      have inside : last < (design.elements bank).length := by omega
      have stored : bank < design.banks.size := by
        by_contra missing
        have none : design.banks[bank]? = none := Array.getElem?_eq_none (by omega)
        simp [elements, none] at inside
      simp [ended, inside, stored]

theorem lookupValueWithin_eq_of_ended {levels : Nat}
    (same : design.ended levels = design.ended (levels + 1)) :
    design.lookupValueWithin (levels + 2) = design.lookupValueWithin (levels + 1) := by
  funext lookup
  by_cases finished : Finished (design.lookupValueWithin (levels + 1) lookup)
  · exact design.lookupValueWithin_step finished
  · have still : ¬ Finished (design.lookupValueWithin (levels + 2) lookup) := by
      rw [finished_succ, finished_scan_iff] at finished ⊢
      rwa [← same]
    rw [Finished, not_not] at finished still
    rw [finished, still]

theorem ended_stable {levels : Nat} (enough : design.elementCount ≤ levels) :
    design.ended levels = design.ended (levels + 1) := by
  have stable (levels : Nat) (enough : design.elementCount ≤ levels) :
      (design.ended levels).card = (design.ended design.elementCount).card := by
    apply Nat.stabilises_of_monotone (monotone_nat_of_le_succ fun levels =>
      Finset.card_le_card (design.ended_subset levels)) design.card_ended_le _ enough
    intro levels equal
    have same : design.ended levels = design.ended (levels + 1) :=
      Finset.eq_of_subset_of_card_le (design.ended_subset levels) (Nat.le_of_eq equal.symm)
    have readings := design.lookupValueWithin_eq_of_ended same
    have scans : design.scan (levels + 2) = design.scan (levels + 1) := by
      funext bank count
      rw [scan, scan, readings]
    rw [ended, ended, scans]
  apply Finset.eq_of_subset_of_card_le (design.ended_subset levels)
  rw [stable levels enough, stable (levels + 1) (Nat.le_succ_of_le enough)]

theorem lookupValueWithin_stable {levels : Nat} (enough : design.elementCount < levels) :
    design.lookupValueWithin (levels + 1) = design.lookupValueWithin levels := by
  obtain ⟨below, rfl⟩ := Nat.exists_eq_add_one_of_ne_zero (Nat.ne_zero_of_lt enough)
  exact design.lookupValueWithin_eq_of_ended (design.ended_stable (Nat.le_of_lt_succ enough))

/-- From the bound on, the number of levels makes no difference. -/
theorem lookupValueWithin_eq {levels : Nat} (enough : design.readingDepth ≤ levels) :
    design.lookupValueWithin levels = design.lookupValue := by
  induction levels, enough using Nat.le_induction with
  | base => rfl
  | succ levels more ih =>
      rw [← ih]
      apply design.lookupValueWithin_stable
      rw [readingDepth_eq] at more
      exact Nat.lt_of_lt_of_le (Nat.lt_add_of_pos_right (by decide)) more

/-! ## Lookups without levels -/

theorem cast_lookup (lookup : Lookup) :
    design.cast (.lookup lookup) = design.lookupValue lookup := by
  rw [cast, castWithin]

theorem cast_value (value : Value) : design.cast (.value value) = .ok value := by
  rw [cast, castWithin]

theorem lookupValue_eq (lookup : Lookup) :
    design.lookupValue lookup =
      (((design.elements lookup.bank).take (reach lookup.index.width)).mapM
        design.elementValue).map fun values =>
          .switch lookup.index (keyed lookup.index.width values) := by
  rw [← design.lookupValueWithin_eq (Nat.le_succ design.readingDepth), lookupValueWithin_succ,
    scan]
  rfl

theorem lookupValue_eq_ok {lookup : Lookup} {value : Value} :
    design.lookupValue lookup = .ok value ↔
      ∃ values, List.Forall₂ (fun element value => design.elementValue element = .ok value)
          ((design.elements lookup.bank).take (reach lookup.index.width)) values ∧
        .switch lookup.index (keyed lookup.index.width values) = value := by
  rw [lookupValue_eq, map_eq_ok]
  simp only [mapM_eq_ok]

theorem map_snd_keyed (width : Nat) (values : List Value) :
    (keyed width values).map Prod.snd = values := by
  rw [keyed, List.map_map]
  exact List.zipIdx_map_fst 0 values

theorem shape_switch_keyed (index : Value) (width : Nat) (values : List Value) :
    (Value.switch index (keyed width values)).shape = Shape.unify (values.map Value.shape) := by
  have shapes : Value.caseShapes (keyed width values) = values.map Value.shape := by
    conv_rhs => rw [← map_snd_keyed width values, List.map_map]
    exact Value.caseShapes_eq_map _
  rw [Value.shape, shapes]

end Design

end Gateware
