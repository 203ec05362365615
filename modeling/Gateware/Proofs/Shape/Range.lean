import Gateware.Proofs.Selected
import Gateware.Shape.Range

/-!
# Elements of ranges

A range holds the integers that its step leads to from its start and that lie before its end.
They are as many as its length says, they lie between the first of them and the last, and the check
of membership tells them from all other integers.
-/

set_option autoImplicit false

namespace Gateware.Range

/-- The integers that the step of a range leads to, as long as they lie before its end. -/
instance : Membership Int Range where
  mem range value :=
    Picked.Ahead range.stop range.step value ∧ ∃ index : Nat, value = range.element index

variable {range : Range} {index : Nat} {value : Int}

theorem lt_steps_iff (index : Nat) (distance : Int) {step : Int} (forward : 0 < step) :
    index < ((distance - 1) / step + 1).toNat ↔ index * step < distance := by
  have whole : (index : Int) ≤ (distance - 1) / step ↔ index * step ≤ distance - 1 :=
    Int.le_ediv_iff_mul_le forward
  omega

theorem ahead_element_iff :
    Picked.Ahead range.stop range.step (range.element index) ↔ index < range.length := by
  obtain ⟨start, stop, step⟩ := range
  simp only [Picked.Ahead, element, length]
  rcases Int.lt_trichotomy step 0 with down | rfl | up
  · have steps := lt_steps_iff index (start - stop) (by omega : 0 < -step)
    have further : (0 : Int) ≤ index * -step := Int.mul_nonneg (by omega) (by omega)
    rw [Int.mul_neg] at steps further
    split
    · omega
    · split <;> omega
  · simp
  · have steps := lt_steps_iff index (stop - start) up
    have further : (0 : Int) ≤ index * step := Int.mul_nonneg (by omega) (by omega)
    split
    · omega
    · split <;> omega

theorem mem_iff_exists_index :
    value ∈ range ↔ ∃ index < range.length, value = range.element index := by
  constructor
  · rintro ⟨ahead, index, rfl⟩
    exact ⟨index, ahead_element_iff.mp ahead, rfl⟩
  · rintro ⟨index, counted, rfl⟩
    exact ⟨ahead_element_iff.mpr counted, index, rfl⟩

theorem ends_of_pos (some : 0 < range.length) :
    range.first? = .some range.start ∧
      range.last? = .some (range.element (range.length - 1)) := by
  have full : range.isEmpty = false := by simpa [isEmpty] using Nat.ne_of_gt some
  simp [first?, last?, full]

/-- A range has no element and no end, or it ends at two of its elements and the others lie
between these. -/
theorem ends_cases (range : Range) :
    (range.first? = none ∧ range.last? = none ∧ ∀ value, value ∉ range) ∨
      ∃ first last, range.first? = some first ∧ range.last? = some last ∧
        first ∈ range ∧ last ∈ range ∧
        ∀ value ∈ range, min first last ≤ value ∧ value ≤ max first last := by
  rcases Nat.eq_zero_or_pos range.length with none | some
  · refine Or.inl ⟨by simp [first?, isEmpty, none], by simp [last?, isEmpty, none], ?_⟩
    intro value member
    obtain ⟨index, counted, -⟩ := mem_iff_exists_index.mp member
    omega
  · obtain ⟨begins, ends⟩ := ends_of_pos some
    refine Or.inr ⟨range.start, range.element (range.length - 1), begins, ends,
      mem_iff_exists_index.mpr ⟨0, some, by simp [element]⟩,
      mem_iff_exists_index.mpr ⟨_, Nat.sub_lt some Nat.one_pos, rfl⟩, ?_⟩
    intro value member
    obtain ⟨index, counted, rfl⟩ := mem_iff_exists_index.mp member
    have early : (index : Int) ≤ (range.length - 1 : Nat) := by omega
    simp only [element]
    rcases Int.le_total 0 range.step with up | down
    · have lower : (0 : Int) ≤ index * range.step := Int.mul_nonneg (by omega) up
      have upper := Int.mul_le_mul_of_nonneg_right early up
      omega
    · have upper : (index : Int) * range.step ≤ 0 :=
        Int.mul_nonpos_of_nonneg_of_nonpos (by omega) down
      have lower := Int.mul_le_mul_of_nonpos_right early down
      omega

/-! ## Membership as it is checked -/

theorem mem_iff_exists_steps :
    value ∈ range ↔
      ∃ steps : Int, value = range.start + steps * range.step ∧ 0 ≤ steps ∧ steps < range.length := by
  rw [mem_iff_exists_index]
  constructor
  · intro found
    obtain ⟨index, counted, same⟩ := found
    exact ⟨index, same, by omega, by omega⟩
  · intro found
    obtain ⟨steps, same, started, before⟩ := found
    obtain ⟨index, rfl⟩ := Int.eq_ofNat_of_zero_le started
    exact ⟨index, by omega, same⟩

theorem contains_steps_iff (some : 0 < range.length) (steps : Int) :
    range.contains (range.start + steps * range.step) = true ↔
      0 ≤ steps ∧ steps < range.length := by
  obtain ⟨begins, ends⟩ := ends_of_pos some
  have last : ((range.length - 1 : Nat) : Int) = range.length - 1 := by omega
  rcases Int.lt_trichotomy range.step 0 with down | still | up
  · have order (fewer more : Int) :
        range.start + more * range.step ≤ range.start + fewer * range.step ↔ fewer ≤ more := by
      rw [Int.add_le_add_iff_left, mul_le_mul_right_of_neg down]
    have started := order 0 steps
    have stopped := order steps (range.length - 1)
    have notUp : ¬ 0 < range.step := by omega
    simp only [Int.zero_mul, Int.add_zero] at started
    simp only [contains, begins, ends, element, last, if_neg notUp, started, stopped,
      add_sub_cancel_left, Int.mul_emod_left, BEq.rfl, Bool.and_true, Bool.and_eq_true,
      decide_eq_true_eq]
    omega
  · simp [length, still] at some
  · have order (fewer more : Int) :
        range.start + fewer * range.step ≤ range.start + more * range.step ↔ fewer ≤ more := by
      rw [Int.add_le_add_iff_left, mul_le_mul_iff_of_pos_right up]
    have started := order 0 steps
    have stopped := order steps (range.length - 1)
    simp only [Int.zero_mul, Int.add_zero] at started
    simp only [contains, begins, ends, element, last, if_pos up, started, stopped,
      add_sub_cancel_left, Int.mul_emod_left, BEq.rfl, Bool.and_true, Bool.and_eq_true,
      decide_eq_true_eq]
    omega

theorem contains_iff_mem : range.contains value = true ↔ value ∈ range := by
  rw [mem_iff_exists_steps]
  rcases Nat.eq_zero_or_pos range.length with none | some
  · have empty : range.contains value = false := by simp [contains, first?, isEmpty, none]
    rw [empty, none]
    simp
  · constructor
    · intro checked
      obtain ⟨begins, ends⟩ := ends_of_pos some
      have whole : (value - range.start) % range.step = 0 := by
        simp only [contains, begins, ends, Bool.and_eq_true, beq_iff_eq] at checked
        exact checked.2
      obtain ⟨steps, moved⟩ := Int.dvd_of_emod_eq_zero whole
      have same : value = range.start + steps * range.step := by
        rw [Int.mul_comm] at moved
        omega
      rw [same] at checked
      exact ⟨steps, same, (contains_steps_iff some steps).mp checked⟩
    · intro found
      obtain ⟨steps, rfl, counted⟩ := found
      exact (contains_steps_iff some steps).mpr counted

end Gateware.Range
