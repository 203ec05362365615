import Mathlib.Algebra.Order.Floor.Div
import Gateware.Proofs.Reckoning.Exact

/-!
# Strides

A stepped range read in exact arithmetic.  It comes to the places from its first one on, one stride
after the other, and stops before its end; these are as many as strides fit between the ends,
rounded up.
-/

set_option autoImplicit false

namespace Gateware

open Reckoning

namespace Picked

/-- The number of strides between two ends, the last of them cut short; none if the end does not
lie ahead. -/
def strides (first last step : Int) : Nat :=
  if Ahead last step first then (last - first).natAbs ⌈/⌉ step.natAbs else 0

variable {width count : Nat} {first last step n position lower upper missing : Int}
  {start stop : Option Int} {target : Fault.Target}

/-! ## Counting -/

theorem lt_ceilDiv_iff {taken distance stride : Nat} (positive : 0 < stride) :
    taken < distance ⌈/⌉ stride ↔ taken * stride < distance := by
  rw [← not_le, ceilDiv_le_iff_le_mul positive, not_le, Nat.mul_comm]

theorem lt_strides_iff (nonzero : step ≠ 0) (taken : Nat) :
    taken < strides first last step ↔ Ahead last step (first + taken * step) := by
  have farther : (0 : Int) ≤ taken * step.natAbs := by positivity
  have counted : taken < (last - first).natAbs ⌈/⌉ step.natAbs ↔
      (taken : Int) * step.natAbs < (last - first).natAbs := by
    rw [lt_ceilDiv_iff (by omega)]
    exact_mod_cast Iff.rfl
  -- If the first place is not ahead of the end, neither is any that the step leads to.
  rcases Int.lt_or_gt_of_ne nonzero with down | up
  · rw [show (step.natAbs : Int) = -step by omega, Int.mul_neg] at counted farther
    by_cases ahead : Ahead last step first
    · rw [strides, if_pos ahead, counted]
      simp only [Ahead] at ahead ⊢
      omega
    · rw [strides, if_neg ahead]
      simp only [Ahead] at ahead ⊢
      omega
  · rw [show (step.natAbs : Int) = step by omega] at counted farther
    by_cases ahead : Ahead last step first
    · rw [strides, if_pos ahead, counted]
      simp only [Ahead] at ahead ⊢
      omega
    · rw [strides, if_neg ahead]
      simp only [Ahead] at ahead ⊢
      omega

theorem strides_le_natAbs (nonzero : step ≠ 0) :
    strides first last step ≤ (last - first).natAbs := by
  by_contra more
  exact not_ahead_natAbs ((lt_strides_iff nonzero _).mp (not_le.mp more))

theorem progression_eq_map (nonzero : step ≠ 0) (enough : strides first last step ≤ count) :
    progression count first last step =
      (List.range (strides first last step)).map fun taken : Nat => first + taken * step := by
  have stops : ¬ Ahead last step (first + (strides first last step : Nat) * step) := by
    rw [← lt_strides_iff nonzero]
    exact Nat.lt_irrefl _
  rw [progression_eq stops enough, progression, List.takeWhile_eq_self_iff]
  intro place listed
  obtain ⟨taken, within, rfl⟩ := List.mem_map.mp listed
  exact decide_eq_true ((lt_strides_iff nonzero taken).mp (List.mem_range.mp within))

/-! ## Runs in exact arithmetic -/

theorem run_id_reckonEnd {bound : Option Int} (lowerLe : lower ≤ 0)
    (upperGe : (width : Int) - 1 ≤ upper) (ordered : lower ≤ upper) :
    (reckonEnd width lower upper missing bound).run id =
      (bound.map fun bound => max lower (min (counted width bound) upper)).getD missing := by
  cases bound with
  | none => rfl
  | some bound =>
      simp only [reckonEnd, reckonClamp, run_ite, run_bind, run_sum, run_pure, id_eq,
        Option.map_some, Option.getD_some, counted]
      split <;> omega

theorem run_id_reckonEnds :
    (reckonEnds width start stop step).run id = reach width start stop step := by
  by_cases down : step < 0
  · simp only [reckonEnds, if_pos down, run_bind, run_sum, run_pure, id_eq, reach]
    rw [run_id_reckonEnd (by omega) (by omega) (by omega),
      run_id_reckonEnd (by omega) (by omega) (by omega)]
  · simp only [reckonEnds, if_neg down, run_bind, run_pure, reach]
    rw [run_id_reckonEnd (by omega) (by omega) (by omega),
      run_id_reckonEnd (by omega) (by omega) (by omega)]

theorem run_id_reckonSteps (nonzero : step ≠ 0) : (reckonSteps first last step).run id =
    (List.range (strides first last step)).map fun taken : Nat => first + taken * step := by
  rw [reckonSteps, run_id_reckonWalk, progression_eq_map nonzero (strides_le_natAbs nonzero)]

theorem run_id_reckonStepped (notZero : step ≠ 0) (notOne : step ≠ 1)
    (ends : reach width start stop step = (first, last)) :
    (reckonStepped target width start stop step).run id =
      .ok (.bits ((List.range (strides first last step)).map
        fun taken : Nat => first + taken * step)) := by
  rw [reckonStepped, if_neg notZero, run_sum_bind, run_bind, id_eq, run_id_reckonEnds, ends,
    if_neg notOne, run_bind, run_pure, run_id_reckonSteps notZero]

/-! ## The places -/

/-- The places that a stepped range comes to, in the order in which it does. -/
def strided (first last step : Int) : List Nat :=
  (List.range (strides first last step)).map fun taken : Nat => (first + taken * step).toNat

theorem length_strided : (strided first last step).length = strides first last step := by
  rw [strided, List.length_map, List.length_range]

theorem inside_of_lt_strides (nonzero : step ≠ 0)
    (ends : reach width start stop step = (first, last)) {taken : Nat}
    (within : taken < strides first last step) :
    0 ≤ first + taken * step ∧ first + taken * step < width := by
  have member : first + taken * step ∈ terms first last step := by
    rw [terms, progression_eq_map nonzero (strides_le_natAbs nonzero)]
    exact List.mem_map.mpr ⟨taken, List.mem_range.mpr within, rfl⟩
  have inside : ∀ place ∈ terms (reach width start stop step).1 (reach width start stop step).2 step,
      0 ≤ place ∧ place < width := fun _ listed => progression_inside width start stop listed
  rw [ends] at inside
  exact inside _ member

theorem strided_lt (nonzero : step ≠ 0) (ends : reach width start stop step = (first, last)) :
    ∀ place ∈ strided first last step, place < width := by
  intro place listed
  obtain ⟨taken, within, rfl⟩ := List.mem_map.mp listed
  have inside := inside_of_lt_strides nonzero ends (List.mem_range.mp within)
  omega

theorem cast_strided (nonzero : step ≠ 0) (ends : reach width start stop step = (first, last)) :
    (strided first last step).map (fun place : Nat => (place : Int)) =
      (List.range (strides first last step)).map fun taken : Nat => first + taken * step := by
  rw [strided, List.map_map]
  refine List.map_congr_left fun taken listed => ?_
  exact Int.toNat_of_nonneg (inside_of_lt_strides nonzero ends (List.mem_range.mp listed)).1

theorem nodup_strided (nonzero : step ≠ 0) (ends : reach width start stop step = (first, last)) :
    (strided first last step).Nodup := by
  apply List.Nodup.of_map (fun place : Nat => (place : Int))
  rw [cast_strided nonzero ends]
  refine List.nodup_range.map fun taken other same => ?_
  have further : (taken : Int) * step = other * step := Int.add_left_cancel same
  exact_mod_cast Int.eq_of_mul_eq_mul_right nonzero further

end Picked

end Gateware
