import Mathlib.Data.List.TakeWhile
import Mathlib.Tactic.Linarith
import Gateware.Picked

/-!
# Places inside a width

Positions that pass the checks are places inside the width, and bounds are held inside
it.  A walk comes to the terms of an exact progression, or to an overflow where a step
from a place before its end leaves the positions.
-/

set_option autoImplicit false

namespace Gateware

namespace Position

theorem holds_saturate (x : Int) : Holds (saturate x) := by
  unfold Holds saturate max min
  omega

theorem saturate_of_nonneg {x : Int} (notNegative : 0 ≤ x) : saturate x = Min.min x max := by
  unfold saturate min max
  omega

/-- A sum saturates alike whether its first part has done so before or not. -/
theorem saturate_add {x step : Int} (notNegative : 0 ≤ x) (forward : 0 ≤ step) :
    saturate (saturate x + step) = saturate (x + step) := by
  unfold saturate min max
  omega

theorem saturate_mul {x factor : Int} (notNegative : 0 ≤ x) (positive : 0 < factor) :
    saturate (saturate x * factor) = saturate (x * factor) := by
  by_cases held : x ≤ max
  · rw [saturate_of_nonneg notNegative, Int.min_eq_left held]
  · have past : max ≤ max * factor := by
      unfold max
      omega
    have farther : max * factor ≤ x * factor :=
      Int.mul_le_mul_of_nonneg_right (by omega) (by omega)
    rw [saturate_of_nonneg notNegative, Int.min_eq_right (by omega)]
    unfold saturate min at *
    omega

theorem holds_wrap (x : Int) : Holds (wrap x) := by
  unfold Holds wrap
  have lower := Int.le_bmod (x := x) (m := 2 ^ 64) (by decide)
  have upper := Int.bmod_lt (x := x) (m := 2 ^ 64) (by decide)
  omega

theorem Holds.saturate_eq {position : Int} (holds : Holds position) :
    saturate position = position := by
  obtain ⟨lower, upper⟩ := holds
  unfold saturate min max
  omega

theorem Holds.neg {position : Int} (holds : Holds position) (notLeast : position ≠ min) :
    Holds (-position) := by
  obtain ⟨lower, upper⟩ := holds
  unfold min at notLeast
  exact ⟨by omega, by omega⟩

theorem wrap_neg {width : Nat} (narrow : width < 2 ^ 63) :
    wrap (-(width : Int)) = -(width : Int) :=
  Holds.wrap_eq ⟨by omega, by omega⟩

theorem toWidth_eq {position : Int} (notNegative : 0 ≤ position) (upper : position < 2 ^ 64) :
    toWidth position = position.toNat := by
  unfold toWidth
  omega

theorem toWidth_natCast {width : Nat} (upper : width < 2 ^ 64) : toWidth (width : Int) = width := by
  rw [toWidth_eq (Int.natCast_nonneg width) (by omega), Int.toNat_natCast]

theorem wrap_of_le {x : Int} (past : 2 ^ 63 ≤ x) (below : x < 2 ^ 64) :
    wrap x = x - 2 ^ 64 := by
  unfold wrap
  rw [Int.bmod_def]
  omega

end Position

namespace Picked

variable {width : Nat} {position start stop step bound : Int}

/-! ## Checked positions -/

theorem place_eq (narrow : width < 2 ^ 63) (lower : -(width : Int) ≤ position) :
    place width position = if position < 0 then position + width else position := by
  unfold place
  split
  · exact Position.Holds.wrap_eq ⟨by omega, by omega⟩
  · rfl

theorem bit_eq_ite {target : Fault.Target} (narrow : width < 2 ^ 63) :
    bit target width position =
      if -(width : Int) ≤ position ∧ position < width then
        .ok (Position.toWidth (place width position))
      else .error (.bitIndex position width target) := by
  simp only [bit, Position.ofWidth_eq narrow, Position.wrap_neg narrow, Bool.and_eq_true,
    decide_eq_true_eq]

theorem between_eq_ite {target : Fault.Target} (narrow : width < 2 ^ 63) :
    between target width start stop =
      if ¬ (-(width : Int) ≤ start ∧ start ≤ width) then .error (.sliceStart start width target)
      else if ¬ (-(width : Int) ≤ stop ∧ stop ≤ width) then
        .error (.sliceStop stop width target)
      else if place width stop < place width start then
        .error (.sliceOrder (place width start) (place width stop))
      else .ok (Position.toWidth (place width start), Position.toWidth (place width stop)) := by
  simp only [between, Position.ofWidth_eq narrow, Position.wrap_neg narrow, Bool.not_eq_true',
    ← Bool.not_eq_true, Bool.and_eq_true, decide_eq_true_eq]

theorem bit_lt {target : Fault.Target} {found : Nat} (narrow : width < 2 ^ 63)
    (run : bit target width position = .ok found) : found < width := by
  rw [bit_eq_ite narrow] at run
  split at run
  · rename_i inside
    cases run
    rw [place_eq narrow inside.1]
    split
    · rw [Position.toWidth_eq (by omega) (by omega)]
      omega
    · rw [Position.toWidth_eq (by omega) (by omega)]
      omega
  · cases run

theorem between_ordered {target : Fault.Target} {first last : Nat} (narrow : width < 2 ^ 63)
    (run : between target width start stop = .ok (first, last)) :
    first ≤ last ∧ last ≤ width := by
  have placed (position : Int) (lower : -(width : Int) ≤ position) (upper : position ≤ width) :
      0 ≤ place width position ∧ place width position ≤ width := by
    rw [place_eq narrow lower]
    split <;> omega
  rw [between_eq_ite narrow] at run
  split at run
  · cases run
  · split at run
    · cases run
    · split at run
      · cases run
      · cases run
        have startPlace := placed start (by omega) (by omega)
        have stopPlace := placed stop (by omega) (by omega)
        rw [Position.toWidth_eq startPlace.1 (by omega), Position.toWidth_eq stopPlace.1 (by omega)]
        omega

/-! ## Bounds -/

theorem clamp_between {lower upper : Int} (narrow : width < 2 ^ 63) (holds : Position.Holds bound)
    (ordered : lower ≤ upper) (lowerLe : lower ≤ 0) (upperGe : (width : Int) - 1 ≤ upper) :
    lower ≤ clamp width lower upper bound ∧ clamp width lower upper bound ≤ upper := by
  obtain ⟨boundLower, boundUpper⟩ := holds
  unfold clamp
  split
  · rw [Position.Holds.wrap_eq ⟨by omega, by omega⟩]
    omega
  · omega

theorem clamp_of_nonneg {lower upper : Int} (notNegative : 0 ≤ bound) :
    clamp width lower upper bound = min bound upper :=
  if_neg (Int.not_lt.mpr notNegative)

theorem clamp_of_neg {upper : Int} (narrow : width < 2 ^ 63) (negative : bound < 0)
    (inside : -(width : Int) ≤ bound) : clamp width 0 upper bound = bound + width := by
  rw [clamp, if_pos negative, Position.Holds.wrap_eq ⟨by omega, by omega⟩]
  exact max_eq_left (by omega)

/-! ## Sums -/

theorem held_eq_ok {exact found : Int} :
    held exact = .ok found ↔ Position.Holds exact ∧ exact = found := by
  unfold held
  split
  · rename_i holds
    rw [Except.ok.injEq, and_iff_right holds]
  · rename_i leaves
    exact iff_of_false nofun fun both => leaves both.1

theorem held_of_holds {exact : Int} (holds : Position.Holds exact) : held exact = .ok exact :=
  held_eq_ok.mpr ⟨holds, rfl⟩

theorem held_of_not_holds {exact : Int} (leaves : ¬ Position.Holds exact) :
    held exact = .error .overflow :=
  if_neg leaves

/-! ## Walks -/

/-- Whether a place lies before the end to which a step leads. -/
def Ahead (stop step place : Int) : Prop := 0 < step ∧ place < stop ∨ step < 0 ∧ stop < place

instance (stop step place : Int) : Decidable (Ahead stop step place) :=
  inferInstanceAs (Decidable (_ ∨ _))

/-- The places from the first one on, one after the other by a step, as long as they lie before
the end; at most so many. -/
def progression (count : Nat) (first last step : Int) : List Int :=
  ((List.range count).map fun taken : Nat => first + taken * step).takeWhile
    fun place => Ahead last step place

/-- In so many steps, no step from a place before the end leaves the positions. -/
def Stays (count : Nat) (first last step : Int) : Prop :=
  ∀ taken < count, Ahead last step (first + taken * step) →
    Position.Holds (first + (taken + 1) * step)

/-- The walk comes to a place before its end from which the next step leaves the positions. -/
def Overruns (start stop step : Int) : Prop :=
  ∃ taken : Nat, start + taken * step < stop ∧ 2 ^ 63 ≤ start + (taken + 1) * step

variable {count : Nat} {first last : Int}

theorem progression_succ : progression (count + 1) first last step =
    if Ahead last step first then first :: progression count (first + step) last step else [] := by
  have shift : ((List.range (count + 1)).map fun taken : Nat => first + taken * step) =
      first :: (List.range count).map fun taken : Nat => first + step + taken * step := by
    rw [List.range_succ_eq_map, List.map_cons, List.map_map]
    congr 1
    · simp
    · refine List.map_congr_left fun taken _ => ?_
      simp only [Function.comp_apply, Nat.cast_succ, Int.add_mul]
      omega
  rw [progression, shift]
  by_cases ahead : Ahead last step first
  · rw [List.takeWhile_cons_of_pos (by simpa using ahead), if_pos ahead, progression]
  · rw [List.takeWhile_cons_of_neg (by simpa using ahead), if_neg ahead]

theorem mem_progression {place : Int} (member : place ∈ progression count first last step) :
    Ahead last step place ∧ ∃ taken : Nat, place = first + taken * step := by
  have ahead := List.all_eq_true.mp List.all_takeWhile place member
  obtain ⟨taken, _, rfl⟩ := List.mem_map.mp ((List.takeWhile_prefix _).subset member)
  exact ⟨by simpa using ahead, taken, rfl⟩

theorem Ahead.earlier {taken : Nat} (ahead : Ahead last step (first + taken * step)) :
    Ahead last step first := by
  obtain ⟨up, before⟩ | ⟨down, before⟩ := ahead
  · have further : 0 ≤ (taken : Int) * step := Int.mul_nonneg (by omega) (by omega)
    exact Or.inl ⟨up, by omega⟩
  · have further : (taken : Int) * step ≤ 0 :=
      Int.mul_nonpos_of_nonneg_of_nonpos (by omega) (by omega)
    exact Or.inr ⟨down, by omega⟩

theorem stays_succ : Stays (count + 1) first last step ↔
    (Ahead last step first →
      Position.Holds (first + step) ∧ Stays count (first + step) last step) := by
  have onward (taken : Nat) : first + ((taken + 1 : Nat) : Int) * step =
      first + step + taken * step := by
    push_cast
    linarith
  constructor
  · intro stays ahead
    refine ⟨?_, ?_⟩
    · have next := stays 0 (Nat.succ_pos count) (by simpa using ahead)
      simpa using next
    · intro taken within before
      have next := stays (taken + 1) (Nat.succ_lt_succ within) ((onward taken).symm ▸ before)
      have same : first + (((taken + 1 : Nat) : Int) + 1) * step =
          first + step + ((taken : Int) + 1) * step := by
        push_cast
        linarith
      rwa [same] at next
  · intro next taken within before
    obtain ⟨holds, later⟩ := next before.earlier
    cases taken with
    | zero => simpa using holds
    | succ taken =>
        have here := later taken (Nat.lt_of_succ_lt_succ within) (onward taken ▸ before)
        have same : first + (((taken + 1 : Nat) : Int) + 1) * step =
            first + step + ((taken : Int) + 1) * step := by
          push_cast
          linarith
        rwa [same]

theorem walk_succ : walk (count + 1) first last step =
    if Ahead last step first then
      (held (first + step)).bind fun next =>
        (walk count next last step).map fun later => first :: later
    else .ok [] := by
  by_cases ahead : Ahead last step first
  · rw [if_pos ahead, walk, if_pos (by simpa [Ahead] using ahead)]
    rfl
  · rw [if_neg ahead, walk, if_neg (by simpa [Ahead] using ahead)]

theorem walk_eq_ok (stays : Stays count first last step) :
    walk count first last step = .ok (progression count first last step) := by
  induction count generalizing first with
  | zero => rfl
  | succ count ih =>
      rw [walk_succ, progression_succ]
      by_cases ahead : Ahead last step first
      · obtain ⟨holds, later⟩ := stays_succ.mp stays ahead
        rw [if_pos ahead, if_pos ahead, held_of_holds holds, Except.bind, ih later]
        rfl
      · rw [if_neg ahead, if_neg ahead]

theorem walk_eq_overflow (leaves : ¬ Stays count first last step) :
    walk count first last step = .error .overflow := by
  induction count generalizing first with
  | zero => exact absurd nofun leaves
  | succ count ih =>
      rw [stays_succ, Classical.not_imp] at leaves
      obtain ⟨ahead, leaves⟩ := leaves
      rw [walk_succ, if_pos ahead]
      by_cases holds : Position.Holds (first + step)
      · rw [held_of_holds holds, Except.bind, ih fun later => leaves ⟨holds, later⟩]
        rfl
      · rw [held_of_not_holds holds]
        rfl

/-- What a walk comes to are the places of exact arithmetic. -/
theorem eq_progression_of_walk {places : List Int}
    (run : walk count first last step = .ok places) :
    places = progression count first last step := by
  by_cases stays : Stays count first last step
  · rw [walk_eq_ok stays] at run
    exact (Except.ok.inj run).symm
  · rw [walk_eq_overflow stays] at run
    cases run

theorem stays_up_iff (up : 0 < step) (lower : -2 ^ 63 ≤ first) :
    Stays (last - first).natAbs first last step ↔ ¬ Overruns first last step := by
  constructor
  · rintro stays ⟨taken, before, passed⟩
    have farther : (taken : Int) ≤ taken * step := le_mul_of_one_le_right (by omega) (by omega)
    have kept := stays taken (by omega) (Or.inl ⟨up, before⟩)
    exact absurd kept.2 (Int.not_lt.mpr passed)
  · intro keeps taken _ ahead
    have before : first + taken * step < last := by
      obtain ⟨_, before⟩ | ⟨down, _⟩ := ahead
      · exact before
      · omega
    have farther : 0 ≤ ((taken : Int) + 1) * step := Int.mul_nonneg (by omega) (by omega)
    refine ⟨by omega, ?_⟩
    by_contra passed
    exact keeps ⟨taken, before, Int.not_lt.mp passed⟩

theorem stays_down (down : step < 0) (stepLower : -2 ^ 63 ≤ step) (upper : first < 2 ^ 63)
    (lastLe : -1 ≤ last) : Stays count first last step := by
  intro taken _ ahead
  have before : last < first + taken * step := by
    obtain ⟨up, _⟩ | ⟨_, before⟩ := ahead
    · omega
    · exact before
  have farther : ((taken : Int) + 1) * step ≤ 0 :=
    Int.mul_nonpos_of_nonneg_of_nonpos (by omega) (by omega)
  have onward : ((taken : Int) + 1) * step = taken * step + step := by
    rw [Int.add_mul, Int.one_mul]
  exact ⟨by omega, by omega⟩

end Picked

end Gateware
