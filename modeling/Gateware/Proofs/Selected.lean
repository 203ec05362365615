import Gateware.Proofs.Picked
import Gateware.Proofs.Session
import Gateware.Value.Selection

/-!
# Selected places

The places that an index selects among the bits of something, told in exact arithmetic.  Runs that
pass the checks come to just these places, and so does a walk, unless it leaves the positions.
-/

set_option autoImplicit false

namespace Gateware

namespace Picked

/-- All places from the first one to the end by a step: these are no more than the ends are
apart. -/
def terms (first last step : Int) : List Int := progression (last - first).natAbs first last step

/-- The place that a position stands for among so many bits. -/
def counted (width : Nat) (position : Int) : Int :=
  if position < 0 then position + width else position

/-- The ends of a range among so many bits.  A bound past an end is held at it, and one that is
missing is the end from which, or to which, the step leads. -/
def reach (width : Nat) (start stop : Option Int) (step : Int) : Int × Int :=
  let lowest : Int := if step < 0 then -1 else 0
  let highest : Int := if step < 0 then width - 1 else width
  let held (bound : Int) : Int := max lowest (min (counted width bound) highest)
  if step < 0 then ((start.map held).getD highest, (stop.map held).getD lowest)
  else ((start.map held).getD lowest, (stop.map held).getD highest)

end Picked

namespace Index

/-- The places that an index selects among so many bits, in the order in which it selects them. -/
def selected (width : Nat) : Index → List Nat
  | .bit position => [(Picked.counted width position).toNat]
  | .range start stop step =>
      let (first, last) := Picked.reach width start stop step
      (Picked.terms first last step).map Int.toNat
  | .value _ => []

def InWord : Index → Prop
  | .range start stop step =>
      (∀ position ∈ start, Position.Holds position) ∧
        (∀ position ∈ stop, Position.Holds position) ∧ Position.Holds step
  | .bit _ | .value _ => True

/-- The walk of a stepped range over so many bits passes the largest position. -/
def Overruns (width : Nat) : Index → Prop
  | .range start stop step =>
      Picked.Overruns (Picked.ends width start stop step).1 (Picked.ends width start stop step).2
        step
  | .bit _ | .value _ => False

/-- The walk of a stepped range over so many bits comes to a place, whether or not it overflows
later. -/
def Visits (width : Nat) (index : Index) (place : Int) : Prop :=
  match index with
  | .range start stop step =>
      step ≠ 1 ∧ ∃ count places, Picked.walk count (Picked.ends width start stop step).1
        (Picked.ends width start stop step).2 step = .ok places ∧ place ∈ places
  | .bit _ | .value _ => False

end Index

namespace Picked

variable {width count : Nat} {first last start stop step place position : Int}
  {target : Fault.Target}

/-! ## Progressions -/

theorem progression_eq {taken : Nat} (reached : ¬ Ahead last step (first + taken * step))
    (enough : taken ≤ count) :
    progression count first last step = progression taken first last step := by
  induction taken generalizing first count with
  | zero =>
      rw [Nat.cast_zero, Int.zero_mul, Int.add_zero] at reached
      cases count with
      | zero => rfl
      | succ count => rw [progression_succ, if_neg reached]; rfl
  | succ taken ih =>
      obtain ⟨left, rfl⟩ : ∃ left, count = left + 1 := ⟨count - 1, by omega⟩
      have later : ¬ Ahead last step (first + step + taken * step) := by
        rw [Nat.cast_succ, Int.add_mul, Int.one_mul] at reached
        rwa [Int.add_assoc, Int.add_comm step]
      rw [progression_succ, progression_succ, ih later (by omega)]

theorem not_ahead_natAbs : ¬ Ahead last step (first + ((last - first).natAbs : Nat) * step) := by
  rcases Int.lt_trichotomy step 0 with down | rfl | up
  · have further : ((last - first).natAbs : Int) * step ≤ ((last - first).natAbs : Int) * -1 :=
      Int.mul_le_mul_of_nonneg_left (by omega) (by omega)
    simp only [Ahead]
    omega
  · simp [Ahead]
  · have further : ((last - first).natAbs : Int) * 1 ≤ ((last - first).natAbs : Int) * step :=
      Int.mul_le_mul_of_nonneg_left (by omega) (by omega)
    simp only [Ahead]
    omega

/-! ## Accepted ranges -/

theorem clamp_eq {lower upper bound : Int} (narrow : width < 2 ^ 63)
    (holds : Position.Holds bound) (ordered : lower ≤ upper) (lowerLe : lower ≤ 0)
    (upperGe : (width : Int) - 1 ≤ upper) :
    clamp width lower upper bound = max lower (min (counted width bound) upper) := by
  obtain ⟨boundLower, boundUpper⟩ := holds
  unfold clamp counted
  split
  · rw [Position.Holds.wrap_eq ⟨by omega, by omega⟩]
    omega
  · omega

theorem ends_eq_reach {start stop : Option Int} (narrow : width < 2 ^ 63)
    (startHolds : ∀ position ∈ start, Position.Holds position)
    (stopHolds : ∀ position ∈ stop, Position.Holds position) :
    ends width start stop step = reach width start stop step := by
  have exactUpper : Position.wrap ((width : Int) - 1) = width - 1 :=
    Position.Holds.wrap_eq ⟨by omega, by omega⟩
  have held {lower upper : Int} (ordered : lower ≤ upper) (lowerLe : lower ≤ 0)
      (upperGe : (width : Int) - 1 ≤ upper) {bound : Option Int}
      (holds : ∀ position ∈ bound, Position.Holds position) :
      bound.map (clamp width lower upper) =
        bound.map fun bound => max lower (min (counted width bound) upper) :=
    Option.map_congr fun position given =>
      clamp_eq narrow (holds position given) ordered lowerLe upperGe
  by_cases down : step < 0
  · simp only [ends, reach, if_pos down, exactUpper]
    rw [held (by omega) (by omega) (by omega) startHolds,
      held (by omega) (by omega) (by omega) stopHolds]
  · simp only [ends, reach, if_neg down]
    rw [held (by omega) (by omega) (by omega) startHolds,
      held (by omega) (by omega) (by omega) stopHolds]

theorem toWidth_place (narrow : width < 2 ^ 63) (lower : -(width : Int) ≤ position)
    (upper : position ≤ width) :
    Position.toWidth (Picked.place width position) = counted width position := by
  rw [place_eq narrow lower, Position.toWidth_eq (by split <;> omega) (by split <;> omega), counted]
  split <;> omega

theorem bit_eq_ok {found : Nat} (narrow : width < 2 ^ 63)
    (run : bit target width position = .ok found) : counted width position = found := by
  rw [bit_eq_ite narrow] at run
  split at run
  · cases run
    exact (toWidth_place narrow (by omega) (by omega)).symm
  · cases run

theorem between_eq_ok {low high : Nat} (narrow : width < 2 ^ 63)
    (run : between target width start stop = .ok (low, high)) :
      -(width : Int) ≤ start ∧ counted width start = low ∧ counted width stop = high ∧
        low ≤ high ∧ high ≤ width := by
  have ordered := between_ordered narrow run
  rw [between_eq_ite narrow] at run
  split at run
  · cases run
  · split at run
    · cases run
    · split at run
      · cases run
      · cases run
        exact ⟨by omega, (toWidth_place narrow (by omega) (by omega)).symm,
          (toWidth_place narrow (by omega) (by omega)).symm, ordered⟩

theorem place_inside (lower : Position.wrap (-Position.ofWidth width) ≤ place)
    (upper : place ≤ Position.ofWidth width) :
    0 ≤ Picked.place (Position.ofWidth width) place ∧
      Picked.place (Position.ofWidth width) place ≤ width ∧
      Picked.place (Position.ofWidth width) place < 2 ^ 63 := by
  have below : Position.ofWidth width ≤ width := by
    unfold Position.ofWidth Position.wrap
    rw [Int.bmod_def]
    omega
  obtain ⟨least, most⟩ : Position.Holds (Position.ofWidth width) := Position.holds_wrap _
  generalize Position.ofWidth width = n at *
  by_cases smallest : n = -2 ^ 63
  · -- The opposite of the smallest position is that position itself.
    subst smallest
    have only : place = -2 ^ 63 := by
      rw [Position.wrap_of_le (by omega) (by omega)] at lower
      omega
    have wrapped : Position.wrap (-2 ^ 63 + -2 ^ 63) = 0 := by decide
    subst only
    rw [Picked.place, if_pos (by omega), wrapped]
    omega
  · rw [Position.Holds.wrap_eq ⟨by omega, by omega⟩] at lower
    unfold Picked.place
    split
    · rw [Position.Holds.wrap_eq ⟨by omega, by omega⟩]
      omega
    · omega

/-- Whatever the width is, a run that is accepted lies inside it and ends at a position. -/
theorem between_inside {low high : Nat}
    (run : between target width start stop = .ok (low, high)) :
    low ≤ high ∧ high ≤ width ∧ high < 2 ^ 63 := by
  simp only [between, Bool.not_eq_true', Bool.and_eq_false_iff, decide_eq_false_iff_not] at run
  split at run
  · cases run
  · split at run
    · cases run
    · split at run
      · cases run
      · cases run
        rename_i startInside stopInside ordered
        have first : _ ∧ _ := place_inside (by omega) (by omega : start ≤ Position.ofWidth width)
        have last : _ ∧ _ := place_inside (by omega) (by omega : stop ≤ Position.ofWidth width)
        rw [Position.toWidth_eq first.1 (by omega), Position.toWidth_eq last.1 (by omega)]
        omega

/-! ## Walks between the ends of a range -/

section

variable (width : Nat) (start stop : Option Int)

theorem reach_up (forward : 0 ≤ step) :
    0 ≤ (reach width start stop step).1 ∧ (reach width start stop step).1 ≤ width ∧
      0 ≤ (reach width start stop step).2 ∧ (reach width start stop step).2 ≤ width := by
  have notDown : ¬ step < 0 := by omega
  simp only [reach, if_neg notDown]
  cases start <;> cases stop <;> simp

theorem reach_down (down : step < 0) :
    (reach width start stop step).1 < width ∧ -1 ≤ (reach width start stop step).2 := by
  simp only [reach, if_pos down]
  cases start <;> cases stop <;> simp <;> omega

theorem progression_inside (member : place ∈ progression count (reach width start stop step).1
    (reach width start stop step).2 step) : 0 ≤ place ∧ place < width := by
  obtain ⟨⟨up, below⟩ | ⟨down, above⟩, taken, rfl⟩ := mem_progression member
  · have ends := reach_up width start stop (Int.le_of_lt up)
    have further : 0 ≤ (taken : Int) * step := Int.mul_nonneg (by omega) (by omega)
    omega
  · have ends := reach_down width start stop down
    have further : (taken : Int) * step ≤ 0 :=
      Int.mul_nonpos_of_nonneg_of_nonpos (by omega) (by omega)
    omega

/-- Runs of neighbours and walks down never come near the largest position. -/
theorem not_overruns_reach (narrow : width < 2 ^ 63) (slow : step ≤ 1) :
    ¬ Overruns (reach width start stop step).1 (reach width start stop step).2 step := by
  rintro ⟨taken, before, passed⟩
  rcases Int.lt_or_le step 0 with down | forward
  · have first := (reach_down width start stop down).1
    have backward : ((taken : Int) + 1) * step ≤ 0 :=
      Int.mul_nonpos_of_nonneg_of_nonpos (by omega) (Int.le_of_lt down)
    omega
  · have last := reach_up width start stop forward
    rw [Int.add_mul, Int.one_mul] at passed
    omega

theorem stays_reach_iff (narrow : width < 2 ^ 63) (holds : Position.Holds step) :
    Stays ((reach width start stop step).2 - (reach width start stop step).1).natAbs
        (reach width start stop step).1 (reach width start stop step).2 step ↔
      ¬ Overruns (reach width start stop step).1 (reach width start stop step).2 step := by
  rcases Int.lt_trichotomy step 0 with down | zero | up
  · have ends := reach_down width start stop down
    exact iff_of_true (stays_down down holds.1 (by omega) ends.2)
      (not_overruns_reach width start stop narrow (by omega))
  · refine iff_of_true ?_ (not_overruns_reach width start stop narrow (by omega))
    -- Without a step no place lies ahead.
    intro taken _ ahead
    simp [Ahead, zero] at ahead
  · exact stays_up_iff up (by have ends := reach_up width start stop (Int.le_of_lt up); omega)

/-- A walk comes to the terms between its ends, unless it passes the largest position. -/
theorem steps_reach (narrow : width < 2 ^ 63) (holds : Position.Holds step) :
    (¬ Overruns (reach width start stop step).1 (reach width start stop step).2 step →
      steps (reach width start stop step).1 (reach width start stop step).2 step =
        .ok (terms (reach width start stop step).1 (reach width start stop step).2 step)) ∧
    (Overruns (reach width start stop step).1 (reach width start stop step).2 step →
      steps (reach width start stop step).1 (reach width start stop step).2 step =
        .error .overflow) := by
  have stays := stays_reach_iff width start stop narrow holds
  exact ⟨fun keeps => walk_eq_ok (stays.mpr keeps),
    fun overruns => walk_eq_overflow fun kept => stays.mp kept overruns⟩

end

/-! ## Stepped ranges -/

theorem stepped_one {start stop : Option Int} : stepped target width start stop 1 =
    (between target width (ends (Position.ofWidth width) start stop 1).1
      (ends (Position.ofWidth width) start stop 1).2).map fun (start, stop) => run start stop :=
  rfl

theorem stepped_of_ne_one {start stop : Option Int} (notZero : step ≠ 0) (notOne : step ≠ 1) :
    stepped target width start stop step =
      (steps (ends (Position.ofWidth width) start stop step).1
        (ends (Position.ofWidth width) start stop step).2 step).map bits := by
  rw [stepped, if_neg notZero]
  exact if_neg notOne

theorem stepped_cases {start stop : Option Int} {chosen : Picked}
    (found : stepped target width start stop step = .ok chosen) :
    (∃ low high, chosen = .run low high ∧ step = 1 ∧
      between target width (ends (Position.ofWidth width) start stop step).1
        (ends (Position.ofWidth width) start stop step).2 = .ok (low, high)) ∨
    ∃ places, chosen = .bits places ∧ step ≠ 0 ∧ step ≠ 1 ∧
      steps (ends (Position.ofWidth width) start stop step).1
        (ends (Position.ofWidth width) start stop step).2 step = .ok places := by
  by_cases zero : step = 0
  · rw [stepped, if_pos zero] at found
    cases found
  · by_cases one : step = 1
    · subst one
      obtain ⟨⟨low, high⟩, places, rfl⟩ := map_eq_ok.mp (stepped_one ▸ found)
      exact Or.inl ⟨low, high, rfl, rfl, places⟩
    · rw [stepped_of_ne_one zero one] at found
      obtain ⟨places, walked, rfl⟩ := map_eq_ok.mp found
      exact Or.inr ⟨places, rfl, zero, one, walked⟩

theorem between_ne_overflow (narrow : width < 2 ^ 63) :
    between target width start stop ≠ .error .overflow := by
  rw [between_eq_ite narrow]
  split
  · nofun
  · split
    · nofun
    · split <;> nofun

section

variable {start stop : Option Int} (narrow : width < 2 ^ 63)
  (inWord : (Index.range start stop step).InWord)
include narrow inWord

theorem not_overruns_of_le_one (slow : step ≤ 1) :
    ¬ (Index.range start stop step).Overruns width := by
  rw [Index.Overruns, ends_eq_reach narrow inWord.1 inWord.2.1]
  exact not_overruns_reach width start stop narrow slow

theorem stepped_eq_bits (notZero : step ≠ 0) (notOne : step ≠ 1)
    (keeps : ¬ (Index.range start stop step).Overruns width) :
    stepped target width start stop step =
      .ok (.bits (terms (reach width start stop step).1 (reach width start stop step).2 step)) := by
  obtain ⟨startHolds, stopHolds, stepHolds⟩ := inWord
  have ends : ends width start stop step = reach width start stop step :=
    ends_eq_reach narrow startHolds stopHolds
  rw [Index.Overruns, ends] at keeps
  rw [stepped_of_ne_one notZero notOne, Position.ofWidth_eq narrow, ends,
    (steps_reach width start stop narrow stepHolds).1 keeps]
  rfl

theorem stepped_eq_overflow_iff : stepped target width start stop step = .error .overflow ↔
    (Index.range start stop step).Overruns width := by
  constructor
  · intro overflow
    by_contra keeps
    by_cases zero : step = 0
    · rw [stepped, if_pos zero] at overflow
      cases overflow
    · by_cases one : step = 1
      · rw [one, stepped_one, map_eq_error] at overflow
        exact between_ne_overflow narrow overflow
      · rw [stepped_eq_bits narrow inWord zero one keeps] at overflow
        cases overflow
  · intro overruns
    have fast : ¬ step ≤ 1 := fun slow => not_overruns_of_le_one narrow inWord slow overruns
    obtain ⟨startHolds, stopHolds, stepHolds⟩ := inWord
    have ends : ends width start stop step = reach width start stop step :=
      ends_eq_reach narrow startHolds stopHolds
    rw [Index.Overruns, ends] at overruns
    rw [stepped_of_ne_one (by omega) (by omega), Position.ofWidth_eq narrow, ends,
      (steps_reach width start stop narrow stepHolds).2 overruns]
    rfl

end

theorem terms_one {low high : Nat} (ordered : low ≤ high) :
    (terms low high 1).map Int.toNat = List.range' low (high - low) := by
  have count : ((high : Int) - low).natAbs = high - low := by omega
  have all : ∀ place ∈ (List.range (high - low)).map fun taken : Nat => (low : Int) + taken * 1,
      decide (Ahead high 1 place) := by
    intro place listed
    obtain ⟨taken, inside, rfl⟩ := List.mem_map.mp listed
    have before := List.mem_range.mp inside
    exact decide_eq_true (Or.inl ⟨by omega, by omega⟩)
  rw [terms, progression, count, List.takeWhile_eq_self_iff.mpr all, List.map_map,
    List.range'_eq_map_range]
  refine List.map_congr_left fun taken _ => ?_
  simp only [Function.comp_apply]
  omega

end Picked

namespace Index

variable {index : Index} {width : Nat} {place : Int}

theorem Visits.inside (narrow : width < 2 ^ 63) (inWord : index.InWord)
    (visits : index.Visits width place) : 0 ≤ place ∧ place < width := by
  cases index with
  | range start stop step =>
      obtain ⟨startHolds, stopHolds, _⟩ := inWord
      obtain ⟨_, count, places, run, member⟩ := visits
      rw [Picked.ends_eq_reach narrow startHolds stopHolds] at run
      rw [Picked.eq_progression_of_walk run] at member
      exact Picked.progression_inside width start stop member
  | bit position => cases visits
  | value index => cases visits

end Index

end Gateware
