import Gateware.Proofs.Alike
import Gateware.Proofs.Reckoning.Selection

/-!
# Selections in exact arithmetic

Which selections keep to the positions at every sum: all of them, but for a stepped range whose
walk passes the largest position and a rotation of no bits by the least one, which overflow.
-/

set_option autoImplicit false

namespace Gateware

open Reckoning

theorem Position.holds_natCast {width : Nat} (narrow : width < 2 ^ 63) :
    Position.Holds (width : Int) :=
  ⟨by omega, by omega⟩

namespace Bound

theorem exact_reckonStart {bound : Bound} (inWord : bound.InWord) : bound.reckonStart.Exact := by
  cases bound with
  | unbounded => exact exact_pure
  | included position => exact exact_pure
  | excluded position =>
      obtain ⟨lower, upper⟩ : Position.Holds position := inWord
      simp only [reckonStart, exact_ite, exact_bind, exact_sum, exact_pure, and_true]
      split
      · trivial
      · rename_i notGreatest
        unfold Position.max at notGreatest
        exact ⟨by omega, by omega⟩

theorem exact_reckonStop {bound : Bound} (inWord : bound.InWord) : bound.reckonStop.Exact := by
  cases bound with
  | unbounded => exact exact_pure
  | excluded position => exact exact_pure
  | included position =>
      obtain ⟨lower, upper⟩ : Position.Holds position := inWord
      simp only [reckonStop, exact_ite, exact_bind, exact_sum, exact_pure, and_true]
      split
      · trivial
      · rename_i notEnd
        unfold Position.max at notEnd
        exact ⟨by omega, by omega⟩

end Bound

namespace Picked

variable {target : Fault.Target} {width : Nat} {position start stop step : Int}

/-! ## Places and bounds -/

theorem exact_reckonPlace (narrow : width < 2 ^ 63) (holds : Position.Holds position) :
    (reckonPlace width position).Exact := by
  obtain ⟨lower, upper⟩ := holds
  rw [reckonPlace, exact_ite]
  split
  · exact exact_sum.mpr ⟨by omega, by omega⟩
  · exact exact_pure

theorem exact_reckonBit (narrow : width < 2 ^ 63) : (reckonBit target width position).Exact := by
  have holds : Position.Holds (width : Int) := Position.holds_natCast narrow
  have opposite : Position.Holds (-(width : Int)) := ⟨by omega, by omega⟩
  simp only [reckonBit, exact_sum_bind, holds.wrap_eq, opposite.wrap_eq, exact_ite]
  refine ⟨holds, opposite, ?_⟩
  split
  · exact exact_bind.mpr ⟨exact_reckonPlace narrow ⟨by omega, by omega⟩, exact_pure⟩
  · exact exact_pure

theorem exact_reckonBetween (narrow : width < 2 ^ 63) :
    (reckonBetween target width start stop).Exact := by
  have holds : Position.Holds (width : Int) := Position.holds_natCast narrow
  have opposite : Position.Holds (-(width : Int)) := ⟨by omega, by omega⟩
  simp only [reckonBetween, exact_sum_bind, holds.wrap_eq, opposite.wrap_eq, exact_ite]
  refine ⟨holds, opposite, ?_⟩
  split
  · exact exact_pure
  · split
    · exact exact_pure
    · have first : (reckonPlace width start).Exact :=
        exact_reckonPlace narrow ⟨by omega, by omega⟩
      have last : (reckonPlace width stop).Exact :=
        exact_reckonPlace narrow ⟨by omega, by omega⟩
      refine exact_bind.mpr ⟨first, exact_bind.mpr ⟨last, exact_ite.mpr ?_⟩⟩
      split <;> exact exact_pure

theorem exact_reckonEnd {lower upper missing : Int} {bound : Option Int}
    (narrow : width < 2 ^ 63) (boundHolds : ∀ position ∈ bound, Position.Holds position) :
    (reckonEnd width lower upper missing bound).Exact := by
  cases bound with
  | none => exact exact_pure
  | some position =>
      obtain ⟨least, greatest⟩ := boundHolds position rfl
      simp only [reckonEnd, reckonClamp, exact_ite, exact_bind, exact_sum, exact_pure, and_true]
      split
      · exact ⟨by omega, by omega⟩
      · trivial

theorem exact_reckonEnds {start stop : Option Int} (narrow : width < 2 ^ 63)
    (startHolds : ∀ position ∈ start, Position.Holds position)
    (stopHolds : ∀ position ∈ stop, Position.Holds position) :
    (reckonEnds width start stop step).Exact := by
  by_cases down : step < 0
  · simp only [reckonEnds, if_pos down, exact_bind, exact_sum, exact_pure, and_true]
    exact ⟨⟨by omega, by omega⟩, exact_reckonEnd narrow startHolds,
      exact_reckonEnd narrow stopHolds⟩
  · simp only [reckonEnds, if_neg down, exact_bind, exact_pure, and_true, true_and]
    exact ⟨exact_reckonEnd narrow startHolds, exact_reckonEnd narrow stopHolds⟩

/-! ## Stepped ranges -/

theorem exact_reckonSteps {start stop : Option Int} (narrow : width < 2 ^ 63)
    (inWord : (Index.range start stop step).InWord) :
    (reckonSteps (ends width start stop step).1 (ends width start stop step).2 step).Exact ↔
      ¬ (Index.range start stop step).Overruns width := by
  obtain ⟨startHolds, stopHolds, stepHolds⟩ := inWord
  rw [Index.Overruns, ends_eq_reach narrow startHolds stopHolds, reckonSteps, exact_reckonWalk]
  exact stays_reach_iff width start stop narrow stepHolds

theorem exact_reckonStepped {start stop : Option Int} (narrow : width < 2 ^ 63)
    (inWord : (Index.range start stop step).InWord) :
    (reckonStepped target width start stop step).Exact ↔
      ¬ (Index.range start stop step).Overruns width := by
  have holds : Position.Holds (width : Int) := Position.holds_natCast narrow
  have ended : (reckonEnds width start stop step).Exact :=
    exact_reckonEnds narrow inWord.1 inWord.2.1
  by_cases zero : step = 0
  · rw [reckonStepped, if_pos zero]
    exact iff_of_true exact_pure (not_overruns_of_le_one narrow inWord (by omega))
  rw [reckonStepped, if_neg zero, exact_sum_bind, and_iff_right holds, holds.wrap_eq, exact_bind,
    and_iff_right ended, run_reckonEnds]
  by_cases one : step = 1
  · rw [if_pos one, exact_bind]
    exact iff_of_true ⟨exact_reckonBetween narrow, exact_pure⟩
      (not_overruns_of_le_one narrow inWord (by omega))
  · rw [if_neg one, exact_bind, exact_reckonSteps narrow inWord]
    exact and_iff_left exact_pure

end Picked

namespace Value

variable {value : Value} {amount position start stop : Int}

theorem exact_reckonBetween (narrow : value.width < 2 ^ 63) :
    (value.reckonBetween start stop).Exact :=
  exact_bind.mpr ⟨Picked.exact_reckonBetween narrow, exact_pure⟩

theorem exact_reckonIndex {index : Index} (narrow : value.width < 2 ^ 63) (inWord : index.InWord) :
    (value.reckonIndex index).Exact ↔ ¬ index.Overruns value.width := by
  cases index with
  | value index => exact iff_of_true exact_pure nofun
  | bit position =>
      exact iff_of_true (exact_bind.mpr ⟨Picked.exact_reckonBit narrow, exact_pure⟩) nofun
  | range start stop step =>
      rw [reckonIndex, exact_bind, Picked.exact_reckonStepped narrow inWord]
      exact and_iff_left exact_pure

theorem index_eq_run_id {index : Index} (narrow : value.width < 2 ^ 63) (inWord : index.InWord)
    (stays : ¬ index.Overruns value.width) :
    value.index index = (value.reckonIndex index).run id := by
  have exact : (value.reckonIndex index).Exact := (exact_reckonIndex narrow inWord).mpr stays
  rw [← run_reckonIndex exact, exact.run_eq]

theorem exact_reckonClamped {start stop : Option Int} (narrow : value.width < 2 ^ 63)
    (startHolds : ∀ position ∈ start, Position.Holds position)
    (stopHolds : ∀ position ∈ stop, Position.Holds position) :
    (value.reckonClamped start stop).Exact := by
  have holds : Position.Holds (value.width : Int) := Position.holds_natCast narrow
  rw [reckonClamped, exact_sum_bind, holds.wrap_eq, exact_bind, exact_bind]
  exact ⟨holds, Picked.exact_reckonEnd narrow startHolds, Picked.exact_reckonEnd narrow stopHolds,
    exact_pure⟩

theorem exact_reckonLowered (narrow : value.width < 2 ^ 63) (amountHolds : Position.Holds amount) :
    (value.reckonLowered amount).Exact := by
  have holds : Position.Holds (value.width : Int) := Position.holds_natCast narrow
  have most : Position.Holds ((value.width : Int) - 1) := ⟨by omega, by omega⟩
  have kept : Position.Holds (min amount (value.width - 1)) := by
    obtain ⟨lower, upper⟩ := amountHolds
    exact ⟨by omega, by omega⟩
  rw [reckonLowered, exact_ite]
  split
  · rw [exact_sum_bind, holds.wrap_eq, exact_sum_bind, most.wrap_eq, exact_bind]
    exact ⟨holds, most, exact_reckonClamped narrow (by simpa using kept) (by simp), exact_pure⟩
  · exact exact_reckonClamped narrow (by simpa using amountHolds) (by simp)

theorem exact_reckonOpposite (amountHolds : Position.Holds amount) :
    (reckonOpposite amount).Exact := by
  obtain ⟨lower, upper⟩ := amountHolds
  rw [reckonOpposite, exact_ite]
  split
  · exact exact_pure
  · rename_i notLeast
    unfold Position.min at notLeast
    exact exact_sum.mpr ⟨by omega, by omega⟩

theorem exact_reckonShiftLeft (narrow : value.width < 2 ^ 63)
    (amountHolds : Position.Holds amount) : (value.reckonShiftLeft amount).Exact := by
  rw [reckonShiftLeft, exact_ite]
  split
  · rw [exact_bind, run_reckonOpposite amountHolds]
    exact ⟨exact_reckonOpposite amountHolds,
      exact_reckonLowered narrow (Position.holds_saturate _)⟩
  · exact exact_pure

theorem exact_reckonShiftRight (narrow : value.width < 2 ^ 63)
    (amountHolds : Position.Holds amount) : (value.reckonShiftRight amount).Exact := by
  rw [reckonShiftRight, exact_ite]
  split
  · exact exact_bind.mpr ⟨exact_reckonOpposite amountHolds, exact_pure⟩
  · exact exact_reckonLowered narrow amountHolds

theorem exact_reckonTurn (narrow : value.width < 2 ^ 63) : (value.reckonTurn amount).Exact :=
  exact_sum_bind.mpr ⟨Position.holds_natCast narrow, exact_pure⟩

theorem turn_cases (value : Value) (amount : Int) (narrow : value.width < 2 ^ 63) :
    value.width = 0 ∧ value.turn amount = amount ∨
      0 ≤ value.turn amount ∧ value.turn amount < value.width := by
  rw [turn, Position.ofWidth_eq narrow]
  by_cases empty : value.width = 0
  · exact Or.inl ⟨empty, if_pos (by omega)⟩
  · right
    rw [if_neg (by omega)]
    exact ⟨Int.emod_nonneg _ (by omega), Int.emod_lt_of_pos _ (by omega)⟩

theorem holds_turn (narrow : value.width < 2 ^ 63) (amountHolds : Position.Holds amount) :
    Position.Holds (value.turn amount) := by
  obtain ⟨_, same⟩ | ⟨lower, upper⟩ := value.turn_cases amount narrow
  · rw [same]
    exact amountHolds
  · exact ⟨by omega, by omega⟩

theorem exact_reckonTurned (narrow : value.width < 2 ^ 63)
    (positionHolds : Position.Holds position) : (value.reckonTurned position).Exact := by
  rw [reckonTurned, exact_bind, exact_bind]
  exact ⟨exact_reckonClamped narrow (by simpa using positionHolds) (by simp),
    exact_reckonClamped narrow (by simp) (by simpa using positionHolds), exact_pure⟩

theorem exact_reckonRotateRight (narrow : value.width < 2 ^ 63)
    (amountHolds : Position.Holds amount) : (value.reckonRotateRight amount).Exact := by
  rw [reckonRotateRight, exact_bind, run_reckonTurn]
  exact ⟨exact_reckonTurn narrow, exact_reckonTurned narrow (holds_turn narrow amountHolds)⟩

/-- Only the least position has no opposite, and only without bits is it a turn. -/
theorem exact_reckonRotateLeft (narrow : value.width < 2 ^ 63)
    (amountHolds : Position.Holds amount) : (value.reckonRotateLeft amount).Exact ↔
      ¬ (value.width = 0 ∧ amount = Position.min) := by
  have turned : (value.reckonTurned (Position.wrap (-value.turn amount))).Exact :=
    exact_reckonTurned narrow (Position.holds_wrap _)
  rw [reckonRotateLeft, exact_bind, run_reckonTurn, and_iff_right (exact_reckonTurn narrow),
    exact_sum_bind, and_iff_left turned]
  obtain ⟨lower, upper⟩ := amountHolds
  unfold Position.Holds Position.min
  obtain ⟨empty, same⟩ | ⟨notNegative, below⟩ := value.turn_cases amount narrow
  · omega
  · omega

end Value

namespace Pins

variable {pins : Pins} {start stop : Int}

theorem exact_reckonBetween (narrow : pins.width < 2 ^ 63) :
    (pins.reckonBetween start stop).Exact :=
  exact_bind.mpr ⟨Picked.exact_reckonBetween narrow, exact_pure⟩

theorem exact_reckonPlace (narrow : pins.width < 2 ^ 63) {place : Int} (lower : -2 ^ 63 ≤ place)
    (upper : place < pins.width) : (pins.reckonPlace place).Exact :=
  exact_sum_bind.mpr ⟨⟨by omega, by omega⟩, exact_reckonBetween narrow⟩

theorem exact_reckonPlaces (narrow : pins.width < 2 ^ 63) {places : List Int}
    (inside : ∀ place ∈ places, 0 ≤ place ∧ place < pins.width) :
    (pins.reckonPlaces places).Exact := by
  induction places with
  | nil => exact exact_pure
  | cons place rest ih =>
      obtain ⟨lower, upper⟩ := inside place List.mem_cons_self
      rw [reckonPlaces, exact_bind]
      refine ⟨exact_reckonPlace narrow (by omega) upper, ?_⟩
      cases (pins.reckonPlace place).run Position.wrap with
      | error fault => exact exact_pure
      | ok part =>
          exact exact_bind.mpr
            ⟨ih fun later listed => inside later (List.mem_cons_of_mem _ listed), exact_pure⟩

theorem exact_reckonIndex {index : Index} (narrow : pins.width < 2 ^ 63) (inWord : index.InWord) :
    (pins.reckonIndex index).Exact ↔ ¬ index.Overruns pins.width := by
  cases index with
  | value index => exact iff_of_true exact_pure nofun
  | bit position =>
      refine iff_of_true ?_ nofun
      rw [reckonIndex, exact_bind, Picked.run_reckonBit]
      refine ⟨Picked.exact_reckonBit narrow, ?_⟩
      cases found : Picked.bit .pins pins.width position with
      | error fault => exact exact_pure
      | ok start =>
          have inside := Picked.bit_lt narrow found
          exact exact_reckonPlace narrow (by omega) (by omega)
  | range start stop step =>
      rw [reckonIndex, exact_bind, Picked.exact_reckonStepped narrow inWord]
      refine and_iff_left_of_imp fun stays => ?_
      have exact : (Picked.reckonStepped .pins pins.width start stop step).Exact :=
        (Picked.exact_reckonStepped narrow inWord).mpr stays
      rw [Picked.run_reckonStepped exact]
      cases found : Picked.stepped .pins pins.width start stop step with
      | error fault => exact exact_pure
      | ok chosen =>
          rcases Picked.stepped_cases found with
            ⟨low, high, rfl, _⟩ | ⟨places, rfl, _, notOne, walked⟩
          · exact exact_pure
          · rw [Position.ofWidth_eq narrow] at walked
            have visits (place : Int) (listed : place ∈ places) :
                (Index.range start stop step).Visits pins.width place :=
              ⟨notOne, _, places, walked, listed⟩
            exact exact_bind.mpr ⟨exact_reckonPlaces narrow fun place listed =>
              (visits place listed).inside narrow inWord, exact_pure⟩

end Pins

/-! ## What is exact -/

namespace Value

variable {value : Value} {amount : Int}

theorem rotateLeft_eq_overflow_iff (narrow : value.width < 2 ^ 63)
    (amountHolds : Position.Holds amount) :
    value.rotateLeft amount = .error .overflow ↔ value.width = 0 ∧ amount = Position.min := by
  constructor
  · intro overflow
    by_contra other
    have exact := (exact_reckonRotateLeft narrow amountHolds).mpr other
    rw [rotateLeft_of_exact exact] at overflow
    cases overflow
  · rintro ⟨empty, rfl⟩
    have turn : value.turn Position.min = Position.min := by
      rw [Value.turn, empty]
      rfl
    rw [rotateLeft, turn]
    rfl

end Value

/-- Every sum, difference and opposite that a selection takes is a position, so that the selection
is the one of exact arithmetic, and whatever a walk comes to is a place inside the width.  The
exceptions are the stepped ranges whose walk passes the largest position and the rotation to the
left of no bits by the least position: these overflow. -/
theorem Reckoning.selections_yield {value : Value} {pins : Pins} (narrow : value.width < 2 ^ 63)
    (fewPins : pins.width < 2 ^ 63) :
    (∀ bound : Bound, bound.InWord →
      bound.reckonStart.Yields bound.start? ∧ bound.reckonStop.Yields bound.stop?) ∧
    (∀ start stop : Int, (value.reckonBetween start stop).Yields (value.between start stop) ∧
      (pins.reckonBetween start stop).Yields (pins.between start stop)) ∧
    (∀ start stop : Option Int, (∀ position ∈ start, Position.Holds position) →
      (∀ position ∈ stop, Position.Holds position) →
      (value.reckonClamped start stop).Yields (value.clamped start stop)) ∧
    (∀ amount : Int, Position.Holds amount →
      (value.reckonShiftLeft amount).Yields (value.shiftLeft amount) ∧
      (value.reckonShiftRight amount).Yields (value.shiftRight amount) ∧
      (value.reckonRotateRight amount).Yields (value.rotateRight amount) ∧
      ((∃ turned, value.rotateLeft amount = .ok turned ∧
        (value.reckonRotateLeft amount).Yields turned) ↔
        ¬ (value.width = 0 ∧ amount = Position.min)) ∧
      (value.rotateLeft amount = .error .overflow ↔
        value.width = 0 ∧ amount = Position.min)) ∧
    ∀ index : Index, index.InWord →
      ((value.reckonIndex index).Yields (value.index index) ↔ ¬ index.Overruns value.width) ∧
      ((pins.reckonIndex index).Yields (pins.index index) ↔ ¬ index.Overruns pins.width) ∧
      (value.index index = .error .overflow ↔ index.Overruns value.width) ∧
      (pins.index index = .error .overflow ↔ index.Overruns pins.width) ∧
      (∀ place, index.Visits value.width place → 0 ≤ place ∧ place < value.width) ∧
      ∀ place, index.Visits pins.width place → 0 ≤ place ∧ place < pins.width := by
  refine ⟨?bounds, ?between, ?clamped, ?amounts, ?indices⟩
  case bounds =>
    intro bound inWord
    exact ⟨⟨Bound.run_reckonStart inWord, Bound.exact_reckonStart inWord⟩,
      Bound.run_reckonStop inWord, Bound.exact_reckonStop inWord⟩
  case between =>
    intro start stop
    exact ⟨⟨Value.run_reckonBetween, Value.exact_reckonBetween narrow⟩,
      Pins.run_reckonBetween, Pins.exact_reckonBetween fewPins⟩
  case clamped =>
    intro start stop startHolds stopHolds
    exact ⟨Value.run_reckonClamped, Value.exact_reckonClamped narrow startHolds stopHolds⟩
  case amounts =>
    intro amount holds
    refine ⟨⟨Value.run_reckonShiftLeft holds, Value.exact_reckonShiftLeft narrow holds⟩,
      ⟨Value.run_reckonShiftRight holds, Value.exact_reckonShiftRight narrow holds⟩,
      ⟨Value.run_reckonRotateRight, Value.exact_reckonRotateRight narrow holds⟩, ?_,
      Value.rotateLeft_eq_overflow_iff narrow holds⟩
    rw [← Value.exact_reckonRotateLeft narrow holds]
    constructor
    · exact fun ⟨_, _, _, exact⟩ => exact
    · exact fun exact => ⟨_, Value.rotateLeft_of_exact exact, rfl, exact⟩
  case indices =>
    intro index inWord
    refine ⟨?_, ?_, Picked.value_index_eq_overflow_iff narrow inWord,
      Picked.pins_index_eq_overflow_iff fewPins inWord,
      fun _ visits => visits.inside narrow inWord, fun _ visits => visits.inside fewPins inWord⟩
    · rw [← Value.exact_reckonIndex narrow inWord]
      exact ⟨fun yields => yields.2, fun exact => ⟨Value.run_reckonIndex exact, exact⟩⟩
    · rw [← Pins.exact_reckonIndex fewPins inWord]
      exact ⟨fun yields => yields.2, fun exact => ⟨Pins.run_reckonIndex exact, exact⟩⟩

/-- Four bits rotated by the least position, and every second pin from the last one on. -/
theorem Reckoning.selections_yield_nibble :
    Value.nibble.width < 2 ^ 63 ∧ Pins.fourPins.width < 2 ^ 63 ∧
      (∃ turned, Value.nibble.rotateLeft Position.min = .ok turned ∧
        (Value.nibble.reckonRotateLeft Position.min).Yields turned) ∧
      (Pins.fourPins.reckonIndex (.range (some (-1)) none (-2))).Yields
        (Pins.fourPins.index (.range (some (-1)) none (-2))) := by
  have narrow : Value.nibble.width < 2 ^ 63 := by decide
  have fewPins : Pins.fourPins.width < 2 ^ 63 := by decide
  have least : Position.Holds Position.min := by decide
  have inWord : (Index.range (some (-1)) none (-2)).InWord :=
    ⟨by simp [Position.Holds], by simp, by decide⟩
  obtain ⟨_, _, _, amounts, indices⟩ := Reckoning.selections_yield narrow fewPins
  refine ⟨narrow, fewPins, (amounts Position.min least).2.2.2.1.mpr (by decide),
    (indices _ inWord).2.1.mpr ?_⟩
  exact Picked.not_overruns_of_le_one fewPins inWord (by decide)

/-- From the second bit on, in steps that pass the largest position. -/
def Index.pastWord : Index := .range (some 1) none 9223372036854775807

/-- The next place after the second bit is one past the largest position, and so is the opposite of
the least one; both sums overflow. -/
theorem Reckoning.not_selections_exact :
    (¬ (∀ (value : Value) (index : Index), value.width < 2 ^ 63 → index.InWord →
        (value.reckonIndex index).Exact) ∧
      Value.nibble.index .pastWord = .error .overflow) ∧
    ¬ (∀ (value : Value) (amount : Int), value.width < 2 ^ 63 → Position.Holds amount →
        (value.reckonRotateLeft amount).Exact) ∧
      (Value.concat []).rotateLeft Position.min = .error .overflow := by
  have narrow : Value.nibble.width < 2 ^ 63 := by decide
  have inWord : Index.pastWord.InWord := by simp [Index.InWord, Index.pastWord, Position.Holds]
  have overruns : Index.pastWord.Overruns Value.nibble.width := ⟨0, by decide, by decide⟩
  have least : Position.Holds Position.min := by decide
  refine ⟨⟨fun every => ?_, (Picked.value_index_eq_overflow_iff narrow inWord).mpr overruns⟩,
    fun every => ?_, (Value.rotateLeft_eq_overflow_iff (by decide) least).mpr ⟨rfl, rfl⟩⟩
  · exact (Value.exact_reckonIndex narrow inWord).mp
      (every Value.nibble .pastWord narrow inWord) overruns
  · exact (Value.exact_reckonRotateLeft (by decide) least).mp
      (every (.concat []) Position.min (by decide) least) ⟨rfl, rfl⟩

end Gateware
