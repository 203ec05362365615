import Mathlib.Data.Set.List
import Gateware.Proofs.Concur
import Gateware.Proofs.Pins
import Gateware.Proofs.Value.Constructors

/-!
# Bits and pins picked alike

The bits of a value and the pins of as many are picked by rules of their own: pins check each place
of a stepped range once more, bits are taken as they come.  Both come to the same places, inside
the width, or to faults of one kind.  Where a walk leaves the positions, both overflow.
-/

set_option autoImplicit false

namespace Gateware

namespace Picked

/-- The same places picked of a value and of pins: a run, or single places in an order.  Every
place lies inside the width. -/
inductive Alike (value : Value) (pins : Pins) : Value → Pins → Prop
  | run {start stop : Nat} (inside : Value.Inside value.width start stop) :
      Alike value pins (.slice value start stop) (.slice pins start stop)
  | bits {places : List Nat} (inside : ∀ place ∈ places, place < value.width) :
      Alike value pins (.concat (places.map fun place => .slice value place (place + 1)))
        (.concat (places.map fun place => .slice pins place (place + 1)))

variable {width : Nat} {position start stop step : Int} {target : Fault.Target}

/-! ## Checked places -/

theorem concur_bit (target other : Fault.Target) (width : Nat) (position : Int) :
    Concur Eq (bit target width position) (bit other width position) := by
  simp only [bit]
  split
  · exact .ok rfl
  · exact .fault rfl

theorem concur_between (target other : Fault.Target) (width : Nat) (start stop : Int) :
    Concur Eq (between target width start stop) (between other width start stop) := by
  simp only [between]
  split
  · exact .fault rfl
  · split
    · exact .fault rfl
    · exact concur_refl

/-! ## Single places -/

variable {value : Value} {pins : Pins}

theorem bitAt_of_inside (narrow : value.width < 2 ^ 63) {place : Int} (notNegative : 0 ≤ place)
    (inside : place < value.width) :
    value.bitAt place = .slice value place.toNat (place.toNat + 1) := by
  rw [Value.bitAt, Position.toWidth_eq notNegative (by omega)]

theorem between_of_inside {start stop : Nat} (narrow : width < 2 ^ 63)
    (inside : Value.Inside width start stop) :
    between target width start stop = .ok (start, stop) := by
  obtain ⟨ordered, upper⟩ := inside
  have placed (place : Nat) : Picked.place width place = place := if_neg (by omega)
  rw [between_eq_ite narrow, placed, placed, if_neg (by omega), if_neg (by omega),
    if_neg (by omega), Position.toWidth_natCast (by omega), Position.toWidth_natCast (by omega)]

theorem between_place (narrow : pins.width < 2 ^ 63) {place : Int} (notNegative : 0 ≤ place)
    (inside : place < pins.width) :
    pins.between place (Position.wrap (place + 1)) =
      .ok (.slice pins place.toNat (place.toNat + 1)) := by
  obtain ⟨place, rfl⟩ := Int.eq_ofNat_of_zero_le notNegative
  have onward : Position.wrap ((place : Int) + 1) = ((place + 1 : Nat) : Int) :=
    Position.Holds.wrap_eq ⟨by omega, by omega⟩
  rw [onward, Pins.between, between_of_inside narrow ⟨Nat.le_succ place, by omega⟩]
  rfl

theorem mapM_between_places (narrow : pins.width < 2 ^ 63) {places : List Int}
    (inside : ∀ place ∈ places, 0 ≤ place ∧ place < pins.width) :
    (places.mapM fun place => pins.between place (Position.wrap (place + 1))) =
      .ok (places.map fun place => .slice pins place.toNat (place.toNat + 1)) := by
  rw [mapM_eq_ok, List.forall₂_map_right_iff, List.forall₂_same]
  exact fun place listed => between_place narrow (inside place listed).1 (inside place listed).2

/-! ## Stepped ranges -/

section

variable {start stop : Option Int}

theorem range_selected :
    (Index.range start stop step).selected width =
      (terms (reach width start stop step).1 (reach width start stop step).2 step).map Int.toNat :=
  rfl

theorem value_index_bits (narrow : value.width < 2 ^ 63)
    (inWord : (Index.range start stop step).InWord) (notZero : step ≠ 0) (notOne : step ≠ 1)
    (keeps : ¬ (Index.range start stop step).Overruns value.width) :
    value.index (.range start stop step) =
      .ok (.concat (((Index.range start stop step).selected value.width).map fun place =>
        .slice value place (place + 1))) := by
  rw [Value.index, stepped_eq_bits narrow inWord notZero notOne keeps, range_selected,
    List.map_map]
  refine congrArg (Except.ok ∘ Value.concat) (List.map_congr_left fun place listed => ?_)
  obtain ⟨notNegative, inside⟩ := progression_inside value.width start stop listed
  exact bitAt_of_inside narrow notNegative inside

theorem pins_index_bits (narrow : pins.width < 2 ^ 63)
    (inWord : (Index.range start stop step).InWord) (notZero : step ≠ 0) (notOne : step ≠ 1)
    (keeps : ¬ (Index.range start stop step).Overruns pins.width) :
    pins.index (.range start stop step) =
      .ok (.concat (((Index.range start stop step).selected pins.width).map fun place =>
        .slice pins place (place + 1))) := by
  rw [Pins.index, stepped_eq_bits narrow inWord notZero notOne keeps, range_selected,
    List.map_map]
  refine map_eq_ok.mpr ⟨_, mapM_between_places narrow fun place listed => ?_, rfl⟩
  exact progression_inside pins.width start stop listed

theorem selected_inside {place : Nat}
    (listed : place ∈ (Index.range start stop step).selected width) : place < width := by
  obtain ⟨place, member, rfl⟩ := List.mem_map.mp listed
  have inside := progression_inside width start stop member
  omega

end

/-! ## Overflows -/

theorem value_index_eq_overflow_iff {index : Index} (narrow : value.width < 2 ^ 63)
    (inWord : index.InWord) :
    value.index index = .error .overflow ↔ index.Overruns value.width := by
  cases index with
  | bit position =>
      refine iff_of_false (fun overflow => ?_) id
      rw [Value.index, Value.bit, map_eq_error, bit_eq_ite narrow] at overflow
      split at overflow <;> cases overflow
  | range start stop step =>
      rw [Value.index, map_eq_error]
      exact stepped_eq_overflow_iff narrow inWord
  | value index =>
      refine iff_of_false (fun overflow => ?_) id
      cases overflow

theorem pins_index_eq_overflow_iff {index : Index} (narrow : pins.width < 2 ^ 63)
    (inWord : index.InWord) : pins.index index = .error .overflow ↔ index.Overruns pins.width := by
  cases index with
  | bit position =>
      refine iff_of_false (fun overflow => ?_) id
      cases found : bit .pins pins.width position with
      | error fault =>
          rw [Pins.index, found] at overflow
          cases overflow
          rw [bit_eq_ite narrow] at found
          split at found <;> cases found
      | ok start =>
          have inside := bit_lt narrow found
          have next : pins.between start (Position.wrap ((start : Int) + 1)) = .ok _ :=
            between_place narrow (Int.natCast_nonneg start) (by omega)
          have checked : pins.index (.bit position) = .ok _ := bind_eq_ok.mpr ⟨start, found, next⟩
          rw [checked] at overflow
          cases overflow
  | range start stop step =>
      constructor
      · intro overflow
        by_contra keeps
        by_cases zero : step = 0
        · rw [Pins.index, stepped, if_pos zero] at overflow
          cases overflow
        · by_cases one : step = 1
          · rw [Pins.index, one, stepped_one] at overflow
            cases found : between .pins pins.width
                (ends (Position.ofWidth pins.width) start stop 1).1
                (ends (Position.ofWidth pins.width) start stop 1).2 with
            | error fault =>
                rw [found] at overflow
                cases overflow
                exact between_ne_overflow narrow found
            | ok places =>
                rw [found] at overflow
                cases overflow
          · rw [pins_index_bits narrow inWord zero one keeps] at overflow
            cases overflow
      · intro overruns
        rw [Pins.index, (stepped_eq_overflow_iff narrow inWord).mpr overruns]
        rfl
  | value index =>
      refine iff_of_false (fun overflow => ?_) id
      cases overflow

/-! ## Both ways to pick -/

section

variable (same : pins.width = value.width) (narrow : value.width < 2 ^ 63)
include same narrow

theorem concur_pick_between :
    Concur (Alike value pins) (value.between start stop) (pins.between start stop) := by
  rw [Value.between, Pins.between, same]
  obtain ⟨⟨first, last⟩, run, mirrored⟩ | ⟨fault, mirrored, run, refused, kind⟩ :=
    concur_eq_iff.mp (concur_between .value .pins value.width start stop)
  · rw [run, mirrored]
    exact .ok (.run (between_ordered narrow run))
  · rw [run, refused]
    exact .fault kind

theorem concur_pick_bit :
    Concur (Alike value pins) (value.index (.bit position)) (pins.index (.bit position)) := by
  obtain ⟨place, run, mirrored⟩ | ⟨fault, mirrored, run, refused, kind⟩ :=
    concur_eq_iff.mp (concur_bit .value .pins value.width position)
  · have inside := bit_lt narrow run
    have bits : value.index (.bit position) = .ok (.slice value place (place + 1)) :=
      map_eq_ok.mpr ⟨place, run, rfl⟩
    have checked : pins.index (.bit position) = .ok (.slice pins place (place + 1)) :=
      bind_eq_ok.mpr ⟨place, same ▸ mirrored, between_place (by omega) (by omega) (by omega)⟩
    rw [bits, checked]
    exact .ok (.run ⟨Nat.le_succ place, inside⟩)
  · rw [Value.index, Value.bit, Pins.index, same, run, refused]
    exact .fault kind

theorem concur_pick_range {start stop : Option Int}
    (inWord : (Index.range start stop step).InWord) :
    Concur (Alike value pins) (value.index (.range start stop step))
      (pins.index (.range start stop step)) := by
  by_cases overruns : (Index.range start stop step).Overruns value.width
  · rw [Value.index, Pins.index, same, (stepped_eq_overflow_iff narrow inWord).mpr overruns,
      (stepped_eq_overflow_iff narrow inWord).mpr overruns]
    exact .fault rfl
  by_cases zero : step = 0
  · subst zero
    exact .fault rfl
  by_cases one : step = 1
  · subst one
    rw [Value.index, Pins.index, same, stepped_one, stepped_one]
    obtain ⟨⟨first, last⟩, run, mirrored⟩ | ⟨fault, mirrored, run, refused, kind⟩ :=
      concur_eq_iff.mp (concur_between .value .pins value.width
        (ends (Position.ofWidth value.width) start stop 1).1
        (ends (Position.ofWidth value.width) start stop 1).2)
    · rw [run, mirrored]
      exact .ok (.run (between_ordered narrow run))
    · rw [run, refused]
      exact .fault kind
  · rw [value_index_bits narrow inWord zero one overruns,
      pins_index_bits (same ▸ narrow) inWord zero one (same ▸ overruns), same]
    exact .ok (.bits fun place listed => selected_inside listed)

theorem concur_pick_index {index : Index} (inWord : index.InWord) :
    Concur (Alike value pins) (value.index index) (pins.index index) := by
  cases index with
  | bit position => exact concur_pick_bit same narrow
  | range start stop step => exact concur_pick_range same narrow inWord
  | value index => exact .fault rfl

end

/-- Of a value and of as many pins, two bounds pick the same places, and so does every index.  What
the one refuses the other refuses too, and where the one overflows so does the other. -/
theorem picks_alike {value : Value} {pins : Pins} (same : pins.width = value.width)
    (narrow : value.width < 2 ^ 63) :
    (∀ start stop : Int,
      Concur (Alike value pins) (value.between start stop) (pins.between start stop)) ∧
    ∀ index : Index, index.InWord →
      Concur (Alike value pins) (value.index index) (pins.index index) ∧
      (value.index index = .error .overflow ↔ index.Overruns value.width) ∧
      (pins.index index = .error .overflow ↔ index.Overruns value.width) := by
  refine ⟨fun start stop => concur_pick_between same narrow, fun index inWord => ?_⟩
  refine ⟨concur_pick_index same narrow inWord, value_index_eq_overflow_iff narrow inWord, ?_⟩
  rw [← same]
  exact pins_index_eq_overflow_iff (same ▸ narrow) inWord

/-- Every second place, from the last one on. -/
theorem picks_alike_fourPins :
    Pins.fourPins.width = Value.nibble.width ∧
      Concur (Alike Value.nibble Pins.fourPins) (Value.nibble.index (.range (some (-1)) none (-2)))
        (Pins.fourPins.index (.range (some (-1)) none (-2))) := by
  have inWord : (Index.range (some (-1)) none (-2)).InWord :=
    ⟨by simp [Position.Holds], by simp, by decide⟩
  exact ⟨rfl, ((picks_alike rfl (by decide)).2 _ inWord).1⟩

end Picked

end Gateware
