import Gateware.Proofs.Selected
import Gateware.Proofs.Value.WellFormed

/-!
# Selections of well-formed values

Selections by position, by bounds, by constants and by stepped ranges stay inside the
value.
-/

set_option autoImplicit false

namespace Gateware.Value

variable {value picked : Value}

theorem index_cases {index : Index} (found : value.index index = .ok picked) :
    (∃ start stop, picked = .slice value start stop) ∨
      ∃ places : List Int, picked = .concat (places.map value.bitAt) := by
  cases index with
  | bit position =>
      obtain ⟨start, _, rfl⟩ := map_eq_ok.mp found
      exact Or.inl ⟨_, _, rfl⟩
  | value index => cases found
  | range start stop step =>
      obtain ⟨chosen, _, rfl⟩ := map_eq_ok.mp found
      cases chosen with
      | run start stop => exact Or.inl ⟨start, stop, rfl⟩
      | bits places => exact Or.inr ⟨places, rfl⟩

theorem clamped_from {position : Int} (room : value.width < 2 ^ 63)
    (notNegative : 0 ≤ position) (inside : position ≤ value.width) :
    value.clamped (some position) none = .slice value position.toNat value.width := by
  have first : Picked.clamp value.width 0 value.width position = position := by
    rw [Picked.clamp_of_nonneg notNegative, min_eq_left inside]
  have last : max (value.width : Int) position = value.width := by omega
  have stop : Position.toWidth (value.width : Int) = value.width := by
    rw [Position.toWidth_eq (by omega) (by omega)]
    omega
  simp only [clamped, Position.ofWidth_eq room, Option.map_some, Option.map_none,
    Option.getD_some, Option.getD_none, first, last, stop]
  rw [Position.toWidth_eq notNegative (by omega)]

/-! ## What selections keep -/

theorem wellFormed_bit {position : Int} (room : value.width < 2 ^ 63)
    (wellFormed : value.WellFormed) (found : value.bit position = .ok picked) :
    picked.WellFormed := by
  obtain ⟨start, place, rfl⟩ := map_eq_ok.mp found
  exact wellFormed_slice.mpr ⟨⟨Nat.le_succ start, Picked.bit_lt room place⟩, wellFormed⟩

theorem wellFormed_between {start stop : Int} (room : value.width < 2 ^ 63)
    (wellFormed : value.WellFormed) (found : value.between start stop = .ok picked) :
    picked.WellFormed := by
  obtain ⟨⟨first, last⟩, places, rfl⟩ := map_eq_ok.mp found
  exact wellFormed_slice.mpr ⟨Picked.between_ordered room places, wellFormed⟩

theorem wellFormed_bitAt {place : Int} (wellFormed : value.WellFormed) (lower : 0 ≤ place)
    (upper : place < value.width) (room : value.width < 2 ^ 63) :
    (value.bitAt place).WellFormed := by
  refine wellFormed_slice.mpr ⟨⟨Nat.le_succ _, ?_⟩, wellFormed⟩
  rw [Position.toWidth_eq lower (by omega)]
  omega

theorem wellFormed_index {index : Index} (room : value.width < 2 ^ 63)
    (wellFormed : value.WellFormed) (inWord : index.InWord)
    (found : value.index index = .ok picked) : picked.WellFormed := by
  cases index with
  | bit position => exact wellFormed_bit room wellFormed found
  | value index => cases found
  | range start stop step =>
      obtain ⟨chosen, run, rfl⟩ := map_eq_ok.mp found
      rcases Picked.stepped_cases run with
        ⟨low, high, rfl, _, places⟩ | ⟨places, rfl, _, notOne, walked⟩
      · exact wellFormed_slice.mpr ⟨Picked.between_ordered room places, wellFormed⟩
      · rw [Position.ofWidth_eq room] at walked
        apply wellFormed_concat.mpr
        intro part listed
        obtain ⟨place, member, rfl⟩ := List.mem_map.mp listed
        have visits : (Index.range start stop step).Visits value.width place :=
          ⟨notOne, _, places, walked, member⟩
        obtain ⟨lower, upper⟩ := visits.inside room inWord
        exact wellFormed_bitAt wellFormed lower upper room

theorem wellFormed_clamped {start stop : Option Int} (room : value.width < 2 ^ 63)
    (startHolds : ∀ position ∈ start, Position.Holds position)
    (stopHolds : ∀ position ∈ stop, Position.Holds position) (wellFormed : value.WellFormed) :
    (value.clamped start stop).WellFormed := by
  have held (bound : Option Int) (holds : ∀ position ∈ bound, Position.Holds position)
      (missing : Int) (lower : 0 ≤ missing) (upper : missing ≤ value.width) :
      0 ≤ (bound.map (Picked.clamp value.width 0 value.width)).getD missing ∧
        (bound.map (Picked.clamp value.width 0 value.width)).getD missing ≤ value.width := by
    cases bound with
    | none => exact ⟨lower, upper⟩
    | some position =>
        exact Picked.clamp_between room (holds position rfl) (by omega) (by omega) (by omega)
  have first := held start startHolds 0 (by omega) (by omega)
  have last := held stop stopHolds value.width (by omega) (by omega)
  unfold clamped
  simp only [Position.ofWidth_eq room]
  apply wellFormed_slice.mpr
  rw [Position.toWidth_eq first.1 (by omega), Position.toWidth_eq (by omega) (by omega)]
  exact ⟨⟨by omega, by omega⟩, wellFormed⟩

end Gateware.Value
