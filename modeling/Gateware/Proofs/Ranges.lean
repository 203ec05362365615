import Gateware.Proofs.Reckoning.Exact

/-!
# Ranges of bounds

A range is written with a bound at each end, included, excluded or missing, and what it selects is
told by comparing places with these bounds.  Runs are cut between two half-open ends instead, and
an excluded bound becomes such an end by counting one on before its place is known.  This selects
what was written, but for a start that excludes the last place: its next position is the first one.
-/

set_option autoImplicit false

namespace Gateware

namespace Bound

/-- Whether a place comes after a start among so many bits. -/
def AdmitsFrom (width : Nat) (place : Nat) : Bound → Prop
  | .unbounded => True
  | .included position => Picked.counted width position ≤ place
  | .excluded position => Picked.counted width position < place

/-- Whether a place comes before a stop among so many bits. -/
def AdmitsTo (width : Nat) (place : Nat) : Bound → Prop
  | .unbounded => True
  | .included position => place ≤ Picked.counted width position
  | .excluded position => place < Picked.counted width position

/-- The places of a run are those among so many bits that both bounds admit. -/
def Select (start stop : Bound) (width low high : Nat) : Prop :=
  ∀ place : Nat, low ≤ place ∧ place < high ↔
    place < width ∧ start.AdmitsFrom width place ∧ stop.AdmitsTo width place

variable {bound start stop : Bound} {width low high place : Nat}

theorem InWord.start_holds (inWord : bound.InWord) :
    ∀ position ∈ bound.start?, Position.Holds position := by
  intro position given
  cases bound with
  | unbounded => cases given
  | included included =>
      cases given
      exact inWord
  | excluded excluded =>
      cases given
      exact Position.holds_saturate _

theorem InWord.stop_holds (inWord : bound.InWord) :
    ∀ position ∈ bound.stop?, Position.Holds position := by
  intro position given
  cases bound with
  | unbounded => cases given
  | excluded excluded =>
      cases given
      exact inWord
  | included included =>
      obtain ⟨lower, upper⟩ : Position.Holds included := inWord
      simp only [stop?, Bool.or_eq_true, decide_eq_true_eq] at given
      split at given
      · cases given
      · rename_i notEnd
        cases given
        unfold Position.max at notEnd
        exact ⟨by omega, by omega⟩

theorem admitsFrom_iff (narrow : width < 2 ^ 63) (inWord : start.InWord)
    (notLast : start ≠ .excluded (-1)) (inside : place < width) (other : Option Int) :
    start.AdmitsFrom width place ↔ (Picked.reach width start.start? other 1).1 ≤ place := by
  cases start with
  | unbounded => exact iff_of_true trivial (Int.natCast_nonneg place)
  | included position =>
      change Picked.counted width position ≤ place ↔
        max 0 (min (Picked.counted width position) (width : Int)) ≤ place
      omega
  | excluded position =>
      -- The next position is counted from the same end, unless the position is the last one.
      change Picked.counted width position < place ↔
        max 0 (min (Picked.counted width (Position.saturate (position + 1))) (width : Int)) ≤ place
      obtain ⟨lower, upper⟩ : Position.Holds position := inWord
      have stays : position ≠ -1 := fun last => notLast (last ▸ rfl)
      unfold Picked.counted Position.saturate Position.min Position.max
      omega

theorem admitsTo_iff (narrow : width < 2 ^ 63) (inside : place < width) (other : Option Int) :
    stop.AdmitsTo width place ↔ place < (Picked.reach width other stop.stop? 1).2 := by
  cases stop with
  | unbounded => exact iff_of_true trivial (Int.ofNat_lt.mpr inside)
  | excluded position =>
      change place < Picked.counted width position ↔
        place < max 0 (min (Picked.counted width position) (width : Int))
      omega
  | included position =>
      by_cases last : position = -1 ∨ position = Position.max
      · have missing : (Bound.included position).stop? = none := by
          simp [stop?, last]
        rw [missing]
        change place ≤ Picked.counted width position ↔ place < (width : Int)
        unfold Picked.counted
        unfold Position.max at last
        omega
      · have next : (Bound.included position).stop? = some (position + 1) := by
          simp [stop?, last]
        rw [next]
        change place ≤ Picked.counted width position ↔
          place < max 0 (min (Picked.counted width (position + 1)) (width : Int))
        unfold Picked.counted
        omega

/-- A start that excludes the last place admits none, and its half-open range begins at zero. -/
theorem not_admitsFrom_last (inside : place < width) :
    ¬ (Bound.excluded (-1)).AdmitsFrom width place := by
  change ¬ Picked.counted width (-1) < place
  unfold Picked.counted
  omega

end Bound

namespace Picked

variable {start stop : Bound} {width low high : Nat} {target : Fault.Target}

theorem stepped_bounds {chosen : Picked} (narrow : width < 2 ^ 63) (startInWord : start.InWord)
    (stopInWord : stop.InWord)
    (found : stepped target width start.start? stop.stop? 1 = .ok chosen) :
    ∃ low high : Nat, chosen = .run low high ∧
      (reach width start.start? stop.stop? 1).1 = low ∧
      (reach width start.start? stop.stop? 1).2 = high := by
  rw [stepped_one, Position.ofWidth_eq narrow,
    ends_eq_reach narrow startInWord.start_holds stopInWord.stop_holds] at found
  obtain ⟨⟨low, high⟩, places, rfl⟩ := map_eq_ok.mp found
  obtain ⟨_, first, last, _⟩ := between_eq_ok narrow places
  obtain ⟨firstGe, _, lastGe, _⟩ := reach_up width start.start? stop.stop? Int.one_nonneg
  exact ⟨low, high, rfl, by rwa [counted, if_neg (by omega)] at first,
    by rwa [counted, if_neg (by omega)] at last⟩

theorem select_iff (narrow : width < 2 ^ 63) (startInWord : start.InWord)
    (first : (reach width start.start? stop.stop? 1).1 = low)
    (last : (reach width start.start? stop.stop? 1).2 = high) :
    start.Select stop width low high ↔ ¬ (start = .excluded (-1) ∧ low < high) := by
  have highLe : high ≤ width := by
    have bounded := (reach_up width start.start? stop.stop? Int.one_nonneg).2.2.2
    omega
  by_cases exceptional : start = .excluded (-1)
  · subst exceptional
    rw [Bound.Select, and_iff_right rfl]
    constructor
    · intro selects picked
      obtain ⟨inside, admitted, _⟩ := (selects low).mp ⟨le_rfl, picked⟩
      exact Bound.not_admitsFrom_last inside admitted
    · intro nothing place
      refine iff_of_false (by omega) ?_
      exact fun ⟨inside, admitted, _⟩ => Bound.not_admitsFrom_last inside admitted
  · refine iff_of_true (fun place => ?_) fun both => exceptional both.1
    by_cases inside : place < width
    · rw [Bound.admitsFrom_iff narrow startInWord exceptional inside stop.stop?,
        Bound.admitsTo_iff narrow inside start.start?, first, last, Int.ofNat_le, Int.ofNat_lt,
        and_iff_right inside]
    · exact iff_of_false (by omega) fun both => inside both.1

end Picked

/-- What is picked between two bounds, of a value or of pins, is what they say, unless the start
excludes the last place and anything is picked at all. -/
theorem Index.ofBounds_selects {value : Value} {pins : Pins} {start stop : Bound}
    (narrow : value.width < 2 ^ 63) (fewPins : pins.width < 2 ^ 63) (startInWord : start.InWord)
    (stopInWord : stop.InWord) :
    (∀ picked, value.index (.ofBounds start stop 1) = .ok picked →
      ∃ low high, picked = .slice value low high ∧
        (start.Select stop value.width low high ↔ ¬ (start = .excluded (-1) ∧ low < high))) ∧
    ∀ picked, pins.index (.ofBounds start stop 1) = .ok picked →
      ∃ low high, picked = .slice pins low high ∧
        (start.Select stop pins.width low high ↔ ¬ (start = .excluded (-1) ∧ low < high)) := by
  constructor
  · intro picked found
    obtain ⟨chosen, run, rfl⟩ := map_eq_ok.mp found
    obtain ⟨low, high, rfl, first, last⟩ :=
      Picked.stepped_bounds narrow startInWord stopInWord run
    exact ⟨low, high, rfl, Picked.select_iff narrow startInWord first last⟩
  · intro picked found
    obtain ⟨chosen, run, made⟩ := bind_eq_ok.mp found
    obtain ⟨low, high, rfl, first, last⟩ :=
      Picked.stepped_bounds fewPins startInWord stopInWord run
    cases made
    exact ⟨low, high, rfl, Picked.select_iff fewPins startInWord first last⟩

/-- From past the second bit to the last one. -/
theorem Index.ofBounds_selects_nibble :
    Value.nibble.width < 2 ^ 63 ∧ Pins.fourPins.width < 2 ^ 63 ∧ (Bound.excluded 1).InWord ∧
      (Bound.included (-1)).InWord ∧
      Value.nibble.index (.ofBounds (.excluded 1) (.included (-1)) 1) =
        .ok (.slice Value.nibble 2 4) ∧
      (Bound.excluded 1).Select (.included (-1)) Value.nibble.width 2 4 := by
  have narrow : Value.nibble.width < 2 ^ 63 := by decide
  have fewPins : Pins.fourPins.width < 2 ^ 63 := by decide
  have startInWord : (Bound.excluded 1).InWord := by decide
  have stopInWord : (Bound.included (-1)).InWord := by decide
  have found : Value.nibble.index (.ofBounds (.excluded 1) (.included (-1)) 1) =
      .ok (.slice Value.nibble 2 4) := by
    rw [ofBounds, Value.index, Value.width_nibble]
    rfl
  obtain ⟨low, high, same, selects⟩ :=
    (Index.ofBounds_selects narrow fewPins startInWord stopInWord).1 _ found
  cases same
  exact ⟨narrow, fewPins, startInWord, stopInWord, found, selects.mpr (by decide)⟩

/-- From past the last bit on, all of them are picked. -/
theorem Index.not_ofBounds_selects_last :
    ¬ ∀ (value picked : Value) (start stop : Bound), value.width < 2 ^ 63 → start.InWord →
      stop.InWord → value.index (.ofBounds start stop 1) = .ok picked →
      ∃ low high, picked = .slice value low high ∧ start.Select stop value.width low high := by
  intro every
  have found : Value.nibble.index (.ofBounds (.excluded (-1)) .unbounded 1) =
      .ok (.slice Value.nibble 0 4) := by
    rw [ofBounds, Value.index, Value.width_nibble]
    rfl
  obtain ⟨low, high, same, selects⟩ :=
    every Value.nibble _ (.excluded (-1)) .unbounded (by decide) (by decide) trivial found
  cases same
  obtain ⟨inside, admitted, _⟩ := (selects 0).mp ⟨by decide, by decide⟩
  exact Bound.not_admitsFrom_last inside admitted

end Gateware
