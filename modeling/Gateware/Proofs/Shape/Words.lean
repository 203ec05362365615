import Mathlib.Data.Set.Card
import Gateware.Proofs.Shape.Range

/-!
# Ranges in words

The numbers of a range are positions and its length is a width, but two positions may lie so far
apart that their distance is neither.  Distances and multiples of a step are therefore computed in
double words and cut back to a word.  Nothing is lost on the way: no distance and no multiple leaves
its double word, and no length and no element leaves its word, so that the computations in words
tell of a range what it holds, however far its numbers lie apart.
-/

set_option autoImplicit false

namespace Gateware

namespace DoubleWord

def wrap (x : Int) : Int := x.bmod (2 ^ 128)

def Holds (x : Int) : Prop := -2 ^ 127 ≤ x ∧ x < 2 ^ 127

theorem Holds.wrap_eq {x : Int} (holds : Holds x) : wrap x = x := by
  obtain ⟨lower, upper⟩ := holds
  unfold wrap
  rw [Int.bmod_def]
  omega

end DoubleWord

namespace Range

structure InWord (range : Range) : Prop where
  start : Position.Holds range.start
  stop : Position.Holds range.stop
  step : Position.Holds range.step

/-- A length, a list, two ends and a check say which integers a range holds, how many they are and
in which order the step leads to them. -/
structure Tells (range : Range) (length : Nat) (elements : List Int) (first? last? : Option Int)
    (contains : Int → Bool) : Prop where
  counts : {value | value ∈ range}.encard = length
  lists (value : Int) : value ∈ elements ↔ value ∈ range
  ordered : elements.Pairwise fun earlier later => Picked.Ahead later range.step earlier
  begins : first? = elements.head?
  ends : last? = elements.getLast?
  checks (value : Int) : contains value = true ↔ value ∈ range

namespace Words

variable (range : Range)

/-- The number of steps that lead less far than a distance, counted in double words. -/
def steps (distance step : Int) : Int :=
  let farthest := DoubleWord.wrap (distance - 1)
  DoubleWord.wrap (DoubleWord.wrap (farthest.tdiv step) + 1)

def length : Nat :=
  Position.toWidth <|
    if 0 < range.step ∧ range.start < range.stop then
      steps (DoubleWord.wrap (range.stop - range.start)) range.step
    else if range.step < 0 ∧ range.stop < range.start then
      steps (DoubleWord.wrap (range.start - range.stop)) (DoubleWord.wrap (-range.step))
    else 0

def element (index : Nat) : Int :=
  let distance := DoubleWord.wrap (index * range.step)
  Position.wrap (DoubleWord.wrap (range.start + distance))

def elements : List Int := (List.range (length range)).map (element range)

def first? : Option Int := if length range = 0 then none else some range.start

def last? : Option Int :=
  if 0 < length range then some (element range (length range - 1)) else none

/-- An integer that is no position is no element; the remainder of the others is truncated. -/
def contains (value : Int) : Bool :=
  match first? range, last? range with
  | some first, some last =>
      let (low, high) := if 0 < range.step then (first, last) else (last, first)
      decide (Position.Holds value) && low ≤ value && value ≤ high &&
        (DoubleWord.wrap (value - range.start)).tmod range.step == 0
  | _, _ => false

end Words

variable {range : Range} {index : Nat} {value : Int}

/-! ## Elements in their order -/

theorem mem_elements_iff : value ∈ range.elements ↔ value ∈ range := by
  simp only [elements, List.mem_map, List.mem_range, mem_iff_exists_index, eq_comm]

theorem pairwise_elements (nonzero : range.step ≠ 0) :
    range.elements.Pairwise fun earlier later => Picked.Ahead later range.step earlier := by
  rw [elements, List.pairwise_map]
  refine List.pairwise_lt_range.imp fun {fewer more} less => ?_
  have further : (fewer : Int) < more := by omega
  unfold Picked.Ahead element
  rcases Int.lt_or_gt_of_ne nonzero with down | up
  · have beyond := Int.mul_lt_mul_of_neg_right further down
    omega
  · have beyond := Int.mul_lt_mul_of_pos_right further up
    omega

theorem encard_mem (nonzero : range.step ≠ 0) :
    {value | value ∈ range}.encard = range.length := by
  have distinct : range.elements.Nodup := (pairwise_elements nonzero).imp fun ahead same => by
    subst same
    simp [Picked.Ahead] at ahead
  have listed : {value | value ∈ range} = (range.elements.toFinset : Set Int) := by
    ext value
    simp [mem_elements_iff]
  rw [listed, Set.encard_coe_eq_coe_finsetCard, List.toFinset_card_of_nodup distinct, elements,
    List.length_map, List.length_range]

theorem tells (nonzero : range.step ≠ 0) :
    range.Tells range.length range.elements range.first? range.last? range.contains where
  counts := encard_mem nonzero
  lists _ := mem_elements_iff
  ordered := pairwise_elements nonzero
  begins := by
    cases counted : range.length <;>
      simp [first?, isEmpty, elements, counted, List.range_succ_eq_map, element]
  ends := by
    cases counted : range.length <;>
      simp [last?, isEmpty, elements, counted, List.range_succ]
  checks _ := contains_iff_mem

/-! ## Computations in words -/

theorem InWord.holds_of_mem (inWord : range.InWord) (member : value ∈ range) :
    Position.Holds value := by
  obtain ⟨ahead, index, rfl⟩ := member
  obtain ⟨startLower, startUpper⟩ := inWord.start
  obtain ⟨stopLower, stopUpper⟩ := inWord.stop
  simp only [Picked.Ahead, element] at ahead ⊢
  unfold Position.Holds
  rcases ahead with ⟨up, before⟩ | ⟨down, before⟩
  · have further : (0 : Int) ≤ index * range.step := Int.mul_nonneg (by omega) (by omega)
    omega
  · have further : (index : Int) * range.step ≤ 0 :=
      Int.mul_nonpos_of_nonneg_of_nonpos (by omega) (by omega)
    omega

/-- A distance of positions has no more steps than its own size, and these are counted exactly. -/
theorem steps_spec (distance step : Int) (some : 0 < distance) (near : distance < 2 ^ 64)
    (forward : 0 < step) :
    Words.steps distance step = (distance - 1) / step + 1 ∧
      0 < Words.steps distance step ∧ Words.steps distance step < 2 ^ 64 := by
  have lower : 0 ≤ (distance - 1) / step := Int.ediv_nonneg (by omega) (by omega)
  have upper : (distance - 1) / step ≤ distance - 1 := Int.ediv_le_self _ (by omega)
  have counted : Words.steps distance step = (distance - 1) / step + 1 := by
    unfold Words.steps
    dsimp only
    rw [DoubleWord.Holds.wrap_eq (x := distance - 1) ⟨by omega, by omega⟩,
      Int.tdiv_eq_ediv_of_nonneg (by omega),
      DoubleWord.Holds.wrap_eq (x := (distance - 1) / step) ⟨by omega, by omega⟩,
      DoubleWord.Holds.wrap_eq ⟨by omega, by omega⟩]
  exact ⟨counted, by omega, by omega⟩

theorem InWord.length_eq (inWord : range.InWord) : Words.length range = range.length := by
  obtain ⟨startLower, startUpper⟩ := inWord.start
  obtain ⟨stopLower, stopUpper⟩ := inWord.stop
  obtain ⟨stepLower, stepUpper⟩ := inWord.step
  unfold Words.length length
  split
  · rename_i ahead
    obtain ⟨counted, lower, upper⟩ := steps_spec (range.stop - range.start) range.step
      (by omega) (by omega) ahead.1
    rw [DoubleWord.Holds.wrap_eq (x := range.stop - range.start) ⟨by omega, by omega⟩,
      Position.toWidth_eq (by omega) upper, counted]
  · split
    · rename_i ahead
      obtain ⟨counted, lower, upper⟩ := steps_spec (range.start - range.stop) (-range.step)
        (by omega) (by omega) (by omega)
      rw [DoubleWord.Holds.wrap_eq (x := range.start - range.stop) ⟨by omega, by omega⟩,
        DoubleWord.Holds.wrap_eq (x := -range.step) ⟨by omega, by omega⟩,
        Position.toWidth_eq (by omega) upper, counted]
    · rfl

theorem InWord.element_eq (inWord : range.InWord) (counted : index < range.length) :
    Words.element range index = range.element index := by
  have holds : Position.Holds (range.element index) :=
    inWord.holds_of_mem (mem_iff_exists_index.mpr ⟨index, counted, rfl⟩)
  obtain ⟨lower, upper⟩ := holds
  obtain ⟨startLower, startUpper⟩ := inWord.start
  unfold element at lower upper
  unfold Words.element element
  dsimp only
  rw [DoubleWord.Holds.wrap_eq (x := index * range.step) ⟨by omega, by omega⟩,
    DoubleWord.Holds.wrap_eq ⟨by omega, by omega⟩, Position.Holds.wrap_eq ⟨lower, upper⟩]

theorem InWord.elements_eq (inWord : range.InWord) : Words.elements range = range.elements := by
  rw [Words.elements, inWord.length_eq]
  exact List.map_congr_left fun index listed => inWord.element_eq (List.mem_range.mp listed)

theorem InWord.first?_eq (inWord : range.InWord) : Words.first? range = range.first? := by
  simp [Words.first?, first?, isEmpty, inWord.length_eq]

theorem InWord.last?_eq (inWord : range.InWord) : Words.last? range = range.last? := by
  rcases Nat.eq_zero_or_pos range.length with none | some
  · simp [Words.last?, last?, isEmpty, inWord.length_eq, none]
  · rw [(ends_of_pos some).2, Words.last?, inWord.length_eq, if_pos some,
      inWord.element_eq (Nat.sub_lt some Nat.one_pos)]

theorem tmod_beq_zero (distance step : Int) :
    (distance.tmod step == 0) = (distance % step == 0) := by
  rw [Bool.eq_iff_iff, beq_iff_eq, beq_iff_eq, ← Int.dvd_iff_tmod_eq_zero,
    ← Int.dvd_iff_emod_eq_zero]

theorem InWord.contains_eq (inWord : range.InWord) :
    Words.contains range value = range.contains value := by
  by_cases holds : Position.Holds value
  · obtain ⟨lower, upper⟩ := holds
    obtain ⟨startLower, startUpper⟩ := inWord.start
    have near : DoubleWord.Holds (value - range.start) := ⟨by omega, by omega⟩
    unfold Words.contains contains
    rw [inWord.first?_eq, inWord.last?_eq, near.wrap_eq, tmod_beq_zero,
      decide_eq_true (p := Position.Holds value) ⟨lower, upper⟩]
    cases range.first? with
    | none => rfl
    | some first =>
        cases range.last? with
        | none => rfl
        | some last => by_cases up : 0 < range.step <;> simp [up]
  · have outside : range.contains value = false := by
      rw [Bool.eq_false_iff]
      exact fun inside => holds (inWord.holds_of_mem (contains_iff_mem.mp inside))
    rw [outside, Words.contains, decide_eq_false holds]
    simp only [Bool.false_and]
    split <;> rfl

/-- A range of positions with a step that is not zero is made, and the computations in words tell
what it holds: as many integers as its length, in the order of its elements, between its ends, and
none but those that it contains. -/
theorem told_in_words (inWord : range.InWord) (nonzero : range.step ≠ 0) :
    stepped range.start range.stop range.step = .ok range ∧
      range.Tells (Words.length range) (Words.elements range) (Words.first? range)
        (Words.last? range) (Words.contains range) ∧
      Words.length range = range.length ∧ Words.elements range = range.elements ∧
      Words.first? range = range.first? ∧ Words.last? range = range.last? ∧
      Words.contains range = range.contains := by
  have sameCheck : Words.contains range = range.contains := funext fun _ => inWord.contains_eq
  refine ⟨by rw [stepped, if_neg nonzero], ?_, inWord.length_eq, inWord.elements_eq,
    inWord.first?_eq, inWord.last?_eq, sameCheck⟩
  rw [inWord.length_eq, inWord.elements_eq, inWord.first?_eq, inWord.last?_eq, sameCheck]
  exact tells nonzero

/-- All positions but the largest one, and two of them that lie as far apart as the least step. -/
theorem told_in_words_widest :
    (⟨-2 ^ 63, 2 ^ 63 - 1, 1⟩ : Range).InWord ∧ (⟨2 ^ 63 - 1, -2 ^ 63, -2 ^ 63⟩ : Range).InWord ∧
      {value | value ∈ (⟨-2 ^ 63, 2 ^ 63 - 1, 1⟩ : Range)}.encard = (2 ^ 64 - 1 : Nat) ∧
      Words.last? ⟨-2 ^ 63, 2 ^ 63 - 1, 1⟩ = some (2 ^ 63 - 2) ∧
      {value | value ∈ (⟨2 ^ 63 - 1, -2 ^ 63, -2 ^ 63⟩ : Range)}.encard = (2 : Nat) ∧
      -1 ∈ (⟨2 ^ 63 - 1, -2 ^ 63, -2 ^ 63⟩ : Range) := by
  have up : (⟨-2 ^ 63, 2 ^ 63 - 1, 1⟩ : Range).InWord := ⟨by decide, by decide, by decide⟩
  have down : (⟨2 ^ 63 - 1, -2 ^ 63, -2 ^ 63⟩ : Range).InWord := ⟨by decide, by decide, by decide⟩
  obtain ⟨-, all, -⟩ := told_in_words up (by decide)
  obtain ⟨-, both, -⟩ := told_in_words down (by decide)
  exact ⟨up, down, all.counts, by decide, both.counts, (both.checks (-1)).mp (by decide)⟩

end Range

end Gateware
