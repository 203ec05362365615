import Mathlib.Data.Int.ModEq
import Mathlib.Data.List.Rotate
import Gateware.Proofs.Reckoning.Exact
import Gateware.Proofs.Value.Meaning

/-!
# Rotations

A rotation by a constant turns the list of the bits of a value.  Turning by a sum is turning
twice, so rotations of a value by constants are an action of the integers modulo its width.  A
rotation to the left overflows only where there are no bits to turn.
-/

set_option autoImplicit false

namespace Gateware

namespace Binary

variable {bits : List Bool} {left right : Int}

/-- The bits from an amount on, followed by those below it; amounts count around the list. -/
def turn (bits : List Bool) (amount : Int) : List Bool :=
  bits.rotate (amount % bits.length).toNat

@[simp]
theorem length_turn (bits : List Bool) (amount : Int) : (turn bits amount).length = bits.length :=
  List.length_rotate bits _

@[simp]
theorem turn_zero (bits : List Bool) : turn bits 0 = bits := by simp [turn]

theorem turn_congr (same : left % bits.length = right % bits.length) :
    turn bits left = turn bits right := by
  rw [turn, same, turn]

theorem turn_turn (bits : List Bool) (first second : Int) :
    turn (turn bits first) second = turn bits (first + second) := by
  cases bits with
  | nil => simp [turn]
  | cons bit rest =>
      have nonzero : ((bit :: rest).length : Int) ≠ 0 := by
        rw [List.length_cons]
        omega
      have sum : ((first % (bit :: rest).length).toNat + (second % (bit :: rest).length).toNat) %
          (bit :: rest).length = ((first + second) % (bit :: rest).length).toNat := by
        apply Int.natCast_inj.mp
        rw [Int.natCast_emod, Int.natCast_add, Int.toNat_of_nonneg (Int.emod_nonneg _ nonzero),
          Int.toNat_of_nonneg (Int.emod_nonneg _ nonzero),
          Int.toNat_of_nonneg (Int.emod_nonneg _ nonzero), ← Int.add_emod]
      rw [turn, length_turn, turn, List.rotate_rotate, turn, ← List.rotate_mod, sum]

theorem getElem_turn (bits : List Bool) (amount : Int) {place : Nat}
    (inside : place < (turn bits amount).length)
    (source : ((place + amount) % bits.length).toNat < bits.length) :
    (turn bits amount)[place] = bits[((place + amount) % bits.length).toNat] := by
  have nonzero : (bits.length : Int) ≠ 0 := by omega
  have same : (place + (amount % bits.length).toNat) % bits.length =
      ((place + amount) % bits.length).toNat := by
    apply Int.natCast_inj.mp
    rw [Int.natCast_emod, Int.natCast_add, Int.toNat_of_nonneg (Int.emod_nonneg _ nonzero),
      Int.toNat_of_nonneg (Int.emod_nonneg _ nonzero), Int.add_emod_emod]
  simp only [turn, List.getElem_rotate, same]

end Binary

namespace Value

variable (environment : Environment) {value : Value} {position amount : Int} {start stop : Nat}

/-! ## The bits of slices and concatenations -/

/-- The bits that a value stands for, the least significant first. -/
def bitsIn (value : Value) : List Bool := Binary.lowBits (value.eval environment) value.width

@[simp]
theorem length_bitsIn (value : Value) : (value.bitsIn environment).length = value.width :=
  Binary.length_lowBits _ _

theorem bitsIn_slice (ordered : start ≤ stop) (inside : stop ≤ value.width) (fits : stop < 2 ^ 64) :
    (slice value start stop).bitsIn environment =
      ((value.bitsIn environment).drop start).take (stop - start) := by
  have within : start + (stop - start) ≤ value.width := by omega
  have picked : Binary.residue ((value.eval environment).fdiv (2 ^ start)) (stop - start) =
      Binary.residue (Binary.residue (value.eval environment) value.width >>> start : Nat)
        (stop - start) := by
    rw [Binary.residue_fdiv within, ← Nat.shiftRight_eq_div_pow, Binary.residue_natCast]
  rw [bitsIn, width_slice ordered fits, eval, picked, Binary.lowBits_residue,
    Binary.lowBits_shiftRight _ inside, Binary.lowBits_residue, bitsIn]

theorem lowBits_joined (parts : List Value) :
    Binary.lowBits (joined environment parts) (parts.map width).sum =
      parts.flatMap (bitsIn environment) := by
  induction parts with
  | nil => rfl
  | cons first rest ih =>
      have low := Binary.residue_lt (first.eval environment) first.width
      rw [joined, Nat.add_comm, Nat.two_pow_add_eq_or_of_lt low, Nat.or_comm, Nat.mul_comm,
        ← Nat.shiftLeft_eq, List.map_cons, List.sum_cons, Binary.lowBits_or_shiftLeft _ _ low, ih,
        Binary.lowBits_residue, List.flatMap_cons, bitsIn]

theorem bitsIn_concat (parts : List Value) :
    (concat parts).bitsIn environment = parts.flatMap (bitsIn environment) := by
  rw [bitsIn, width_concat, eval, lowBits_joined]

theorem eval_concat_eq_residue (parts : List Value) :
    (concat parts).eval environment =
      Binary.residue ((concat parts).eval environment) (concat parts).width := by
  have bounded := joined_lt environment parts
  rw [width_concat, eval, Binary.residue_natCast, Nat.mod_eq_of_lt bounded]

/-! ## Values turned at a place -/

def turnedAt (value : Value) (place : Nat) : Value :=
  .concat [.slice value place value.width, .slice value 0 place]

section TurnedAt

variable {place : Nat} (narrow : value.width < 2 ^ 63) (inside : place ≤ value.width)
include narrow inside

theorem width_turnedAt : (value.turnedAt place).width = value.width := by
  have upper : (slice value place value.width).width = value.width - place :=
    width_slice inside (by omega)
  have lower : (slice value 0 place).width = place - 0 := width_slice (Nat.zero_le _) (by omega)
  simp only [turnedAt, width_concat, List.map_cons, List.map_nil, List.sum_cons, List.sum_nil,
    upper, lower]
  omega

theorem bitsIn_turnedAt :
    (value.turnedAt place).bitsIn environment = (value.bitsIn environment).rotate place := by
  have upper : ((value.bitsIn environment).drop place).take (value.width - place) =
      (value.bitsIn environment).drop place :=
    List.take_of_length_le (by simp)
  rw [turnedAt, bitsIn_concat, List.flatMap_cons, List.flatMap_cons,
    List.flatMap_nil, List.append_nil, bitsIn_slice environment inside (Nat.le_refl _) (by omega),
    bitsIn_slice environment (Nat.zero_le _) inside (by omega), upper, List.drop_zero,
    Nat.sub_zero, List.rotate_eq_drop_append_take (by simpa using inside)]

theorem eval_turnedAt :
    (value.turnedAt place).eval environment =
      Binary.residue ((value.turnedAt place).eval environment) value.width := by
  have number := eval_concat_eq_residue environment
    [slice value place value.width, slice value 0 place]
  rwa [← turnedAt, width_turnedAt narrow inside] at number

end TurnedAt

/-! ## Rotations as turns -/

theorem turned_eq (narrow : value.width < 2 ^ 63) (holds : Position.Holds position) :
    ∃ place : Nat, Picked.clamp value.width 0 value.width position = place ∧
      place ≤ value.width ∧ value.turned position = value.turnedAt place := by
  obtain ⟨lower, upper⟩ : 0 ≤ Picked.clamp value.width 0 value.width position ∧
      Picked.clamp value.width 0 value.width position ≤ value.width :=
    Picked.clamp_between narrow holds (by omega) (by omega) (by omega)
  obtain ⟨place, same⟩ := Int.eq_ofNat_of_zero_le lower
  have within : place ≤ value.width := by omega
  refine ⟨place, same, within, ?_⟩
  have zero : Position.toWidth 0 = 0 := rfl
  have above : max (value.width : Int) place = value.width := by omega
  have below : max (place : Int) 0 = place := by omega
  simp only [turned, turnedAt, clamped, Position.ofWidth_eq narrow, Option.map_some,
    Option.map_none, Option.getD_some, Option.getD_none, same, above, below, zero,
    Position.toWidth_natCast (Nat.lt_of_le_of_lt within (Nat.lt_trans narrow (by decide))),
    Position.toWidth_natCast (Nat.lt_trans narrow (by decide))]

theorem bitsIn_of_width_eq_zero (empty : value.width = 0) : value.bitsIn environment = [] :=
  List.eq_nil_of_length_eq_zero (by simp [empty])

theorem bitsIn_turned (narrow : value.width < 2 ^ 63) (holds : Position.Holds position)
    (inside : value.width = 0 ∨ -(value.width : Int) < position ∧ position < value.width) :
    (value.turned position).bitsIn environment =
      Binary.turn (value.bitsIn environment) position := by
  obtain ⟨place, held, within, same⟩ := turned_eq narrow holds
  rw [same, bitsIn_turnedAt environment narrow within]
  rcases inside with empty | ⟨lower, upper⟩
  · simp [bitsIn_of_width_eq_zero environment empty, Binary.turn]
  · -- Counted from the end or not, the position is held at its remainder.
    have counted : position % value.width = place := by
      rcases Int.lt_or_le position 0 with negative | notNegative
      · rw [Picked.clamp_of_neg narrow negative (by omega)] at held
        rw [← held, ← Int.add_emod_right, Int.emod_eq_of_lt (by omega) (by omega)]
      · rw [Picked.clamp_of_nonneg notNegative, min_eq_left (by omega)] at held
        rw [← held, Int.emod_eq_of_lt notNegative upper]
    rw [Binary.turn, length_bitsIn, counted, Int.toNat_natCast]

theorem turn_emod_width (value : Value) (narrow : value.width < 2 ^ 63) (amount : Int) :
    value.turn amount % value.width = amount % value.width := by
  rw [turn, Position.ofWidth_eq narrow]
  split
  · rfl
  · exact Int.emod_emod _ _

theorem bitsIn_rotateRight (narrow : value.width < 2 ^ 63) (holds : Position.Holds amount) :
    (value.rotateRight amount).bitsIn environment =
      Binary.turn (value.bitsIn environment) amount := by
  have inside : value.width = 0 ∨
      -(value.width : Int) < value.turn amount ∧ value.turn amount < value.width := by
    have cases := value.turn_cases amount narrow
    omega
  rw [rotateRight, bitsIn_turned environment narrow (holds_turn narrow holds) inside]
  apply Binary.turn_congr
  rw [length_bitsIn, turn_emod_width value narrow]

theorem bitsIn_rotateLeft {turned : Value} (narrow : value.width < 2 ^ 63)
    (made : value.rotateLeft amount = .ok turned) :
    turned.bitsIn environment = Binary.turn (value.bitsIn environment) (-amount) := by
  obtain ⟨_, held, rfl⟩ := map_eq_ok.mp made
  obtain ⟨opposite, rfl⟩ := Picked.held_eq_ok.mp held
  have inside : value.width = 0 ∨
      -(value.width : Int) < -value.turn amount ∧ -value.turn amount < value.width := by
    have cases := value.turn_cases amount narrow
    omega
  rw [bitsIn_turned environment narrow opposite inside]
  apply Binary.turn_congr
  rw [length_bitsIn]
  exact Int.ModEq.neg (turn_emod_width value narrow amount)

/-- A value is another one turned by an amount: as wide, with its bits turned, as an unsigned
number. -/
structure TurnedBy (value : Value) (amount : Int) (turned : Value) : Prop where
  width_eq : turned.width = value.width
  bits_eq : turned.bitsIn environment = Binary.turn (value.bitsIn environment) amount
  number : turned.eval environment = Binary.residue (turned.eval environment) value.width

theorem turnedBy_turned (narrow : value.width < 2 ^ 63) (holds : Position.Holds position)
    (bits : (value.turned position).bitsIn environment =
      Binary.turn (value.bitsIn environment) amount) :
    value.TurnedBy environment amount (value.turned position) := by
  obtain ⟨place, _, within, same⟩ := turned_eq narrow holds
  refine ⟨?_, bits, ?_⟩
  · rw [same, width_turnedAt narrow within]
  · rw [same]
    exact eval_turnedAt environment narrow within

theorem turnedBy_rotateRight (narrow : value.width < 2 ^ 63) (holds : Position.Holds amount) :
    value.TurnedBy environment amount (value.rotateRight amount) :=
  turnedBy_turned environment narrow (holds_turn narrow holds)
    (bitsIn_rotateRight environment narrow holds)

theorem turnedBy_rotateLeft {turned : Value} (narrow : value.width < 2 ^ 63)
    (made : value.rotateLeft amount = .ok turned) :
    value.TurnedBy environment (-amount) turned := by
  have bits := bitsIn_rotateLeft environment narrow made
  obtain ⟨_, held, rfl⟩ := map_eq_ok.mp made
  obtain ⟨opposite, rfl⟩ := Picked.held_eq_ok.mp held
  exact turnedBy_turned environment narrow opposite bits

theorem exists_rotateLeft (narrow : value.width < 2 ^ 63)
    (turns : 0 < value.width ∨ Position.Holds (-amount)) :
    ∃ turned, value.rotateLeft amount = .ok turned := by
  have opposite : Position.Holds (-value.turn amount) := by
    rcases value.turn_cases amount narrow with ⟨empty, same⟩ | ⟨lower, upper⟩
    · rw [same]
      exact turns.resolve_left (by omega)
    · exact ⟨by omega, by omega⟩
  exact ⟨_, map_eq_ok.mpr ⟨_, Picked.held_of_holds opposite, rfl⟩⟩

namespace TurnedBy

variable {environment : Environment} {turned other : Value} {further : Int}

/-- Turning twice is turning by the sum. -/
theorem trans (first : value.TurnedBy environment amount turned)
    (second : turned.TurnedBy environment further other) :
    value.TurnedBy environment (amount + further) other where
  width_eq := second.width_eq.trans first.width_eq
  bits_eq := by rw [second.bits_eq, first.bits_eq, Binary.turn_turn]
  number := by
    rw [← first.width_eq]
    exact second.number

theorem testBit (turns : value.TurnedBy environment amount turned) {place : Nat}
    (inside : place < value.width) :
    (turned.eval environment).testBit place =
      (value.eval environment).testBit ((place + amount) % value.width).toNat := by
  have lower := Int.emod_nonneg (place + amount) (by omega : (value.width : Int) ≠ 0)
  have upper := Int.emod_lt_of_pos (place + amount) (by omega : 0 < (value.width : Int))
  have index : place < (turned.bitsIn environment).length := by
    rw [length_bitsIn, turns.width_eq]
    exact inside
  have source : ((place + amount) % (value.bitsIn environment).length).toNat <
      (value.bitsIn environment).length := by
    rw [length_bitsIn]
    omega
  have bit := List.getElem_of_eq turns.bits_eq index
  rw [Binary.getElem_turn _ _ _ source] at bit
  simpa only [bitsIn, Binary.getElem_lowBits, Binary.length_lowBits] using bit

theorem eval_eq (turns : value.TurnedBy environment amount turned)
    (bits : turned.bitsIn environment = other.bitsIn environment)
    (width : other.width = value.width) :
    turned.eval environment = Binary.residue (other.eval environment) value.width := by
  rw [bitsIn, bitsIn, width, turns.width_eq] at bits
  rw [turns.number, Binary.residue_eq_of_lowBits_eq bits]

end TurnedBy

/-- Rotations act on the bits of a value, each of which comes from the place that the amount leads
to around the width.  A rotation to the right undoes one to the left, two rotations to the left
are one by the sum, and none changes the width.  The rotation of no bits to the left by the least
position, and only this one, overflows. -/
theorem rotations_act (environment : Environment) {value : Value} {amount : Int}
    (narrow : value.width < 2 ^ 63) (holds : Position.Holds amount) :
    (value.rotateLeft amount = .error .overflow ↔ value.width = 0 ∧ amount = Position.min) ∧
    (¬ (value.width = 0 ∧ amount = Position.min) → ∃ left, value.rotateLeft amount = .ok left ∧
      left.width = value.width ∧
      (∀ place < value.width, (left.eval environment).testBit place =
        (value.eval environment).testBit ((place - amount) % value.width).toNat) ∧
      (left.rotateRight amount).eval environment =
        Binary.residue (value.eval environment) value.width ∧
      ∀ further : Int, 0 < value.width → ∃ twice once, left.rotateLeft further = .ok twice ∧
        value.rotateLeft ((amount + further) % value.width) = .ok once ∧
        twice.eval environment = once.eval environment) ∧
    (value.rotateRight amount).width = value.width ∧
    ∀ place < value.width, ((value.rotateRight amount).eval environment).testBit place =
      (value.eval environment).testBit ((place + amount) % value.width).toNat := by
  have right := turnedBy_rotateRight environment narrow holds
  refine ⟨rotateLeft_eq_overflow_iff narrow holds, fun turns => ?_, right.width_eq,
    fun place inside => right.testBit inside⟩
  have opposite : 0 < value.width ∨ Position.Holds (-amount) := by
    by_cases empty : value.width = 0
    · exact Or.inr (holds.neg fun least => turns ⟨empty, least⟩)
    · exact Or.inl (Nat.pos_of_ne_zero empty)
  obtain ⟨turned, made⟩ := exists_rotateLeft narrow opposite
  have left := turnedBy_rotateLeft environment narrow made
  have leftNarrow : turned.width < 2 ^ 63 := by rwa [left.width_eq]
  refine ⟨turned, made, left.width_eq, fun place inside => ?_, ?_, fun further positive => ?_⟩
  · rw [Int.sub_eq_add_neg]
    exact left.testBit inside
  · have back := left.trans (turnedBy_rotateRight environment leftNarrow holds)
    refine back.eval_eq ?_ rfl
    rw [back.bits_eq, Int.add_left_neg, Binary.turn_zero]
  · obtain ⟨twice, madeTwice⟩ : ∃ twice, turned.rotateLeft further = .ok twice :=
      exists_rotateLeft leftNarrow (Or.inl (left.width_eq ▸ positive))
    obtain ⟨once, madeOnce⟩ :
        ∃ once, value.rotateLeft ((amount + further) % value.width) = .ok once :=
      exists_rotateLeft narrow (Or.inl positive)
    have both := left.trans (turnedBy_rotateLeft environment leftNarrow madeTwice)
    have sum := turnedBy_rotateLeft environment narrow madeOnce
    refine ⟨twice, once, madeTwice, madeOnce, ?_⟩
    rw [sum.number]
    refine both.eval_eq ?_ sum.width_eq
    rw [both.bits_eq, sum.bits_eq, ← Int.neg_add]
    apply Binary.turn_congr
    rw [length_bitsIn]
    exact (Int.mod_modEq _ _).symm.neg

/-- Eleven in four bits, turned to the left by six places; then back, or on by seven places. -/
theorem rotations_act_eleven :
    nibble.width < 2 ^ 63 ∧ Position.Holds 6 ∧ ∃ (environment : Environment) (left : Value),
      nibble.eval environment = 11 ∧ nibble.rotateLeft 6 = .ok left ∧
      (left.eval environment).testBit 0 = false ∧
      (left.rotateRight 6).eval environment = 11 ∧
      ∃ twice once, left.rotateLeft 7 = .ok twice ∧ nibble.rotateLeft 1 = .ok once ∧
        twice.eval environment = once.eval environment := by
  have narrow : nibble.width < 2 ^ 63 := by decide
  have holds : Position.Holds 6 := by decide
  have acts := rotations_act (Environment.zero.withSignal ⟨0, "v", Shape.unsigned 4⟩ 11 (by decide))
    narrow holds
  obtain ⟨left, made, _, bits, back, sums⟩ := acts.2.1 (by decide)
  exact ⟨narrow, holds, _, left, rfl, made, bits 0 (by decide), back, sums 7 (by decide)⟩

/-- No bits to turn, and no position to turn them by. -/
def noBits : Value := .signal ⟨0, "v", Shape.unsigned 0⟩

theorem not_rotations_act_noBits :
    noBits.rotateLeft Position.min = .error .overflow ∧
      ¬ ∀ (value : Value) (amount : Int), value.width < 2 ^ 63 → Position.Holds amount →
        ∃ left, value.rotateLeft amount = .ok left ∧ left.width = value.width := by
  have narrow : noBits.width < 2 ^ 63 := by decide
  have least : Position.Holds Position.min := by decide
  have overflows : noBits.rotateLeft Position.min = .error .overflow :=
    (rotateLeft_eq_overflow_iff narrow least).mpr ⟨rfl, rfl⟩
  refine ⟨overflows, fun every => ?_⟩
  obtain ⟨left, made, _⟩ := every noBits Position.min narrow least
  rw [overflows] at made
  cases made

end Value

end Gateware
