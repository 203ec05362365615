import Mathlib.Data.Int.Bitwise
import Gateware.Binary

/-!
# Bits of integers

The lowest bits of an integer as a list, the least significant first, and how joining,
shifting and reducing integers acts on them; and how many bits an integer needs.
-/

set_option autoImplicit false

namespace Gateware.Binary

theorem natCast_two_pow (width : Nat) : ((2 ^ width : Nat) : Int) = 2 ^ width := by
  push_cast
  rfl

theorem two_pow_pos (width : Nat) : (0 : Int) < 2 ^ width := Int.pow_pos (by decide)

/-- The lowest bits of the two's complement of an integer, the least significant first. -/
def lowBits (value : Int) (width : Nat) : List Bool := (List.range width).map value.testBit

@[simp]
theorem length_lowBits (value : Int) (width : Nat) : (lowBits value width).length = width := by
  simp [lowBits]

theorem testBit_residue (value : Int) (width place : Nat) :
    (residue value width).testBit place = (decide (place < width) && value.testBit place) := by
  have cast := natCast_two_pow width
  have positive : 0 < 2 ^ width := Nat.two_pow_pos _
  cases value with
  | ofNat n =>
      have residueEq : residue (Int.ofNat n) width = n % 2 ^ width := by
        unfold residue
        rw [← cast, Int.ofNat_eq_natCast, ← Int.natCast_emod, Int.toNat_natCast]
      rw [residueEq, Nat.testBit_mod_two_pow]
      rfl
  | negSucc n =>
      have bounded := Nat.mod_lt n positive
      have residueEq : residue (Int.negSucc n) width = 2 ^ width - (n % 2 ^ width + 1) := by
        unfold residue
        rw [← cast, Int.negSucc_emod _ (by omega), ← Int.natCast_emod]
        omega
      rw [residueEq, Nat.testBit_two_pow_sub_succ bounded, Nat.testBit_mod_two_pow]
      simp only [Int.testBit]
      by_cases inside : place < width
      · simp [inside]
      · simp [inside]

theorem lowBits_residue (value : Int) (width : Nat) :
    lowBits (residue value width) width = lowBits value width := by
  unfold lowBits
  apply List.map_congr_left
  intro place listed
  have inside : place < width := List.mem_range.mp listed
  have bit := testBit_residue value width place
  rw [decide_eq_true inside, Bool.true_and] at bit
  exact bit

theorem residue_eq_of_lowBits_eq {left right : Int} {width : Nat}
    (same : lowBits left width = lowBits right width) :
    residue left width = residue right width := by
  apply Nat.eq_of_testBit_eq
  intro place
  rw [testBit_residue, testBit_residue]
  by_cases inside : place < width
  · rw [List.map_inj_left.mp same place (List.mem_range.mpr inside)]
  · simp [inside]

theorem getElem_lowBits {value : Int} {width place : Nat}
    (inside : place < (lowBits value width).length) :
    (lowBits value width)[place] = value.testBit place := by
  simp [lowBits]

theorem lowBits_or_shiftLeft {low : Nat} (high : Nat) {width : Nat} (more : Nat)
    (bounded : low < 2 ^ width) :
    lowBits (low ||| high <<< width : Nat) (width + more) =
      lowBits low width ++ lowBits high more := by
  unfold lowBits
  rw [List.range_add, List.map_append, List.map_map]
  congr 1
  · apply List.map_congr_left
    intro place listed
    have inside : place < width := List.mem_range.mp listed
    have below : ¬ width ≤ place := by omega
    show (low ||| high <<< width).testBit place = low.testBit place
    rw [Nat.testBit_or, Nat.testBit_shiftLeft]
    simp [below]
  · apply List.map_congr_left
    intro place _
    have above : low < 2 ^ (width + place) :=
      Nat.lt_of_lt_of_le bounded (Nat.pow_le_pow_right (by decide) (Nat.le_add_right _ _))
    show (low ||| high <<< width).testBit (width + place) = high.testBit place
    rw [Nat.testBit_or, Nat.testBit_lt_two_pow above, Nat.testBit_shiftLeft]
    simp

theorem lowBits_shiftRight (value : Nat) {start stop width : Nat} (inside : stop ≤ width) :
    lowBits (value >>> start : Nat) (stop - start) =
      ((lowBits value width).drop start).take (stop - start) := by
  apply List.ext_getElem
  · simp
    omega
  · intro place left right
    simp only [lowBits, List.getElem_map, List.getElem_range, List.getElem_take,
      List.getElem_drop]
    show (value >>> start).testBit place = value.testBit (start + place)
    rw [Nat.testBit_shiftRight]

theorem residue_lt (value : Int) (width : Nat) : residue value width < 2 ^ width := by
  have positive : (0 : Int) < 2 ^ width := two_pow_pos width
  have cast := natCast_two_pow width
  have lower := Int.emod_nonneg value (Int.ne_of_gt positive)
  have upper := Int.emod_lt_of_pos value positive
  unfold residue
  omega

/-! ## Bit counts -/

theorem length_le_iff {n width : Nat} : length n ≤ width ↔ n < 2 ^ width := by
  unfold length
  split
  · rename_i zero
    rw [zero]
    exact ⟨fun _ => Nat.two_pow_pos width, fun _ => Nat.zero_le width⟩
  · rename_i positive
    rw [Nat.succ_le_iff, Nat.log2_lt positive]

theorem bitsFor_pos {value : Int} {signBit : Bool} : 0 < bitsFor value signBit := by
  unfold bitsFor
  split
  · rename_i positive
    have notZero : value.toNat ≠ 0 := by omega
    rw [length, if_neg notZero]
    omega
  · exact Nat.succ_pos _

theorem bitsFor_of_pos {value : Int} {signBit : Bool} (positive : 0 < value) :
    bitsFor value signBit = length value.toNat + signBit.toNat := by
  rw [bitsFor, if_pos positive]

theorem bitsFor_of_nonpos {value : Int} {signBit : Bool} (notPositive : value ≤ 0) :
    bitsFor value signBit = length (-value - 1).toNat + 1 := by
  rw [bitsFor, if_neg (Int.not_lt.mpr notPositive)]

/-! ## Selected bits -/

theorem natCast_residue (value : Int) (width : Nat) :
    (residue value width : Int) = value % 2 ^ width := by
  have positive : (0 : Int) < 2 ^ width := two_pow_pos width
  exact Int.toNat_of_nonneg (Int.emod_nonneg value (Int.ne_of_gt positive))

theorem residue_natCast (n width : Nat) : residue n width = n % 2 ^ width := by
  apply Int.natCast_inj.mp
  rw [natCast_residue, Int.natCast_emod, natCast_two_pow]

/-- The bits from a place on, up to another one, are those of the residue of any width that
reaches so far. -/
theorem residue_fdiv {value : Int} {width start count : Nat} (inside : start + count ≤ width) :
    residue (value.fdiv (2 ^ start)) count = residue value width / 2 ^ start % 2 ^ count := by
  obtain ⟨above, rfl⟩ := Nat.exists_eq_add_of_le inside
  have positive : (0 : Int) < 2 ^ start := two_pow_pos start
  have split : value = value % 2 ^ (start + count + above) +
      2 ^ start * (2 ^ count * (2 ^ above * (value / 2 ^ (start + count + above)))) := by
    rw [← Int.mul_assoc, ← Int.mul_assoc, ← Int.pow_add, ← Int.pow_add]
    exact (Int.emod_add_mul_ediv value _).symm
  apply Int.natCast_inj.mp
  rw [Int.natCast_emod, Int.natCast_ediv, natCast_two_pow, natCast_two_pow, natCast_residue,
    natCast_residue, Int.fdiv_eq_ediv_of_nonneg _ (Int.le_of_lt positive)]
  conv_lhs => rw [split]
  rw [Int.add_mul_ediv_left _ _ (Int.ne_of_gt positive), Int.add_mul_emod_self_left]

theorem div_mod_of_lt {bits width start count : Nat} (bounded : bits < 2 ^ width) :
    bits / 2 ^ (min start width) % 2 ^ (min (start + count) width - min start width) =
      bits / 2 ^ start % 2 ^ count := by
  rcases Nat.le_total width start with past | inside
  · have none : bits < 2 ^ start :=
      Nat.lt_of_lt_of_le bounded (Nat.pow_le_pow_right (by decide) past)
    have empty : min (start + count) width - min start width = 0 := by omega
    rw [empty, Nat.div_eq_of_lt none, Nat.pow_zero, Nat.mod_one, Nat.zero_mod]
  · rw [Nat.min_eq_left inside]
    rcases Nat.le_total (start + count) width with within | beyond
    · rw [Nat.min_eq_left within, Nat.add_sub_cancel_left]
    · have few : bits / 2 ^ start < 2 ^ (width - start) := by
        rw [Nat.div_lt_iff_lt_mul (Nat.two_pow_pos _), ← Nat.pow_add,
          Nat.sub_add_cancel inside]
        exact bounded
      have fewer : bits / 2 ^ start < 2 ^ count :=
        Nat.lt_of_lt_of_le few (Nat.pow_le_pow_right (by decide) (by omega))
      rw [Nat.min_eq_right beyond, Nat.mod_eq_of_lt few, Nat.mod_eq_of_lt fewer]

/-! ## Numerals -/

def digit (symbol : Char) : Nat := if symbol = '1' then 1 else 0

theorem digit_lt (symbol : Char) : digit symbol < 2 := by
  unfold digit
  split <;> decide

private theorem foldl_read (bits : List Char) (start : Nat) :
    bits.foldl (fun n c => 2 * n + (if c = '1' then 1 else 0)) start =
      2 ^ bits.length * start + read bits := by
  unfold read
  induction bits generalizing start with
  | nil => simp
  | cons first rest ih =>
      rw [List.foldl_cons, List.foldl_cons, ih, ih (2 * 0 + _), List.length_cons, Nat.pow_succ]
      grind

theorem read_cons (symbol : Char) (bits : List Char) :
    read (symbol :: bits) = 2 ^ bits.length * digit symbol + read bits := by
  rw [read, List.foldl_cons, foldl_read]
  simp [digit]

theorem read_lt (bits : List Char) : read bits < 2 ^ bits.length := by
  induction bits with
  | nil => decide
  | cons first rest ih =>
      have small := digit_lt first
      rw [read_cons, List.length_cons, Nat.pow_succ]
      calc 2 ^ rest.length * digit first + read rest
          < 2 ^ rest.length * digit first + 2 ^ rest.length := Nat.add_lt_add_left ih _
        _ = 2 ^ rest.length * (digit first + 1) := by rw [Nat.mul_succ]
        _ ≤ 2 ^ rest.length * 2 := Nat.mul_le_mul_left _ small

theorem digits_succ (value : Int) (width : Nat) :
    digits value (width + 1) =
      (if value.testBit width then '1' else '0') :: digits value width := by
  simp only [digits, List.range_succ, List.reverse_append, List.reverse_cons, List.reverse_nil,
    List.nil_append, List.singleton_append, List.map_cons, testBit_residue]
  simp only [Nat.lt_succ_self, decide_true, Bool.true_and]
  congr 1
  apply List.map_congr_left
  intro place listed
  have inside : place < width := List.mem_range.mp (List.mem_reverse.mp listed)
  simp [inside, Nat.lt_succ_of_lt inside]

theorem residue_succ (value : Int) (width : Nat) :
    residue value (width + 1) =
      2 ^ width * (value.testBit width).toNat + residue value width := by
  apply Nat.eq_of_testBit_eq
  intro place
  rw [testBit_residue, Nat.testBit_two_pow_mul_add _ (residue_lt value width), testBit_residue]
  rcases Nat.lt_trichotomy place width with below | rfl | above
  · simp [below, Nat.lt_succ_of_lt below]
  · simp
    cases value.testBit place <;> rfl
  · have notBelow : ¬ place < width := by omega
    have notInside : ¬ place < width + 1 := by omega
    have one : (value.testBit width).toNat < 2 ^ (place - width) :=
      Nat.lt_of_lt_of_le (Bool.toNat_lt _)
        (Nat.le_self_pow (by omega) 2)
    simp only [notInside, notBelow, decide_false, Bool.false_and, if_false]
    exact (Nat.testBit_lt_two_pow one).symm

theorem read_digits (value : Int) (width : Nat) :
    read (digits value width) = residue value width := by
  induction width with
  | zero => simp [read, residue]
  | succ width ih =>
      rw [digits_succ, read_cons, length_digits, ih, residue_succ]
      cases value.testBit width <;> rfl

end Gateware.Binary
