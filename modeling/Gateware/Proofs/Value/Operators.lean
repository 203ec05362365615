import Mathlib.Tactic.Linarith
import Gateware.Proofs.Value.Meaning

/-!
# The results of operators

The shape of an operator holds what the operator makes of any integers of the shapes of
its operands.  There is one lemma for each rule by which a shape is found.
-/

set_option autoImplicit false

namespace Gateware

namespace Shape

variable {shape left right : Shape} {a b : Int}

theorem bit_mem (truth : Bool) : truthValue truth ∈ bit := by
  cases truth <;> decide

/-! ## Sums and differences -/

theorem add_mem (valid : shape.Valid) (aInside : a ∈ shape) (bInside : b ∈ shape) :
    a + b ∈ (⟨shape.width + 1, shape.signed⟩ : Shape) := by
  rcases valid.cases with ⟨width, rfl⟩ | ⟨width, rfl⟩
  · rw [mem_unsigned] at aInside bInside ⊢
    dsimp only
    rw [Int.pow_succ]
    omega
  · rw [mem_signed] at aInside bInside ⊢
    rw [Int.pow_succ]
    omega

theorem sub_mem (valid : shape.Valid) (aInside : a ∈ shape) (bInside : b ∈ shape) :
    a - b ∈ (⟨shape.width + 1, true⟩ : Shape) := by
  rw [mem_signed]
  rcases valid.cases with ⟨width, rfl⟩ | ⟨width, rfl⟩
  · rw [mem_unsigned] at aInside bInside
    dsimp only
    omega
  · rw [mem_signed] at aInside bInside
    dsimp only
    rw [Int.pow_succ]
    omega

theorem neg_mem (valid : shape.Valid) (inside : a ∈ shape) :
    -a ∈ (⟨shape.width + 1, true⟩ : Shape) := by
  have difference := sub_mem valid zero_mem inside
  rwa [Int.zero_sub] at difference

/-! ## Products -/

theorem mul_mem (leftValid : left.Valid) (rightValid : right.Valid) (aInside : a ∈ left)
    (bInside : b ∈ right) :
    a * b ∈ (⟨left.width + right.width, left.signed || right.signed⟩ : Shape) := by
  rcases leftValid.cases with ⟨u, rfl⟩ | ⟨u, rfl⟩ <;>
    rcases rightValid.cases with ⟨v, rfl⟩ | ⟨v, rfl⟩
  · rw [mem_unsigned] at aInside bInside
    show a * b ∈ (⟨u + v, false⟩ : Shape)
    rw [mem_unsigned, pow_add]
    exact ⟨by nlinarith, by nlinarith⟩
  · rw [mem_unsigned] at aInside
    rw [mem_signed] at bInside
    show a * b ∈ (⟨u + v + 1, true⟩ : Shape)
    rw [mem_signed, pow_add]
    exact ⟨by nlinarith, by nlinarith⟩
  · rw [mem_signed] at aInside
    rw [mem_unsigned] at bInside
    have width : u + 1 + v = u + v + 1 := by omega
    show a * b ∈ (⟨u + 1 + v, true⟩ : Shape)
    rw [width, mem_signed, pow_add]
    exact ⟨by nlinarith, by nlinarith⟩
  · rw [mem_signed] at aInside bInside
    have width : u + 1 + (v + 1) = u + v + 1 + 1 := by omega
    show a * b ∈ (⟨u + 1 + (v + 1), true⟩ : Shape)
    rw [width, mem_signed, pow_succ, pow_add]
    exact ⟨by nlinarith, by nlinarith⟩

/-! ## Quotients and remainders -/

theorem mem_of_between (inside : a ∈ shape) (between : 0 ≤ b ∧ b ≤ a ∨ a ≤ b ∧ b ≤ 0) :
    b ∈ shape := by
  have zeroInside : (0 : Int) ∈ shape := zero_mem
  simp only [mem_iff_contains, contains, Bool.and_eq_true, decide_eq_true_eq] at *
  omega

theorem fdiv_mem_left (inside : a ∈ shape) (notNegative : 0 ≤ b) : a.fdiv b ∈ shape := by
  have shrinks := Int.natAbs_fdiv_le_natAbs a b
  apply mem_of_between inside
  rcases Int.lt_or_le a 0 with negative | positive
  · rcases eq_or_lt_of_le notNegative with zero | divisorPositive
    · rw [← zero, Int.fdiv_zero]
      omega
    · have below := Int.fdiv_neg_of_neg_of_pos negative divisorPositive
      omega
  · have above := Int.fdiv_nonneg positive notNegative
    omega

theorem fdiv_mem (valid : shape.Valid) (inside : a ∈ shape) (b : Int) :
    a.fdiv b ∈ (⟨shape.width + 1, true⟩ : Shape) := by
  have shrinks := Int.natAbs_fdiv_le_natAbs a b
  rw [mem_signed]
  rcases valid.cases with ⟨width, rfl⟩ | ⟨width, rfl⟩
  · rw [mem_unsigned] at inside
    dsimp only
    omega
  · rw [mem_signed] at inside
    dsimp only
    rw [Int.pow_succ]
    omega

theorem fmod_mem (inside : b ∈ shape) (notZero : b ≠ 0) : a.fmod b ∈ shape := by
  apply mem_of_between inside
  rcases Int.lt_or_gt_of_ne notZero with negative | positive
  · have lower := Int.fmod_nonneg_of_pos (-a) (by omega : 0 < -b)
    have upper := Int.fmod_lt_of_pos (-a) (by omega : 0 < -b)
    rw [Int.neg_fmod_neg] at lower upper
    omega
  · have lower := Int.fmod_nonneg_of_pos a positive
    have upper := Int.fmod_lt_of_pos a positive
    omega

/-! ## Bitwise operators -/

/-- The bits of an integer other than its sign: those of the integer, or of its complement
when it is negative. -/
def magnitude : Int → Nat
  | .ofNat n => n
  | .negSucc n => n

theorem mem_signed_iff_magnitude {width : Nat} :
    a ∈ (⟨width + 1, true⟩ : Shape) ↔ magnitude a < 2 ^ width := by
  rw [mem_signed, ← Binary.natCast_two_pow]
  cases a with
  | ofNat n =>
      simp only [magnitude, Int.ofNat_eq_natCast]
      omega
  | negSucc n =>
      simp only [magnitude, Int.negSucc_eq]
      omega

private theorem ldiff_lt {m n width : Nat} (bounded : m < 2 ^ width) :
    Nat.ldiff m n < 2 ^ width := by
  apply Nat.lt_pow_two_of_testBit
  intro place above
  rw [Nat.testBit_ldiff, Nat.testBit_lt_two_pow (Nat.lt_of_lt_of_le bounded
    (Nat.pow_le_pow_right (by decide) above)), Bool.false_and]

/-- A bitwise operator keeps to a shape if it keeps to the magnitudes of its operands and
makes no negative integer of two that are not. -/
private theorem bitwise_mem {op : Int → Int → Int} (keepsSign : ∀ m n : Nat, 0 ≤ op m n)
    (keepsMagnitude : ∀ {a b : Int} {width : Nat}, magnitude a < 2 ^ width →
      magnitude b < 2 ^ width → magnitude (op a b) < 2 ^ width)
    (valid : shape.Valid) (aInside : a ∈ shape) (bInside : b ∈ shape) : op a b ∈ shape := by
  rcases valid.cases with ⟨width, rfl⟩ | ⟨width, rfl⟩
  · obtain ⟨m, rfl⟩ := Int.eq_ofNat_of_zero_le (mem_unsigned.mp aInside).1
    obtain ⟨n, rfl⟩ := Int.eq_ofNat_of_zero_le (mem_unsigned.mp bInside).1
    rw [mem_unsigned_natCast] at aInside bInside
    obtain ⟨result, same⟩ := Int.eq_ofNat_of_zero_le (keepsSign m n)
    have bounded : magnitude (op m n) < 2 ^ width := keepsMagnitude aInside bInside
    rw [same] at bounded ⊢
    exact mem_unsigned_natCast.mpr bounded
  · rw [mem_signed_iff_magnitude] at aInside bInside ⊢
    exact keepsMagnitude aInside bInside

theorem land_mem (valid : shape.Valid) (aInside : a ∈ shape) (bInside : b ∈ shape) :
    a.land b ∈ shape := by
  apply bitwise_mem _ _ valid aInside bInside
  · intro m n
    exact Int.natCast_nonneg _
  · intro a b width aBounded bBounded
    cases a <;> cases b
    · exact Nat.and_lt_two_pow _ bBounded
    · exact ldiff_lt aBounded
    · exact ldiff_lt bBounded
    · exact Nat.or_lt_two_pow aBounded bBounded

theorem lor_mem (valid : shape.Valid) (aInside : a ∈ shape) (bInside : b ∈ shape) :
    a.lor b ∈ shape := by
  apply bitwise_mem _ _ valid aInside bInside
  · intro m n
    exact Int.natCast_nonneg _
  · intro a b width aBounded bBounded
    cases a <;> cases b
    · exact Nat.or_lt_two_pow aBounded bBounded
    · exact ldiff_lt bBounded
    · exact ldiff_lt aBounded
    · exact Nat.and_lt_two_pow _ bBounded

theorem xor_mem (valid : shape.Valid) (aInside : a ∈ shape) (bInside : b ∈ shape) :
    a.xor b ∈ shape := by
  apply bitwise_mem _ _ valid aInside bInside
  · intro m n
    exact Int.natCast_nonneg _
  · intro a b width aBounded bBounded
    cases a <;> cases b <;> exact Nat.xor_lt_two_pow aBounded bBounded

/-! ## Shifts -/

theorem shl_mem (valid : shape.Valid) (inside : a ∈ shape) {amount most : Nat}
    (bounded : amount ≤ most) :
    a * 2 ^ amount ∈ (⟨shape.width + most, shape.signed⟩ : Shape) := by
  have positive : (0 : Int) < 2 ^ amount := Binary.two_pow_pos amount
  have atAmount : a * 2 ^ amount ∈ (⟨shape.width + amount, shape.signed⟩ : Shape) := by
    rcases valid.cases with ⟨width, rfl⟩ | ⟨width, rfl⟩
    · rw [mem_unsigned] at inside ⊢
      dsimp only
      rw [pow_add]
      exact ⟨by nlinarith, by nlinarith⟩
    · have order : width + 1 + amount = width + amount + 1 := by omega
      rw [mem_signed] at inside
      show a * 2 ^ amount ∈ (⟨width + 1 + amount, true⟩ : Shape)
      rw [order, mem_signed, pow_add]
      exact ⟨by nlinarith, by nlinarith⟩
  exact mem_of_width_le (Nat.add_le_add_left bounded _) atAmount

theorem toNat_le_of_mem (valid : shape.Valid) (inside : a ∈ shape) :
    a.toNat ≤ 2 ^ shape.width - 1 := by
  have cast := Binary.natCast_two_pow shape.width
  have positive : 0 < 2 ^ shape.width := Nat.two_pow_pos _
  have below := lt_of_mem valid inside
  omega

theorem residue_mem (value : Int) (width : Nat) :
    (Binary.residue value width : Int) ∈ (⟨width, false⟩ : Shape) :=
  mem_unsigned_natCast.mpr (Binary.residue_lt value width)

end Shape

/-! ## The shapes of operators -/

theorem UnaryOp.apply_mem (op : UnaryOp) {operand : Shape} {value : Int}
    (valid : operand.Valid) (resultValid : (op.shape operand).Valid) (inside : value ∈ operand) :
    op.apply operand value ∈ op.shape operand := by
  cases op with
  | invert => exact Shape.fit_mem valid _
  | negate => exact Shape.neg_mem valid inside
  | truth | any | all | parity => exact Shape.bit_mem _
  | asUnsigned => exact Shape.residue_mem value operand.width
  | asSigned => exact Shape.fit_mem resultValid value

theorem BinaryOp.addSaturating_longestShift (width amount : Nat) :
    Width.addSaturating width (longestShift amount) =
      Nat.min (width + (2 ^ amount - 1)) Width.max := by
  unfold longestShift
  split
  · rfl
  · rename_i long
    have past : 2 ^ 64 ≤ 2 ^ amount := Nat.pow_le_pow_right (by decide) (Nat.le_of_not_lt long)
    have beyond : Width.max ≤ width + (2 ^ amount - 1) := by
      unfold Width.max
      omega
    exact (Nat.min_eq_right (Nat.le_add_left _ _)).trans (Nat.min_eq_right beyond).symm

/-- A shape that is not saturated by a shift has room for the widest shift. -/
theorem BinaryOp.longestShift_eq {width amount : Nat}
    (room : Width.addSaturating width (longestShift amount) < 2 ^ 63) :
    Width.addSaturating width (longestShift amount) = width + (2 ^ amount - 1) := by
  rw [addSaturating_longestShift] at room ⊢
  apply Nat.min_eq_left
  by_contra past
  have saturated : Nat.min (width + (2 ^ amount - 1)) Width.max = Width.max :=
    Nat.min_eq_right (by omega)
  rw [saturated] at room
  exact absurd room (by decide)

theorem BinaryOp.apply_mem (op : BinaryOp) {left right : Shape} {a b : Int}
    (leftValid : left.Valid) (rightValid : right.Valid)
    (room : (op.shape left right).width < 2 ^ 63) (aInside : a ∈ left) (bInside : b ∈ right) :
    op.apply a b ∈ op.shape left right := by
  have unifyValid := Shape.valid_unify_pair leftValid rightValid
  have aUnified : a ∈ Shape.unify [left, right] := Shape.mem_unify_left aInside
  have bUnified : b ∈ Shape.unify [left, right] := Shape.mem_unify_right bInside
  cases op with
  | add => exact Shape.add_mem unifyValid aUnified bUnified
  | subtract => exact Shape.sub_mem unifyValid aUnified bUnified
  | multiply => exact Shape.mul_mem leftValid rightValid aInside bInside
  | divide =>
      obtain ⟨rightWidth, rightSigned⟩ := right
      cases rightSigned with
      | false =>
          simp only [BinaryOp.apply, BinaryOp.shape, Bool.toNat_false, Nat.add_zero, Bool.or_false]
          exact Shape.fdiv_mem_left aInside (Shape.mem_unsigned.mp bInside).1
      | true =>
          simp only [BinaryOp.apply, BinaryOp.shape, Bool.toNat_true, Bool.or_true]
          exact Shape.fdiv_mem leftValid aInside b
  | modulo =>
      simp only [BinaryOp.apply, BinaryOp.shape]
      split
      · exact Shape.zero_mem
      · exact Shape.fmod_mem bInside ‹_›
  | and => exact Shape.land_mem unifyValid aUnified bUnified
  | or => exact Shape.lor_mem unifyValid aUnified bUnified
  | xor => exact Shape.xor_mem unifyValid aUnified bUnified
  | shiftLeft =>
      have amount := Shape.toNat_le_of_mem rightValid bInside
      have unsaturated := longestShift_eq room
      simp only [BinaryOp.apply, BinaryOp.shape, unsaturated]
      exact Shape.shl_mem leftValid aInside amount
  | shiftRight => exact Shape.fdiv_mem_left aInside (Int.le_of_lt (Binary.two_pow_pos _))
  | equal | unequal | less | lessEqual | greater | greaterEqual => exact Shape.bit_mem _

end Gateware
