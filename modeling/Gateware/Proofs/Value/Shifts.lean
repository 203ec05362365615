import Gateware.Proofs.Value.Constructors
import Gateware.Proofs.Value.Operators
import Gateware.Proofs.Value.Selection

/-!
# Shifts by a constant

A shift by a constant is put together from zeros, a concatenation and a slice, all of which are
read as unsigned, and gets the signedness of the value back at the end.  What comes out is the
exact product with a power of two, or the exact quotient by one.
-/

set_option autoImplicit false

namespace Gateware

namespace Shape

variable {shape : Shape} {value : Int} {amount : Nat}

def belowSign (shape : Shape) : Nat := shape.width - shape.signed.toNat

theorem between_of_mem (valid : shape.Valid) (inside : value ∈ shape) :
    -2 ^ shape.belowSign ≤ value ∧ value < 2 ^ shape.belowSign := by
  obtain ⟨width, rfl⟩ | ⟨width, rfl⟩ := valid.cases
  · have positive : (0 : Int) < 2 ^ width := Binary.two_pow_pos width
    obtain ⟨lower, upper⟩ := mem_unsigned.mp inside
    have below : -(2 : Int) ^ width ≤ 0 := by omega
    exact ⟨Int.le_trans below lower, upper⟩
  · exact mem_signed.mp inside

theorem fdiv_of_belowSign_le (valid : shape.Valid) (inside : value ∈ shape)
    (beyond : shape.belowSign ≤ amount) :
    value.fdiv (2 ^ amount) = if value < 0 then -1 else 0 := by
  have grows : (2 : Int) ^ shape.belowSign ≤ 2 ^ amount := pow_le_pow_right₀ (by decide) beyond
  obtain ⟨lower, upper⟩ := between_of_mem valid inside
  rw [Int.fdiv_eq_ediv_of_nonneg _ (by omega)]
  split
  · rename_i negative
    exact Int.ediv_eq_neg_one_of_neg_of_le negative (by omega)
  · exact Int.ediv_eq_zero_of_lt (by omega) (by omega)

/-- Dividing past the sign bit changes nothing any more. -/
theorem fdiv_min_belowSign (valid : shape.Valid) (inside : value ∈ shape) (amount : Nat) :
    value.fdiv (2 ^ min amount shape.belowSign) = value.fdiv (2 ^ amount) := by
  rcases Nat.le_total amount shape.belowSign with within | beyond
  · rw [Nat.min_eq_left within]
  · rw [Nat.min_eq_right beyond, fdiv_of_belowSign_le valid inside (Nat.le_refl _),
      fdiv_of_belowSign_le valid inside beyond]

theorem width_sub_min_belowSign (valid : shape.Valid) (amount : Nat) :
    shape.width - min amount shape.belowSign = max (shape.width - amount) shape.signed.toNat := by
  unfold belowSign
  obtain ⟨width, rfl⟩ | ⟨width, rfl⟩ := valid.cases
  · simp only [Bool.toNat_false]
    omega
  · simp only [Bool.toNat_true]
    omega

theorem valid_max (width : Nat) (signed : Bool) :
    (⟨max width signed.toNat, signed⟩ : Shape).Valid := by
  cases signed with
  | false => exact valid_unsigned _
  | true => exact fun _ => Nat.le_max_right width 1

theorem fdiv_mem_of_le (valid : shape.Valid) (inside : value ∈ shape)
    (within : amount ≤ shape.belowSign) :
    value.fdiv (2 ^ amount) ∈ (⟨shape.width - amount, shape.signed⟩ : Shape) := by
  have positive : (0 : Int) < 2 ^ amount := Binary.two_pow_pos amount
  rw [Int.fdiv_eq_ediv_of_nonneg _ (Int.le_of_lt positive)]
  obtain ⟨width, rfl⟩ | ⟨width, rfl⟩ := valid.cases
  · obtain ⟨rest, rfl⟩ : ∃ rest, width = rest + amount := Nat.exists_eq_add_of_le' within
    obtain ⟨lower, upper⟩ := mem_unsigned.mp inside
    rw [pow_add] at upper
    dsimp only
    rw [Nat.add_sub_cancel, mem_unsigned]
    exact ⟨Int.ediv_nonneg lower (Int.le_of_lt positive), Int.ediv_lt_of_lt_mul positive upper⟩
  · obtain ⟨rest, rfl⟩ : ∃ rest, width = rest + amount := Nat.exists_eq_add_of_le' within
    obtain ⟨lower, upper⟩ := mem_signed.mp inside
    rw [pow_add] at lower upper
    have left : rest + amount + 1 - amount = rest + 1 := by omega
    dsimp only
    rw [left, mem_signed]
    exact ⟨Int.le_ediv_of_mul_le positive (by rwa [Int.neg_mul]),
      Int.ediv_lt_of_lt_mul positive upper⟩

end Shape

namespace Value

variable (environment : Environment) {value bits : Value} {signed : Bool} {width amount : Nat}

/-! ## The signedness put back -/

def resigned (signed : Bool) (bits : Value) : Value :=
  if signed then .unary .asSigned bits else bits

theorem shape_resigned (plain : bits.shape = Shape.unsigned width) :
    (resigned signed bits).shape = ⟨width, signed⟩ := by
  cases signed with
  | false => exact plain
  | true => rw [resigned, if_pos rfl, shape, plain]; rfl

/-- Bits that are the residue of an integer of a shape, read with the signedness of the shape,
stand for the integer. -/
theorem eval_resigned {x : Int} (valid : (⟨width, signed⟩ : Shape).Valid)
    (plain : bits.shape = Shape.unsigned width) (inside : x ∈ (⟨width, signed⟩ : Shape))
    (residue : bits.eval environment = x % 2 ^ width) :
    (resigned signed bits).eval environment = x := by
  cases signed with
  | false =>
      obtain ⟨lower, upper⟩ := Shape.mem_unsigned.mp inside
      exact residue.trans (Int.emod_eq_of_lt lower upper)
  | true =>
      rw [resigned, if_pos rfl, eval, plain, residue]
      apply Shape.eq_of_emod_eq valid (Shape.fit_mem valid _) inside
      exact (Shape.fit_emod _ _).trans (Int.emod_emod _ _)

/-! ## Raised values -/

theorem raised_eq (value : Value) (amount : Nat) :
    value.raised amount =
      resigned value.shape.signed
        (.concat [.const (Const.fit 0 (Shape.unsigned amount)), value]) :=
  rfl

theorem shape_zeros_concat (value : Value) (amount : Nat) :
    (Value.concat [.const (Const.fit 0 (Shape.unsigned amount)), value]).shape =
      Shape.unsigned (value.width + amount) := by
  have widths : ([.const (Const.fit 0 (Shape.unsigned amount)), value].map Value.width).sum =
      value.width + amount := by
    simp [Value.width, shape, Const.fit, Nat.add_comm]
  rw [shape, totalWidth_eq_sum, widths]

theorem eval_zeros_concat :
    (Value.concat [.const (Const.fit 0 (Shape.unsigned amount)), value]).eval environment =
      value.eval environment * 2 ^ amount % 2 ^ (value.width + amount) := by
  have zeros : (Const.fit 0 (Shape.unsigned amount)).value = 0 := by
    simp [Const.fit, Shape.unsigned, Shape.fit_unsigned]
  have low : Binary.residue 0 amount = 0 := by simp [Binary.residue]
  have width : (Value.const (Const.fit 0 (Shape.unsigned amount))).width = amount := rfl
  have positive : (0 : Int) < 2 ^ amount := Binary.two_pow_pos amount
  have total : (2 : Int) ^ (value.width + amount) = 2 ^ amount * 2 ^ value.width := by
    rw [Nat.add_comm, pow_add]
  rw [total, Int.mul_comm, Int.mul_emod_mul_of_pos _ _ positive, ← Binary.natCast_residue]
  simp [eval, joined, width, zeros, low]

theorem raised_spec (valid : value.shape.Valid) (inside : value.eval environment ∈ value.shape)
    (amount : Nat) :
    (value.raised amount).eval environment = value.eval environment * 2 ^ amount ∧
      (value.raised amount).shape = ⟨value.width + amount, value.shape.signed⟩ := by
  have plain := shape_zeros_concat value amount
  have resultValid : (⟨value.width + amount, value.shape.signed⟩ : Shape).Valid :=
    fun signed => Nat.add_pos_left (valid signed) amount
  rw [raised_eq]
  exact ⟨eval_resigned environment resultValid plain
    (Shape.shl_mem valid inside (Nat.le_refl amount)) (eval_zeros_concat environment),
    shape_resigned plain⟩

/-! ## Lowered values -/

theorem clamped_natCast (narrow : value.width < 2 ^ 63) (start : Nat) :
    value.clamped (some start) none = .slice value (min start value.width) value.width := by
  have held : value.clamped (some (start : Int)) none =
      value.clamped (some (min start value.width : Nat)) none := by
    have same : min ((min start value.width : Nat) : Int) value.width =
        min (start : Int) value.width := by
      omega
    simp only [clamped, Position.ofWidth_eq narrow, Option.map_some, Option.getD_some,
      Picked.clamp_of_nonneg (Int.natCast_nonneg _), same]
  rw [held, clamped_from narrow (by omega) (by omega), Int.toNat_natCast]

theorem lowered_eq (valid : value.shape.Valid) (narrow : value.width < 2 ^ 63) (amount : Nat) :
    value.lowered amount =
      resigned value.shape.signed
        (.slice value (min amount value.shape.belowSign) value.width) := by
  have within : value.shape.belowSign ≤ value.width := Nat.sub_le _ _
  cases signed : value.shape.signed with
  | false =>
      have all : value.shape.belowSign = value.width := by simp [Shape.belowSign, signed, Value.width]
      rw [lowered, signed, all]
      exact clamped_natCast narrow amount
  | true =>
      have positive : 0 < value.width := valid signed
      have most : Position.wrap ((value.width : Int) - 1) = (value.shape.belowSign : Nat) := by
        rw [Position.Holds.wrap_eq ⟨by omega, by omega⟩]
        simp only [Shape.belowSign, signed, Bool.toNat_true]
        unfold Value.width at *
        omega
      have start : min (amount : Int) (value.shape.belowSign : Nat) =
          (min amount value.shape.belowSign : Nat) := by omega
      simp only [lowered, resigned, signed, if_true, Position.ofWidth_eq narrow, most, start]
      rw [clamped_natCast narrow, Nat.min_eq_left (by omega)]

theorem lowered_spec (valid : value.shape.Valid) (inside : value.eval environment ∈ value.shape)
    (narrow : value.width < 2 ^ 63) (amount : Nat) :
    (value.lowered amount).eval environment = (value.eval environment).fdiv (2 ^ amount) ∧
      (value.lowered amount).shape =
        ⟨max (value.width - amount) value.shape.signed.toNat, value.shape.signed⟩ := by
  have within : min amount value.shape.belowSign ≤ value.shape.belowSign := Nat.min_le_right _ _
  have ordered : min amount value.shape.belowSign ≤ value.width :=
    Nat.le_trans within (Nat.sub_le _ _)
  have plain : (slice value (min amount value.shape.belowSign) value.width).shape =
      Shape.unsigned (max (value.width - amount) value.shape.signed.toNat) := by
    rw [shape, Width.between_eq ordered (by omega)]
    exact congrArg Shape.unsigned (Shape.width_sub_min_belowSign valid amount)
  have quotient := Shape.fdiv_mem_of_le valid inside within
  rw [Shape.fdiv_min_belowSign valid inside, Shape.width_sub_min_belowSign valid] at quotient
  rw [lowered_eq valid narrow]
  refine ⟨eval_resigned environment (Shape.valid_max _ _) plain quotient ?_, shape_resigned plain⟩
  rw [eval, Shape.fdiv_min_belowSign valid inside, Binary.natCast_residue]
  exact congrArg (_ % (2 : Int) ^ ·) (Shape.width_sub_min_belowSign valid amount)

/-! ## Negative amounts -/

theorem shiftLeft_natCast (value : Value) (amount : Nat) :
    value.shiftLeft amount = value.raised amount := by
  rw [shiftLeft, if_neg (by omega), Int.toNat_natCast]

theorem shiftRight_natCast (value : Value) (amount : Nat) :
    value.shiftRight amount = value.lowered amount := by
  rw [shiftRight, if_neg (by omega)]

theorem raised_ne_lowered (value : Value) (up : Nat) (down : Int) :
    value.raised up ≠ value.lowered down := by
  intro same
  rw [raised, lowered] at same
  cases signed : value.shape.signed with
  | false =>
      rw [signed] at same
      cases same
  | true =>
      rw [signed] at same
      cases same

section Mirror

variable {position : Int}

theorem shiftLeft_neg (value : Value) (holds : Position.Holds position)
    (notLeast : position ≠ Position.min) (nonzero : position ≠ 0) :
    value.shiftLeft (-position) = value.shiftRight position := by
  rcases Int.lt_or_gt_of_ne nonzero with negative | positive
  · have held : Position.saturate (-position) = -position := (holds.neg notLeast).saturate_eq
    rw [shiftLeft, if_neg (by omega), shiftRight, if_pos negative, held]
  · rw [shiftLeft, if_pos (by omega), shiftRight, if_neg (by omega), Int.neg_neg,
      holds.saturate_eq]

theorem shiftLeft_neg_iff (value : Value) (holds : Position.Holds position)
    (notLeast : position ≠ Position.min) :
    value.shiftLeft (-position) = value.shiftRight position ↔ position ≠ 0 := by
  constructor
  · intro same zero
    subst zero
    exact raised_ne_lowered value 0 0 same
  · exact shiftLeft_neg value holds notLeast

theorem shiftRight_neg_iff (value : Value) (holds : Position.Holds position)
    (notLeast : position ≠ Position.min) :
    value.shiftRight (-position) = value.shiftLeft position ↔ position ≠ 0 := by
  have notLeastBack : -position ≠ Position.min := by
    have below := holds.2
    unfold Position.min
    omega
  have mirrored := shiftLeft_neg_iff value (holds.neg notLeast) notLeastBack
  rw [Int.neg_neg] at mirrored
  rw [eq_comm, mirrored, Ne, Int.neg_eq_zero]

end Mirror

/-- A shift by a constant gives exactly the product with a power of two, in a shape with so many
more bits, or exactly the quotient rounded down, in a shape with so many fewer bits, of which one
stays for the sign.  Shifts by an amount and by its negative mirror each other, except by zero. -/
theorem shifts_exact (environment : Environment) (value : Value) :
    (value.shape.Valid → value.eval environment ∈ value.shape →
      ∀ amount : Nat, value.width + amount < 2 ^ 63 →
        (value.shiftLeft amount).eval environment = value.eval environment * 2 ^ amount ∧
        (value.shiftLeft amount).shape = ⟨value.width + amount, value.shape.signed⟩ ∧
        (value.shiftRight amount).eval environment =
          (value.eval environment).fdiv (2 ^ amount) ∧
        (value.shiftRight amount).shape =
          ⟨max (value.width - amount) value.shape.signed.toNat, value.shape.signed⟩) ∧
    ∀ amount : Int, Position.Holds amount → amount ≠ Position.min →
      (value.shiftLeft (-amount) = value.shiftRight amount ↔ amount ≠ 0) ∧
      (value.shiftRight (-amount) = value.shiftLeft amount ↔ amount ≠ 0) := by
  constructor
  · intro valid inside amount narrow
    have few : value.width < 2 ^ 63 := by omega
    obtain ⟨product, wider⟩ := raised_spec environment valid inside amount
    obtain ⟨quotient, narrower⟩ := lowered_spec environment valid inside few amount
    rw [shiftLeft_natCast, shiftRight_natCast]
    exact ⟨product, wider, quotient, narrower⟩
  · intro amount holds notLeast
    exact ⟨shiftLeft_neg_iff value holds notLeast, shiftRight_neg_iff value holds notLeast⟩

/-- Minus three in three bits, shifted by two, and by nine past its sign bit. -/
theorem shifts_exact_minusThree :
    ((ofInt (-3)).shiftLeft 2).eval Environment.zero = -12 ∧
      ((ofInt (-3)).shiftLeft 2).shape = ⟨5, true⟩ ∧
      ((ofInt (-3)).shiftRight 9).eval Environment.zero = -1 ∧
      ((ofInt (-3)).shiftRight 9).shape = ⟨1, true⟩ ∧
      (ofInt (-3)).shiftLeft (-2) = (ofInt (-3)).shiftRight 2 := by
  obtain ⟨exact, mirror⟩ := shifts_exact Environment.zero (ofInt (-3))
  have byAmount := exact (Shape.valid_ofInt (-3)) (Shape.mem_ofInt (-3))
  obtain ⟨product, wider, -, -⟩ := byAmount 2 (by decide)
  obtain ⟨-, -, quotient, narrower⟩ := byAmount 9 (by decide)
  exact ⟨product, wider, quotient, narrower, (mirror 2 (by decide) (by decide)).1.mpr (by decide)⟩

/-- By zero, a shift to the left joins no zeros to the value, and one to the right is all of it. -/
theorem not_shiftLeft_neg_zero :
    nibble.shiftLeft (-0) ≠ nibble.shiftRight 0 ∧ nibble.shiftRight (-0) ≠ nibble.shiftLeft 0 :=
  ⟨raised_ne_lowered nibble 0 0, (raised_ne_lowered nibble 0 0).symm⟩

end Value

end Gateware
