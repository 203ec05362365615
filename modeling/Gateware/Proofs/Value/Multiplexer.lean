import Gateware.Proofs.Bank.Nesting
import Gateware.Proofs.Shape.Unify
import Gateware.Proofs.Value.Held
import Gateware.Proofs.Value.Operators
import Gateware.Value.Operators

/-!
# Multiplexers and magnitudes

A multiplexer stands for the branch that its selector chooses.  Its shape holds the integers of
both branches where it is found in words, and overflows where the sign of one leaves no room for
the other.  A magnitude is cut out of a multiplexer between a value and its opposite, and needs no
more bits than the value.
-/

set_option autoImplicit false

namespace Gateware

namespace Shape

variable {shape : Shape} {value : Int}

theorem abs_mem_unsigned (valid : shape.Valid) (inside : value ∈ shape) :
    |value| ∈ unsigned shape.width := by
  rw [unsigned, mem_unsigned]
  refine ⟨abs_nonneg value, ?_⟩
  obtain ⟨width, rfl⟩ | ⟨width, rfl⟩ := valid.cases
  · obtain ⟨lower, upper⟩ := mem_unsigned.mp inside
    rwa [abs_of_nonneg lower]
  · obtain ⟨lower, upper⟩ := mem_signed.mp inside
    have positive : (0 : Int) < 2 ^ width := Binary.two_pow_pos width
    dsimp only
    rw [abs_lt, Int.pow_succ]
    exact ⟨by omega, by omega⟩

end Shape

namespace Value

variable (environment : Environment) {selector otherwise whenZero value : Value}

/-! ## Multiplexers -/

theorem accept_zeros_iff (valid : selector.shape.Valid)
    (inside : selector.eval environment ∈ selector.shape) :
    Keys.accept (some [Binary.text 0 selector.width])
        (Binary.digits (selector.eval environment) selector.width) = true ↔
      selector.eval environment = 0 := by
  rw [Keys.accept, List.any_cons, List.any_nil, Bool.or_false, Binary.text, String.toList_ofList,
    width, covers_digits_digits_iff valid Shape.zero_mem inside]

theorem eval_mux (valid : selector.shape.Valid)
    (inside : selector.eval environment ∈ selector.shape) :
    (mux selector otherwise whenZero).eval environment =
      if selector.eval environment = 0 then whenZero.eval environment
      else otherwise.eval environment := by
  have zeros := accept_zeros_iff environment valid inside
  rw [mux, eval, chosen, chosen]
  by_cases zero : selector.eval environment = 0
  · rw [if_pos (zeros.mpr zero), if_pos zero]
  · rw [if_neg (zeros.not.mpr zero), if_neg zero, Keys.accept, if_pos rfl]

theorem width_mux_le_iff (otherwiseHeld : otherwise.Held) (whenZeroHeld : whenZero.Held) :
    (mux selector otherwise whenZero).width ≤ Width.max ↔
      Shape.Paddable [whenZero.shape, otherwise.shape] := by
  have inWord : ∀ shape ∈ [whenZero.shape, otherwise.shape], shape.width ≤ Width.max := by
    simp only [List.forall_mem_cons]
    exact ⟨(held_iff.mp whenZeroHeld).1, (held_iff.mp otherwiseHeld).1, nofun⟩
  exact Shape.width_unify_le_iff inWord

theorem within_of_shape?_mux {found : Shape}
    (run : (mux selector otherwise whenZero).shape? = .ok found) :
    otherwise.shape.Within found ∧ whenZero.shape.Within found := by
  rw [eq_shape_of_shape? run]
  exact ⟨fun _ inside => Shape.mem_unify (by simp [caseShapes]) inside,
    fun _ inside => Shape.mem_unify (by simp [caseShapes]) inside⟩

/-- The shape of a multiplexer is found exactly if those of its branches are, with room for the
sign that an unsigned branch gets beside a signed one. -/
theorem held_mux_iff :
    (mux selector otherwise whenZero).Held ↔
      otherwise.Held ∧ whenZero.Held ∧ Shape.Paddable [whenZero.shape, otherwise.shape] := by
  have branches : (∀ child ∈ (mux selector otherwise whenZero).shapers, child.Held) ↔
      whenZero.Held ∧ otherwise.Held := by
    simp [mux, shapers]
  rw [held_iff, branches]
  constructor
  · rintro ⟨fits, zeroHeld, otherHeld⟩
    exact ⟨otherHeld, zeroHeld, (width_mux_le_iff otherHeld zeroHeld).mp fits⟩
  · rintro ⟨otherHeld, zeroHeld, paddable⟩
    exact ⟨(width_mux_le_iff otherHeld zeroHeld).mpr paddable, zeroHeld, otherHeld⟩

/-! ## Magnitudes -/

theorem eval_atLeastZero (value : Value) :
    (Value.binary .greaterEqual value (ofInt 0)).eval environment =
      truthValue (0 ≤ value.eval environment) :=
  rfl

/-- The multiplexer that a magnitude is cut out of stands for the magnitude already. -/
theorem eval_mux_negate (value : Value) :
    (mux (.binary .greaterEqual value (ofInt 0)) value (.unary .negate value)).eval environment =
      |value.eval environment| := by
  have bit : (Value.binary .greaterEqual value (ofInt 0)).shape = Shape.bit := rfl
  have inside : (Value.binary .greaterEqual value (ofInt 0)).eval environment ∈
      (Value.binary .greaterEqual value (ofInt 0)).shape := by
    rw [bit, eval_atLeastZero]
    exact Shape.bit_mem _
  rw [eval_mux environment (bit ▸ Shape.valid_unsigned 1) inside, eval_atLeastZero]
  rcases Int.lt_or_le (value.eval environment) 0 with negative | notNegative
  · rw [abs_of_neg negative, if_pos (by simp [truthValue, negative])]
    rfl
  · rw [abs_of_nonneg notNegative, if_neg (by simp [truthValue, notNegative])]

theorem abs_of_unsigned (unsigned : value.shape.signed = false) : value.abs = value := by
  rw [abs, unsigned]
  rfl

theorem abs_of_signed (signed : value.shape.signed = true) :
    value.abs =
      .slice (mux (.binary .greaterEqual value (ofInt 0)) value (.unary .negate value)) 0
        value.width := by
  rw [abs, signed, if_pos rfl]

theorem shape_abs (fits : value.width < 2 ^ 64) :
    value.abs.shape = Shape.unsigned value.width := by
  cases signed : value.shape.signed with
  | false =>
      rw [abs_of_unsigned signed, Shape.unsigned, ← signed]
      rfl
  | true =>
      rw [abs_of_signed signed, shape, Width.between_eq (Nat.zero_le _) fits, Nat.sub_zero]

theorem eval_abs (valid : value.shape.Valid) (inside : value.eval environment ∈ value.shape) :
    value.abs.eval environment = |value.eval environment| := by
  cases signed : value.shape.signed with
  | false =>
      have notNegative : 0 ≤ value.eval environment := by
        by_contra negative
        rw [Shape.signed_of_neg_mem inside (Int.not_le.mp negative)] at signed
        cases signed
      rw [abs_of_unsigned signed, abs_of_nonneg notNegative]
  | true =>
      obtain ⟨lower, upper⟩ := Shape.mem_unsigned.mp (Shape.abs_mem_unsigned valid inside)
      rw [abs_of_signed signed, eval, eval_mux_negate, Nat.sub_zero, Binary.natCast_residue,
        pow_zero, Int.fdiv_one]
      exact Int.emod_eq_of_lt lower upper

/-- A multiplexer stands for one branch where its selector is zero and for the other one elsewhere.
The shape that it is found to have loses nothing of either, and is found exactly if both branches
have one and there is room for a sign.  The magnitude of a value is exact, and fits the width of the
value. -/
theorem mux_abs_exact (environment : Environment) :
    (∀ selector otherwise whenZero : Value, selector.shape.Valid →
      selector.eval environment ∈ selector.shape →
      (mux selector otherwise whenZero).eval environment =
        if selector.eval environment = 0 then whenZero.eval environment
        else otherwise.eval environment) ∧
    (∀ selector otherwise whenZero : Value,
      (∀ found, (mux selector otherwise whenZero).shape? = .ok found →
        otherwise.shape.Within found ∧ whenZero.shape.Within found) ∧
      ((∃ found, (mux selector otherwise whenZero).shape? = .ok found) ↔
        otherwise.Held ∧ whenZero.Held ∧ Shape.Paddable [whenZero.shape, otherwise.shape]) ∧
      ((mux selector otherwise whenZero).shape? = .error .overflow ↔
        ¬ (otherwise.Held ∧ whenZero.Held ∧
          Shape.Paddable [whenZero.shape, otherwise.shape]))) ∧
    ∀ value : Value, value.shape.Valid → value.width < 2 ^ 64 →
      value.eval environment ∈ value.shape →
      value.abs.eval environment = |value.eval environment| ∧
        value.abs.shape = Shape.unsigned value.width ∧
        value.abs.eval environment ∈ value.abs.shape := by
  refine ⟨fun _ _ _ => eval_mux environment, ?_, ?_⟩
  · intro selector otherwise whenZero
    refine ⟨fun _ => within_of_shape?_mux, ?_, ?_⟩
    · rw [exists_shape?_iff, held_mux_iff]
    · rw [← not_held_iff, held_mux_iff]
  · intro value valid fits inside
    have exact := eval_abs environment valid inside
    have shape := shape_abs fits
    refine ⟨exact, shape, ?_⟩
    rw [exact, shape]
    exact Shape.abs_mem_unsigned valid inside

/-- A choice by no bits at all and one by a negative number, between minus four in three bits and
five, and the magnitude of minus four. -/
theorem mux_abs_exact_minusFour :
    (mux (.const ⟨0, Shape.unsigned 0⟩) (ofInt 5) (ofInt (-4))).eval Environment.zero = -4 ∧
      (mux (ofInt (-1)) (ofInt 5) (ofInt (-4))).eval Environment.zero = 5 ∧
      (∃ found, (mux (ofInt (-1)) (ofInt 5) (ofInt (-4))).shape? = .ok found ∧
        (ofInt 5).shape.Within found) ∧
      (ofInt (-4)).abs.eval Environment.zero = 4 ∧
      (ofInt (-4)).abs.shape = Shape.unsigned 3 := by
  obtain ⟨chooses, holds, magnitude⟩ := mux_abs_exact Environment.zero
  have minusFour := Shape.valid_ofInt (-4)
  have room : Shape.Paddable [(ofInt (-4)).shape, (ofInt 5).shape] := by
    intro _
    simp only [List.forall_mem_cons]
    exact ⟨nofun, fun _ => by decide, nofun⟩
  obtain ⟨exact, shape, -⟩ := magnitude (ofInt (-4)) minusFour (by decide) (Shape.mem_ofInt (-4))
  obtain ⟨above, held, -⟩ := holds (ofInt (-1)) (ofInt 5) (ofInt (-4))
  obtain ⟨found, run⟩ := held.mpr ⟨rfl, rfl, room⟩
  exact ⟨chooses _ _ _ (Shape.valid_unsigned 0) Shape.zero_mem,
    chooses _ _ _ (Shape.valid_ofInt (-1)) (Shape.mem_ofInt (-1)),
    ⟨found, run, (above found run).1⟩, exact, shape⟩

open Bank (shifted shiftedOne) in
/-- Beside a signed bit, a shifted number leaves no room for a sign. -/
theorem overflows_mux_shifted :
    ∃ selector whenZero environment, (selector : Value).eval environment = 1 ∧
      shifted.eval environment = 1 ∧
      (mux selector shifted whenZero).eval environment = 1 ∧
      (mux selector shifted whenZero).shape = ⟨2 ^ 64, true⟩ ∧
      (mux selector shifted whenZero).shape? = .error .overflow :=
  ⟨.signal ⟨3, "c", Shape.unsigned 1⟩, .signal ⟨2, "s", ⟨1, true⟩⟩,
    shiftedOne.withSignal ⟨3, "c", Shape.unsigned 1⟩ 1 (by decide), rfl, rfl, rfl, rfl, rfl⟩

end Value

end Gateware
