import Mathlib.Data.Int.ModEq
import Gateware.Proofs.Value.Constructors

/-!
# Canonical constants

Among the integers of one residue, a valid shape has exactly one, and a constant of the shape
carries it.  This is so in whatever way the constant was made, so that a constant is told by its
shape and its bits.
-/

set_option autoImplicit false

namespace Gateware

namespace Shape

variable {shape : Shape} {left right value payload : Int}

theorem fit_congr (same : left ≡ right [ZMOD 2 ^ shape.width]) :
    shape.fit left = shape.fit right := by
  have residues : left % 2 ^ shape.width = right % 2 ^ shape.width := same
  simp only [fit, residues]

theorem fit_fit : shape.fit (shape.fit value) = shape.fit value :=
  fit_congr (fit_emod shape value)

theorem eq_fit_iff (valid : shape.Valid) :
    payload = shape.fit value ↔ payload ∈ shape ∧ payload ≡ value [ZMOD 2 ^ shape.width] := by
  constructor
  · rintro rfl
    exact ⟨fit_mem valid value, fit_emod shape value⟩
  · rintro ⟨inside, congruent⟩
    calc payload = shape.fit payload := (fit_eq_self valid inside).symm
      _ = shape.fit value := fit_congr congruent

end Shape

namespace Const

/-- A constant that carries the integer which its shape reads from its bits. -/
def Canonical (constant : Const) : Prop := constant.shape.fit constant.value = constant.value

/-- A constant that constructors return: for an integer, for an integer in a shape or in a
specification of one, and for an operand that is cast, of values that constructors return. -/
inductive Made : Const → Prop where
  | ofInt (number : Int) : Made (ofInt number)
  | fit (number : Int) (shape : Shape) : Made (fit number shape)
  | make {session after : Session} {number : Int} {spec : ShapeSpec} {constant : Const} :
      Build.Gives (make number spec) session constant after → Made constant
  | cast {design : Design} {operand : Operand} {constant : Const} :
      design.Holds Value.Built → operand.Holds Value.Built →
      design.castConst operand = .ok constant → Made constant

variable {constant left right : Const}

/-! ## Ways to make a constant -/

theorem canonical_fit (number : Int) (shape : Shape) : (fit number shape).Canonical :=
  Shape.fit_fit

theorem WellFormed.canonical (wellFormed : constant.WellFormed) : constant.Canonical :=
  Shape.fit_eq_self wellFormed.1 wellFormed.2

theorem exists_fit_of_make {session after : Session} {number : Int} {spec : ShapeSpec}
    (run : Build.Gives (make number spec) session constant after) :
    ∃ shape, constant = fit number shape := by
  unfold make at run
  cases spec with
  | range range =>
      dsimp only at run
      split at run
      · obtain ⟨_, _, _, rest⟩ := Build.gives_bind.mp run
        exact ⟨_, (Build.gives_pure.mp rest).1.symm⟩
      · exact ⟨_, (Build.gives_pure.mp run).1.symm⟩
  | _ =>
      obtain ⟨shape, _, _, rest⟩ := Build.gives_bind.mp run
      exact ⟨shape, (Build.gives_pure.mp rest).1.symm⟩

theorem wellFormed_of_built (built : (Value.const constant).Built) : constant.WellFormed :=
  built.trusted.2 constant rfl

theorem wellFormed_of_castConst {design : Design} {operand : Operand}
    (stands : design.Holds Value.Built) (given : operand.Holds Value.Built)
    (found : design.castConst operand = .ok constant) : constant.WellFormed := by
  obtain ⟨value, cast, folds⟩ := bind_eq_ok.mp found
  have built : value.Built := Value.building_built.cast stands given cast
  unfold Value.toConst at folds
  split at folds
  · rename_i folded foldsTo
    cases folds
    exact wellFormed_of_built (Value.building_built.folded built foldsTo)
  · cases folds

theorem Made.canonical (made : constant.Made) : constant.Canonical := by
  cases made with
  | ofInt number => exact (wellFormed_ofInt number).canonical
  | fit number shape => exact canonical_fit number shape
  | make run =>
      obtain ⟨shape, rfl⟩ := exists_fit_of_make run
      exact canonical_fit _ shape
  | cast stands given found => exact (wellFormed_of_castConst stands given found).canonical

/-! ## Shape and bits -/

theorem natCast_bits (constant : Const) : (constant.bits : Int) = constant.value % 2 ^ constant.width :=
  Binary.natCast_residue constant.value constant.width

theorem Canonical.eq_iff (leftCanonical : left.Canonical) (rightCanonical : right.Canonical) :
    left = right ↔ left.shape = right.shape ∧ left.bits = right.bits := by
  constructor
  · rintro rfl
    exact ⟨rfl, rfl⟩
  · rintro ⟨sameShape, sameBits⟩
    obtain ⟨value, shape⟩ := left
    obtain ⟨other, _⟩ := right
    cases sameShape
    have congruent : value % 2 ^ shape.width = other % 2 ^ shape.width :=
      calc value % 2 ^ shape.width = bits ⟨value, shape⟩ := (natCast_bits ⟨value, shape⟩).symm
        _ = bits ⟨other, shape⟩ := congrArg Nat.cast sameBits
        _ = other % 2 ^ shape.width := natCast_bits ⟨other, shape⟩
    have sameValue : value = other :=
      calc value = shape.fit value := leftCanonical.symm
        _ = shape.fit other := Shape.fit_congr congruent
        _ = other := rightCanonical
    rw [sameValue]

/-- A constant of a valid shape carries the one integer of the shape that has the residue of the
integer which it was made for, and its bits are that residue.  Constants that were made in any way
are equal exactly if their shapes and their bits are. -/
theorem constants_canonical :
    (∀ (value : Int) (shape : Shape), shape.Valid →
      (fit value shape).shape = shape ∧
      (∀ payload : Int, payload = (fit value shape).value ↔
        payload ∈ shape ∧ payload ≡ value [ZMOD 2 ^ shape.width]) ∧
      (fit value shape).bits < 2 ^ shape.width ∧
      ((fit value shape).bits : Int) = value % 2 ^ shape.width) ∧
    ∀ left right : Const, left.Made → right.Made →
      (left = right ↔ left.shape = right.shape ∧ left.bits = right.bits) := by
  refine ⟨fun value shape valid => ⟨rfl, fun payload => Shape.eq_fit_iff valid, ?_, ?_⟩, ?_⟩
  · exact Binary.residue_lt _ _
  · exact (natCast_bits _).trans (Shape.fit_emod shape value)
  · exact fun left right leftMade rightMade => leftMade.canonical.eq_iff rightMade.canonical

/-- One above two bits of two, which are the bits of five. -/
def oneAndTwo : Value := .concat [.ofInt 1, .ofInt 2]

theorem constants_canonical_five :
    (⟨3, true⟩ : Shape).Valid ∧ (-3 : Int) = (fit 13 ⟨3, true⟩).value ∧
      (fit 5 (Shape.unsigned 3)).Made ∧
      ∃ joined, Design.castConst {} (.value oneAndTwo) = .ok joined ∧ joined.Made ∧
        fit 5 (Shape.unsigned 3) = joined := by
  have valid : (⟨3, true⟩ : Shape).Valid := by decide
  have built : oneAndTwo.Built := by
    apply Value.building_built.concat
    simp only [List.forall_mem_cons]
    exact ⟨Value.building_built.ofInt 1, Value.building_built.ofInt 2, by simp⟩
  have stands : (({} : Design)).Holds Value.Built := by constructor <;> simp
  have found : Design.castConst {} (.value oneAndTwo) = .ok ⟨5, Shape.unsigned 3⟩ := rfl
  have given : (Operand.value oneAndTwo).Holds Value.Built := built
  have joined : Made ⟨5, Shape.unsigned 3⟩ := .cast stands given found
  obtain ⟨payloads, told⟩ := constants_canonical
  refine ⟨valid, ?_, .fit 5 _, _, found, joined, ?_⟩
  · exact ((payloads 13 ⟨3, true⟩ valid).2.1 (-3)).mpr ⟨by decide, by decide⟩
  · exact (told _ _ (.fit 5 _) joined).mpr ⟨rfl, by decide⟩

end Const

end Gateware
