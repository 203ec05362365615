import Gateware.Proofs.Design.Reading
import Gateware.Signal.Plan

/-!
# The shape of a lookup

The shape of a lookup unifies all elements of its bank, and the switch that it stands for
those that the index reaches.  They are the same shape if the index reaches every element.
-/

set_option autoImplicit false

namespace Gateware.Design

variable (design : Design)

theorem lookupShape_eq_map (lookup : Lookup) :
    design.lookupShape lookup =
      ((design.elements lookup.bank).mapM design.elementValue).map fun values =>
        Shape.unify (values.map Value.shape) := by
  rw [lookupShape]
  cases (design.elements lookup.bank).mapM design.elementValue <;> rfl

theorem map_shape_lookupValue (lookup : Lookup) :
    (design.lookupValue lookup).map Value.shape =
      (((design.elements lookup.bank).take (reach lookup.index.width)).mapM
        design.elementValue).map fun values => Shape.unify (values.map Value.shape) := by
  rw [lookupValue_eq]
  cases ((design.elements lookup.bank).take (reach lookup.index.width)).mapM
      design.elementValue with
  | error fault => rfl
  | ok values => exact congrArg Except.ok (shape_switch_keyed lookup.index _ values)

private theorem runIn_like {session : Session} {operand : Operand} {spec : ShapeSpec}
    (notSignal : ∀ leaf, operand ≠ .value (.signal leaf))
    (found : session.design.operandShape operand = .ok spec) :
    Build.runIn session (Signal.Plan.like operand) =
      (.ok { spec, name := "$like" }, session) := by
  have general : Signal.Plan.like operand = (do
      let design ← Build.design
      return { spec := ← Build.ofExcept (design.operandShape operand), name := "$like" }) := by
    unfold Signal.Plan.like
    congr 1
    funext design
    split
    · rename_i leaf
      exact absurd rfl (notSignal leaf)
    · rfl
  rw [general, Build.runIn_bind, Build.runIn_design]
  dsimp only
  rw [Build.runIn_bind, Build.runIn_ofExcept, found]
  rfl

/-- A lookup whose index reaches every element has the shape of the switch that it stands for,
also where a format asks for it, and a signal like the one is a signal like the other. -/
theorem lookupShape_eq_shape_of_reached {lookup : Lookup}
    (reached : (design.elements lookup.bank).length ≤ reach lookup.index.width) :
    design.lookupShape lookup = (design.lookupValue lookup).map Value.shape ∧
      design.operandShape (.lookup lookup) =
        (design.cast (.lookup lookup)).map (fun value => .shape value.shape) ∧
      ∀ session value, session.design = design → design.lookupValue lookup = .ok value →
        Build.runIn session (Signal.Plan.like (.lookup lookup)) =
          Build.runIn session (Signal.Plan.like (.value value)) := by
  have same : design.lookupShape lookup = (design.lookupValue lookup).map Value.shape := by
    rw [map_shape_lookupValue, List.take_of_length_le reached, lookupShape_eq_map]
  have spec : design.operandShape (.lookup lookup) =
      (design.cast (.lookup lookup)).map (fun value => .shape value.shape) := by
    rw [operandShape, same, cast_lookup]
    cases design.lookupValue lookup <;> rfl
  refine ⟨same, spec, ?_⟩
  rintro session value rfl found
  have operandSpec : session.design.operandShape (.lookup lookup) = .ok (.shape value.shape) := by
    rw [spec, cast_lookup, found]
    rfl
  have valueSpec : session.design.operandShape (.value value) = .ok (.shape value.shape) := by
    rw [operandShape, cast_value]
    · rfl
    · simp
    · simp
  obtain ⟨values, _, rfl⟩ := session.design.lookupValue_eq_ok.mp found
  rw [runIn_like (by simp) operandSpec, runIn_like (by simp) valueSpec]

def pointer : Value := .signal ⟨0, "i", Shape.unsigned 1⟩

def nestedLookup : Design where
  banks := #[{ elements := [.int 1, .int 2] },
    { elements := [.lookup ⟨0, pointer⟩, .int (-3)] }]

def threeNumbers : Design where
  banks := #[{ elements := [.int 1, .int 2, .int 300] }]

/-- Two unsigned bits beside a signed number of three bits. -/
theorem lookupShape_nestedLookup :
    (nestedLookup.elements 1).length ≤ reach pointer.width ∧
      nestedLookup.lookupShape ⟨1, pointer⟩ = .ok ⟨3, true⟩ ∧
      (nestedLookup.lookupValue ⟨1, pointer⟩).map Value.shape = .ok ⟨3, true⟩ := by
  have reached : (nestedLookup.elements 1).length ≤ reach pointer.width := by decide
  have same := (@lookupShape_eq_shape_of_reached nestedLookup ⟨1, pointer⟩ reached).1
  have shape : nestedLookup.lookupShape ⟨1, pointer⟩ = .ok ⟨3, true⟩ := by rfl
  exact ⟨reached, shape, same ▸ shape⟩

/-- One bit does not reach the third of three numbers: the switch takes two bits, the shape of
the lookup nine. -/
theorem lookupShape_ne_threeNumbers :
    threeNumbers.lookupShape ⟨0, pointer⟩ = .ok ⟨9, false⟩ ∧
      (threeNumbers.lookupValue ⟨0, pointer⟩).map Value.shape = .ok ⟨2, false⟩ ∧
      ¬ ∀ (design : Design) (lookup : Lookup),
        design.lookupShape lookup = (design.lookupValue lookup).map Value.shape := by
  have wide : threeNumbers.lookupShape ⟨0, pointer⟩ = .ok ⟨9, false⟩ := by rfl
  have narrow : (threeNumbers.lookupValue ⟨0, pointer⟩).map Value.shape = .ok ⟨2, false⟩ := by
    rfl
  refine ⟨wide, narrow, ?_⟩
  intro same
  have equal := same threeNumbers ⟨0, pointer⟩
  rw [wide, narrow] at equal
  cases equal

end Gateware.Design
