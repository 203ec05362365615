import Gateware.Proofs.Value.Constructors
import Gateware.Proofs.Value.Operators

/-!
# Shapes hold what values stand for

In every environment the integer of a built value lies in the shape of the value.  The
proof follows the tree: each node takes integers of the shapes of its parts to an integer
of its own shape.
-/

set_option autoImplicit false

namespace Gateware.Value

variable (environment : Environment)

/-- One node: if the parts are in their shapes, so is the whole. -/
theorem eval_mem_of_children {value : Value} (valid : value.shape.Valid)
    (formed : value.Formed) (narrow : value.NarrowerThan (2 ^ 63))
    (childrenValid : ∀ child ∈ value.children, child.shape.Valid)
    (inside : ∀ child ∈ value.children, child.eval environment ∈ child.shape) :
    value.eval environment ∈ value.shape := by
  have room : value.shape.width < 2 ^ 63 := narrow.width_lt
  cases value with
  | const constant => exact formed
  | signal leaf => exact environment.signal_mem leaf
  | clock domain => exact environment.clock_mem domain
  | reset domain allowResetLess => exact environment.reset_mem domain allowResetLess
  | initial => exact environment.initial_mem
  | slice value start stop =>
      obtain ⟨ordered, inside⟩ := formed
      have sliced : value.width < 2 ^ 63 := (narrow.child List.mem_cons_self).width_lt
      rw [eval, shape, Width.between_eq ordered (by omega)]
      exact Shape.residue_mem _ _
  | part value offset width stride =>
      rw [eval, shape]
      exact Shape.residue_mem _ _
  | concat parts =>
      rw [eval, shape, totalWidth_eq_sum]
      exact Shape.mem_unsigned_natCast.mpr (joined_lt environment parts)
  | unary op operand =>
      have member : operand ∈ (Value.unary op operand).children := List.mem_cons_self
      rw [shape] at valid
      rw [eval, shape]
      exact op.apply_mem (childrenValid _ member) valid (inside _ member)
  | binary op left right =>
      have leftMember : left ∈ (Value.binary op left right).children := List.mem_cons_self
      have rightMember : right ∈ (Value.binary op left right).children := by simp [children]
      rw [shape] at room
      rw [eval, shape]
      exact op.apply_mem (childrenValid _ leftMember) (childrenValid _ rightMember) room
        (inside _ leftMember) (inside _ rightMember)
  | switch test cases =>
      have member (case : Keys × Value) (listed : case ∈ cases) :
          case.2 ∈ (Value.switch test cases).children :=
        List.mem_cons_of_mem _ (List.mem_map_of_mem listed)
      rw [eval, shape, caseShapes_eq_map]
      rcases chosen_cases environment (Binary.digits (test.eval environment) test.width) cases
        with zero | ⟨case, listed, same⟩
      · rw [zero]
        exact Shape.zero_mem
      · rw [same]
        exact Shape.mem_unify (List.mem_map_of_mem listed) (inside _ (member case listed))

theorem WellFormed.eval_mem {value : Value} (wellFormed : value.WellFormed)
    (narrow : value.NarrowerThan (2 ^ 63)) : value.eval environment ∈ value.shape := by
  induction wellFormed with
  | node here below ih =>
      apply eval_mem_of_children environment here.1 here.2 narrow
      · intro child member
        exact (below child member).here.1
      · intro child member
        exact ih child member (narrow.child member)

/-- The integer of a built value lies in its shape: no operator loses a bit. -/
theorem eval_mem_shape {value : Value} (built : value.Built)
    (narrow : value.NarrowerThan (2 ^ 63)) : value.eval environment ∈ value.shape :=
  (built.trusted.1 narrow).eval_mem environment narrow

/-- Fifteen times minus three takes seven bits. -/
theorem product_mem_shape :
    (binary .multiply nibble (ofInt (-3))).eval
        (Environment.zero.withSignal ⟨0, "v", Shape.unsigned 4⟩ 15 (by decide)) = -45 ∧
      (-45 : Int) ∈ (⟨7, true⟩ : Shape) := by
  have built : (binary .multiply nibble (ofInt (-3))).Built := by
    have made : combine .multiply nibble (ofInt (-3)) =
        .ok (binary .multiply nibble (ofInt (-3))) := rfl
    exact building_built.combine built_nibble (building_built.ofInt (-3)) made
  have narrow : (binary .multiply nibble (ofInt (-3))).NarrowerThan (2 ^ 63) := by
    apply narrow_iff.mpr
    refine ⟨by decide, ?_⟩
    simp only [children, List.forall_mem_cons]
    exact ⟨narrow_nibble, narrow_iff.mpr ⟨by decide, by simp [ofInt, children]⟩, by simp⟩
  refine ⟨by decide, ?_⟩
  exact eval_mem_shape (Environment.zero.withSignal ⟨0, "v", Shape.unsigned 4⟩ 15 (by decide))
    built narrow

end Gateware.Value
