import Mathlib.Algebra.Order.BigOperators.Group.List
import Gateware.Proofs.Selected
import Gateware.Proofs.Value.Constructors
import Gateware.Proofs.Value.Held
import Gateware.Proofs.Value.Operators

/-!
# Widths in a word

The width of a node is inferred by sums of words.  No sum overflows as long as no width, counted
without a bound, is too large for a word, and no node is wider than the bits that its tree brings
with it.  A shift left by a value saturates, so a width may be as large as a word can be, and then
it is no position.  Below that a bit is found exactly at the places of the value.
-/

set_option autoImplicit false

namespace Gateware

/-- The most bits by which an operator is wider than its operands together. -/
def BinaryOp.growth (op : BinaryOp) (amount : Nat) : Nat :=
  match op with
  | .shiftLeft => 2 ^ amount - 1
  | _ => 2

namespace Value

mutual

/-- The bits that the nodes of a tree bring with them: those of its leaves and of what it selects,
for each operator and switch a bit or two, for a shift left as many as it may shift by. -/
def weight : Value → Nat
  | .const constant => constant.shape.width
  | .signal leaf => leaf.shape.width
  | .clock _ | .reset _ _ | .initial => 1
  | .slice value start stop => value.weight + Width.between start stop
  | .part value offset width _ => value.weight + offset.weight + width
  | .concat parts => totalWeight parts
  | .unary _ operand => operand.weight + 1
  | .binary op left right =>
      left.weight + right.weight + op.growth right.shape.width
  | .switch test cases => test.weight + caseWeight cases + 1

def totalWeight : List Value → Nat
  | [] => 0
  | value :: rest => value.weight + totalWeight rest

def caseWeight : List (Keys × Value) → Nat
  | [] => 0
  | (_, value) :: rest => value.weight + caseWeight rest

end

end Value

/-! ## One node -/

theorem Shape.width_unify_le_sum (shapes : List Shape) :
    (unify shapes).width ≤ (shapes.map width).sum + 1 :=
  width_unify_le fun _ listed => List.le_sum_of_mem (List.mem_map_of_mem listed)

theorem UnaryOp.width_shape_le {op : UnaryOp} {operand : Shape} :
    (op.shape operand).width ≤ operand.width + 1 := by
  cases op <;> simp [shape, Shape.withSigned, Shape.bit]

theorem BinaryOp.width_shape_le {op : BinaryOp} {left right : Shape} :
    (op.shape left right).width ≤ left.width + right.width + op.growth right.width := by
  have unified : (Shape.unify [left, right]).width ≤ left.width + right.width + 1 := by
    simpa using Shape.width_unify_le_sum [left, right]
  have signBit : right.signed.toNat ≤ 1 := Bool.toNat_le _
  cases op with
  | add | subtract => exact Nat.succ_le_succ unified
  | multiply => exact Nat.le_add_right _ _
  | divide =>
      simp only [shape, growth]
      omega
  | modulo => exact (Nat.le_add_left _ _).trans (Nat.le_add_right _ _)
  | and | or | xor => exact Nat.le_succ_of_le unified
  | shiftLeft =>
      have held := Nat.min_le_left (left.width + (2 ^ right.width - 1)) Width.max
      simp only [shape, addSaturating_longestShift]
      exact held.trans (Nat.add_le_add_right (Nat.le_add_right _ _) _)
  | shiftRight => exact (Nat.le_add_right _ _).trans (Nat.le_add_right _ _)
  | equal | unequal | less | lessEqual | greater | greaterEqual =>
      exact Nat.le_add_left 1 (left.width + right.width + 1)

namespace Value

/-! ## The weight of a tree -/

theorem totalWeight_eq_sum (parts : List Value) :
    totalWeight parts = (parts.map weight).sum := by
  induction parts with
  | nil => rfl
  | cons part rest ih => rw [totalWeight, ih, List.map_cons, List.sum_cons]

theorem caseWeight_eq_sum (cases : List (Keys × Value)) :
    caseWeight cases = ((cases.map Prod.snd).map weight).sum := by
  induction cases with
  | nil => rfl
  | cons case rest ih => rw [caseWeight, ih, List.map_cons, List.map_cons, List.sum_cons]

theorem weight_child_le {value child : Value} (member : child ∈ value.children) :
    child.weight ≤ value.weight := by
  cases value with
  | concat parts =>
      rw [weight, totalWeight_eq_sum]
      exact List.le_sum_of_mem (List.mem_map_of_mem member)
  | switch test cases =>
      rw [weight, caseWeight_eq_sum]
      rcases List.mem_cons.mp member with rfl | listed
      · omega
      · have inside : child.weight ≤ ((cases.map Prod.snd).map weight).sum :=
          List.le_sum_of_mem (List.mem_map_of_mem listed)
        omega
  | slice value start stop =>
      rw [List.mem_singleton.mp member, weight]
      omega
  | unary op operand =>
      rw [List.mem_singleton.mp member, weight]
      omega
  | part value offset width stride =>
      rw [weight]
      simp only [children, List.mem_cons, List.not_mem_nil, or_false] at member
      rcases member with rfl | rfl <;> omega
  | binary op left right =>
      rw [weight]
      simp only [children, List.mem_cons, List.not_mem_nil, or_false] at member
      rcases member with rfl | rfl <;> omega
  | _ => cases member

theorem width_le_weight_of_children {value : Value}
    (below : ∀ child ∈ value.children, child.width ≤ child.weight) :
    value.width ≤ value.weight := by
  cases value with
  | const constant => exact Nat.le_refl _
  | signal leaf => exact Nat.le_refl _
  | clock domain => exact Nat.le_refl _
  | reset domain allowResetLess => exact Nat.le_refl _
  | initial => exact Nat.le_refl _
  | slice value start stop => exact Nat.le_add_left _ _
  | part value offset width stride => exact Nat.le_add_left _ _
  | concat parts =>
      rw [weight, totalWeight_eq_sum, width_concat]
      exact List.sum_le_sum below
  | unary op operand =>
      have inside := below operand List.mem_cons_self
      rw [weight, width, shape]
      exact UnaryOp.width_shape_le.trans (Nat.succ_le_succ inside)
  | binary op left right =>
      have leftInside := below left List.mem_cons_self
      have rightInside := below right (by simp [children])
      rw [weight, width, shape]
      exact BinaryOp.width_shape_le.trans
        (Nat.add_le_add_right (Nat.add_le_add leftInside rightInside) _)
  | switch test cases =>
      have inside : ((cases.map Prod.snd).map width).sum ≤
          ((cases.map Prod.snd).map weight).sum :=
        List.sum_le_sum fun value listed => below value (List.mem_cons_of_mem _ listed)
      have wide : (Shape.unify (caseShapes cases)).width ≤
          ((caseShapes cases).map Shape.width).sum + 1 := Shape.width_unify_le_sum _
      have same : (caseShapes cases).map Shape.width = (cases.map Prod.snd).map width := by
        rw [caseShapes_eq_map, List.map_map, List.map_map]
        rfl
      rw [same] at wide
      rw [weight, caseWeight_eq_sum, width, shape]
      omega

/-- No node is wider than what the tree weighs. -/
theorem every_width_lt {value : Value} {limit : Nat} (light : value.weight < limit) :
    value.NarrowerThan limit := by
  have heavy (value : Value) : value.width ≤ value.weight := by
    induction value.tree with
    | node _ _ ih => exact width_le_weight_of_children ih
  induction value.tree with
  | node _ _ ih =>
      exact .node (Nat.lt_of_le_of_lt (heavy _) light) fun child member =>
        ih child member (Nat.lt_of_le_of_lt (weight_child_le member) light)

/-! ## Bits -/

theorem bit_eq {value : Value} {position : Int} (narrow : value.width < 2 ^ 63) :
    value.bit position =
      if -(value.width : Int) ≤ position ∧ position < value.width then
        .ok (.slice value (Picked.counted value.width position).toNat
          ((Picked.counted value.width position).toNat + 1))
      else .error (.bitIndex position value.width .value) := by
  rw [bit, Picked.bit_eq_ite narrow]
  split
  · rename_i inside
    have placed := Picked.toWidth_place narrow inside.1 (by omega)
    have low : Position.toWidth (Picked.place value.width position) =
        (Picked.counted value.width position).toNat := by
      omega
    rw [low, Except.map]
  · rfl

/-- The shape of every node is found in words, without a sum that overflows, exactly if no width,
counted without a bound, leaves the word; and every width is one of a position if the tree weighs
less than those.  A bit of a value of such a width is found exactly at its places. -/
theorem widths_fit (value : Value) :
    (value.Every (fun node => node.width < 2 ^ 64) ↔
      value.Every fun node => node.shape? = .ok node.shape) ∧
    (value.weight < 2 ^ 63 →
      value.Every fun node => node.shape? = .ok node.shape ∧ node.width < 2 ^ 63) ∧
    (value.width < 2 ^ 63 →
      Position.ofWidth value.width = value.width ∧
      ∀ position : Int, (∃ picked, value.bit position = .ok picked) ↔
        -(value.width : Int) ≤ position ∧ position < value.width) := by
  have found : value.Every (fun node => node.width < 2 ^ 64) ↔ value.Every Held :=
    Iff.trans ⟨Every.imp fun _ => Nat.le_pred_of_lt, Every.imp fun _ => Nat.lt_succ_of_le⟩
      every_held_iff.symm
  refine ⟨found, fun light => ?_, fun narrow => ?_⟩
  · have narrow := every_width_lt light
    have held := found.mp (narrow.imp fun _ small => Nat.lt_trans small (by decide))
    exact held.and narrow
  · refine ⟨Position.ofWidth_eq narrow, fun position => ?_⟩
    rw [bit_eq narrow]
    split <;> simp [*]

/-- A number shifted by as much as it says, which makes at most nineteen bits. -/
theorem widths_fit_shiftedOnce :
    (binary .shiftLeft nibble nibble).Every (fun node => node.shape? = .ok node.shape) ∧
      (binary .shiftLeft nibble nibble).Every
        (fun node => node.shape? = .ok node.shape ∧ node.width < 2 ^ 63) ∧
      (∃ picked, (binary .shiftLeft nibble nibble).bit (-19) = .ok picked) ∧
      ¬ ∃ picked, (binary .shiftLeft nibble nibble).bit 19 = .ok picked := by
  obtain ⟨exact, narrow, bits⟩ := widths_fit (binary .shiftLeft nibble nibble)
  obtain ⟨_, found⟩ := bits (by decide)
  refine ⟨exact.mp (every_width_lt (by decide)), narrow (by decide), ?_, ?_⟩
  · exact (found (-19)).mpr (by decide)
  · exact fun outside => absurd ((found 19).mp outside) (by decide)

/-- A number shifted by as much as sixteen copies of it say. -/
def shiftedFar : Value := binary .shiftLeft nibble (.concat (List.replicate 16 nibble))

theorem built_shiftedFar : shiftedFar.Built := by
  have copies : nibble.replicate 16 = .ok (.concat (List.replicate 16 nibble)) := rfl
  have made : combine .shiftLeft nibble (.concat (List.replicate 16 nibble)) = .ok shiftedFar := rfl
  exact building_built.combine built_nibble (building_built.replicate built_nibble copies) made

/-- A width that saturates is no position, and then not even the first bit is found. -/
theorem not_widths_fit_shiftedFar :
    shiftedFar.Built ∧ shiftedFar.width = 2 ^ 64 - 1 ∧ ¬ shiftedFar.width < 2 ^ 63 ∧
      ¬ ∀ position : Int, (∃ picked, shiftedFar.bit position = .ok picked) ↔
        -(shiftedFar.width : Int) ≤ position ∧ position < shiftedFar.width := by
  have saturated : shiftedFar.width = 2 ^ 64 - 1 := by decide
  have refused : shiftedFar.bit 0 = .error (.bitIndex 0 (-1) .value) := by
    rw [bit, saturated]
    rfl
  refine ⟨built_shiftedFar, saturated, by decide, fun found => ?_⟩
  obtain ⟨picked, first⟩ := (found 0).mpr (by decide)
  rw [refused] at first
  cases first

end Value

end Gateware
