import Gateware.Proofs.Shape.Integers
import Gateware.Proofs.Value.Nodes
import Gateware.Value.Fold
import Gateware.Value.Operators
import Gateware.Value.Selection

/-!
# Well-formed values

A well-formed value has a valid shape at every node, constants inside their shapes,
slices inside the sliced values, and keys as wide as what they test.  Operators of
well-formed values are well-formed.
-/

set_option autoImplicit false

namespace Gateware

namespace Const

/-- A constant of a valid shape whose bits represent it. -/
def WellFormed (constant : Const) : Prop :=
  constant.shape.Valid ∧ constant.value ∈ constant.shape

theorem wellFormed_fit {shape : Shape} (valid : shape.Valid) (value : Int) :
    (fit value shape).WellFormed :=
  ⟨valid, Shape.fit_mem valid value⟩

theorem wellFormed_ofInt (value : Int) : (ofInt value).WellFormed :=
  ⟨Shape.valid_ofInt value, Shape.mem_ofInt value⟩

theorem wellFormed_concat (parts : List Const) : (concat parts).WellFormed :=
  wellFormed_fit (Shape.valid_unsigned _) _

theorem wellFormed_slice (constant : Const) (start stop : Nat) :
    (constant.slice start stop).WellFormed :=
  wellFormed_fit (Shape.valid_unsigned _) _

end Const

namespace Keys

/-- Every key has so many characters, each of them `0`, `1` or `-`. -/
def Fits (width : Nat) : Keys → Prop
  | none => True
  | some keys => ∀ key ∈ keys, key.length = width ∧
      ∀ symbol ∈ key.toList, symbol = '0' ∨ symbol = '1' ∨ symbol = '-'

theorem fits_text (value : Int) (width : Nat) : Fits width (some [Binary.text value width]) := by
  intro key listed
  rw [List.mem_singleton.mp listed]
  refine ⟨by simp [Binary.text], ?_⟩
  intro symbol digit
  rw [Binary.text, String.toList_ofList] at digit
  rcases Binary.mem_digits digit with zero | one
  · exact Or.inl zero
  · exact Or.inr (Or.inl one)

end Keys

namespace Value

/-- The bits between two places of a width, in order. -/
def Inside (width start stop : Nat) : Prop := start ≤ stop ∧ stop ≤ width

/-- What a node is by itself. -/
def Formed : Value → Prop
  | .const constant => constant.value ∈ constant.shape
  | .slice value start stop => Inside value.width start stop
  | .part _ offset _ stride => 1 ≤ stride ∧ offset.shape.signed = false
  | .binary .shiftLeft _ amount | .binary .shiftRight _ amount => amount.shape.signed = false
  | .switch test cases => ∀ case ∈ cases, case.1.Fits test.width
  | _ => True

/-- Every node has a valid shape and is formed as it must be. -/
def WellFormed (value : Value) : Prop :=
  value.Every fun node => node.shape.Valid ∧ node.Formed

section WellFormed

variable {value left right : Value}

theorem WellFormed.valid (wellFormed : value.WellFormed) : value.shape.Valid := wellFormed.here.1

theorem wellFormed_const {constant : Const} (wellFormed : constant.WellFormed) :
    (Value.const constant).WellFormed :=
  every_iff.mpr ⟨wellFormed, by simp [children]⟩

theorem wellFormed_slice {start stop : Nat} :
    (value.slice start stop).WellFormed ↔
      Inside value.width start stop ∧ value.WellFormed := by
  have valid : (value.slice start stop).shape.Valid := Shape.valid_unsigned _
  rw [WellFormed, every_iff]
  simp [children, Formed, valid, WellFormed]

theorem wellFormed_concat {parts : List Value} :
    (Value.concat parts).WellFormed ↔ ∀ part ∈ parts, part.WellFormed := by
  have valid : (Value.concat parts).shape.Valid := Shape.valid_unsigned _
  rw [WellFormed, every_iff]
  simp [children, Formed, valid, WellFormed]

theorem wellFormed_part {offset : Value} {width stride : Nat} (positive : 1 ≤ stride)
    (unsignedOffset : offset.shape.signed = false) (wellFormed : value.WellFormed)
    (offsetFormed : offset.WellFormed) :
    (Value.part value offset width stride).WellFormed := by
  apply every_iff.mpr
  refine ⟨⟨Shape.valid_unsigned width, positive, unsignedOffset⟩, ?_⟩
  simp only [children, List.forall_mem_cons]
  exact ⟨wellFormed, offsetFormed, by simp⟩

theorem wellFormed_unary {op : UnaryOp} (valid : (op.shape value.shape).Valid)
    (wellFormed : value.WellFormed) : (Value.unary op value).WellFormed := by
  apply every_iff.mpr
  refine ⟨⟨valid, trivial⟩, ?_⟩
  intro child member
  rw [List.mem_singleton.mp member]
  exact wellFormed

theorem valid_binary (op : BinaryOp) {left right : Shape} (leftValid : left.Valid)
    (rightValid : right.Valid) : (op.shape left right).Valid := by
  cases op with
  | add | subtract => exact fun _ => Nat.succ_pos _
  | multiply =>
      intro signed
      simp only [BinaryOp.shape, Bool.or_eq_true] at signed ⊢
      rcases signed with leftSigned | rightSigned
      · exact Nat.add_pos_left (leftValid leftSigned) _
      · exact Nat.add_pos_right _ (rightValid rightSigned)
  | divide =>
      intro signed
      simp only [BinaryOp.shape, Bool.or_eq_true] at signed ⊢
      rcases signed with leftSigned | rightSigned
      · exact Nat.add_pos_left (leftValid leftSigned) _
      · rw [rightSigned]
        exact Nat.succ_pos _
  | modulo => exact rightValid
  | and | or | xor => exact Shape.valid_unify_pair leftValid rightValid
  | shiftLeft =>
      intro signed
      have positive : 0 < left.width := leftValid signed
      exact Nat.lt_min.mpr ⟨Nat.add_pos_left positive _, by decide⟩
  | shiftRight => exact leftValid
  | equal | unequal | less | lessEqual | greater | greaterEqual => exact Shape.valid_unsigned 1

theorem wellFormed_binary {op : BinaryOp}
    (unsignedAmount : op = .shiftLeft ∨ op = .shiftRight → right.shape.signed = false)
    (leftFormed : left.WellFormed) (rightFormed : right.WellFormed) :
    (Value.binary op left right).WellFormed := by
  apply every_iff.mpr
  refine ⟨⟨valid_binary op leftFormed.valid rightFormed.valid, ?_⟩, ?_⟩
  · cases op with
    | shiftLeft => exact unsignedAmount (Or.inl rfl)
    | shiftRight => exact unsignedAmount (Or.inr rfl)
    | _ => trivial
  · simp only [children, List.forall_mem_cons]
    exact ⟨leftFormed, rightFormed, by simp⟩

theorem wellFormed_switch {test : Value} {cases : List (Keys × Value)}
    (testFormed : test.WellFormed)
    (casesFormed : ∀ case ∈ cases, case.1.Fits test.width ∧ case.2.WellFormed) :
    (Value.switch test cases).WellFormed := by
  apply every_iff.mpr
  refine ⟨⟨?_, fun case listed => (casesFormed case listed).1⟩, ?_⟩
  · rw [shape, caseShapes_eq_map]
    apply Shape.valid_unify
    intro shape listed
    obtain ⟨case, caseListed, rfl⟩ := List.mem_map.mp listed
    exact (casesFormed case caseListed).2.valid
  · intro child member
    rcases List.mem_cons.mp member with rfl | listed
    · exact testFormed
    · obtain ⟨case, caseListed, rfl⟩ := List.mem_map.mp listed
      exact (casesFormed case caseListed).2

end WellFormed

/-! ## Values without wide nodes -/

theorem narrow_iff {limit : Nat} {value : Value} :
    value.NarrowerThan limit ↔
      value.width < limit ∧ ∀ child ∈ value.children, child.NarrowerThan limit :=
  every_iff

theorem wellFormed_of_fold? {value : Value} {constant : Const}
    (single : ∀ constant, value = .const constant → constant.WellFormed)
    (folds : value.fold? = some constant) : constant.WellFormed := by
  cases value with
  | const constant =>
      cases folds
      exact single _ rfl
  | slice value start stop =>
      obtain ⟨folded, _, rfl⟩ := Option.map_eq_some_iff.mp folds
      exact Const.wellFormed_slice folded start stop
  | concat parts =>
      obtain ⟨folded, _, rfl⟩ := Option.map_eq_some_iff.mp folds
      exact Const.wellFormed_concat folded
  | _ => cases folds

end Value

end Gateware
