import Mathlib.Algebra.Order.Ring.Int
import Gateware.Value.Shape

/-!
# The nodes of a tree

Properties that every node of a tree has, and the widths of the nodes.
-/

set_option autoImplicit false

namespace Gateware.Value

def children : Value → List Value
  | .const _ | .signal _ | .clock _ | .reset _ _ | .initial => []
  | .slice value _ _ => [value]
  | .part value offset _ _ => [value, offset]
  | .concat parts => parts
  | .unary _ operand => [operand]
  | .binary _ left right => [left, right]
  | .switch test cases => test :: cases.map Prod.snd

/-- Every node of the tree has a property. -/
inductive Every (property : Value → Prop) : Value → Prop where
  | node {value : Value} (here : property value)
      (below : ∀ child ∈ value.children, Every property child) : Every property value

section Every

variable {property : Value → Prop} {value : Value}

theorem every_iff :
    value.Every property ↔ property value ∧ ∀ child ∈ value.children, child.Every property := by
  constructor
  · rintro ⟨here, below⟩
    exact ⟨here, below⟩
  · rintro ⟨here, below⟩
    exact .node here below

theorem Every.here (every : value.Every property) : property value := (every_iff.mp every).1

theorem Every.child (every : value.Every property) {child : Value}
    (member : child ∈ value.children) : child.Every property :=
  (every_iff.mp every).2 child member

theorem Every.imp {other : Value → Prop} (implies : ∀ node, property node → other node)
    (every : value.Every property) : value.Every other := by
  induction every with
  | node here _ ih => exact .node (implies _ here) ih

theorem Every.and {other : Value → Prop} (every : value.Every property)
    (everyOther : value.Every other) : value.Every fun node => property node ∧ other node := by
  induction every with
  | node here _ ih =>
      exact .node ⟨here, everyOther.here⟩
        fun child member => ih child member (everyOther.child member)

end Every

theorem sizeOf_child {value child : Value} (member : child ∈ value.children) :
    sizeOf child < sizeOf value := by
  cases value with
  | const constant => cases member
  | signal leaf => cases member
  | clock domain => cases member
  | reset domain allowResetLess => cases member
  | initial => cases member
  | slice value start stop =>
      rw [List.mem_singleton.mp member, Value.slice.sizeOf_spec]
      omega
  | part value offset width stride =>
      rw [Value.part.sizeOf_spec]
      simp only [children, List.mem_cons, List.not_mem_nil, or_false] at member
      rcases member with rfl | rfl <;> omega
  | concat parts =>
      have inside : sizeOf child < sizeOf parts := List.sizeOf_lt_of_mem member
      rw [Value.concat.sizeOf_spec]
      omega
  | unary op operand =>
      rw [List.mem_singleton.mp member, Value.unary.sizeOf_spec]
      omega
  | binary op left right =>
      rw [Value.binary.sizeOf_spec]
      simp only [children, List.mem_cons, List.not_mem_nil, or_false] at member
      rcases member with rfl | rfl <;> omega
  | switch test cases =>
      rw [Value.switch.sizeOf_spec]
      rcases List.mem_cons.mp member with rfl | listed
      · omega
      · obtain ⟨case, caseListed, rfl⟩ := List.mem_map.mp listed
        have inside : sizeOf case < sizeOf cases := List.sizeOf_lt_of_mem caseListed
        obtain ⟨keys, value⟩ := case
        rw [Prod.mk.sizeOf_spec] at inside
        dsimp only
        omega

theorem tree (value : Value) : value.Every fun _ => True :=
  .node trivial fun child _ => tree child
termination_by sizeOf value
decreasing_by exact sizeOf_child ‹_›

/-- Every node has less than so many bits. -/
def NarrowerThan (limit : Nat) (value : Value) : Prop :=
  value.Every fun node => node.width < limit

theorem totalWidth_eq_sum (parts : List Value) : totalWidth parts = (parts.map width).sum := by
  induction parts with
  | nil => rfl
  | cons first rest ih => rw [totalWidth, ih, List.map_cons, List.sum_cons, width]

theorem width_concat (parts : List Value) :
    (Value.concat parts).width = (parts.map width).sum :=
  totalWidth_eq_sum parts

theorem width_slice {value : Value} {start stop : Nat} (ordered : start ≤ stop)
    (fits : stop < 2 ^ 64) : (slice value start stop).width = stop - start :=
  Width.between_eq ordered fits

theorem NarrowerThan.width_lt {limit : Nat} {value : Value} (narrow : value.NarrowerThan limit) :
    value.width < limit :=
  narrow.here

theorem NarrowerThan.child {limit : Nat} {value child : Value}
    (narrow : value.NarrowerThan limit) (member : child ∈ value.children) :
    child.NarrowerThan limit :=
  Every.child narrow member

end Gateware.Value
