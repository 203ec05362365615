import Gateware.Proofs.Shape.Unify
import Gateware.Proofs.Value.Nodes

/-!
# Shapes held to the word

The shape of a tree is found in words or overflows.  It is found exactly if no node whose shape it
follows from is wider than a word can tell, and then it is the one counted without a bound.
-/

set_option autoImplicit false

namespace Gateware.Value

variable {value : Value}

/-- The children that the shape of a node follows from. -/
def shapers : Value → List Value
  | .concat parts => parts
  | .unary _ operand => [operand]
  | .binary _ left right => [left, right]
  | .switch _ cases => cases.map Prod.snd
  | _ => []

theorem mem_children_of_mem_shapers {child : Value} (member : child ∈ value.shapers) :
    child ∈ value.children := by
  cases value with
  | switch test cases => exact List.mem_cons_of_mem _ member
  | slice value start stop => cases member
  | part value offset width stride => cases member
  | _ => exact member

theorem partShapes?_eq_mapM (parts : List Value) : partShapes? parts = parts.mapM shape? := by
  induction parts with
  | nil => rfl
  | cons first rest ih => rw [partShapes?, ih, List.mapM_cons]

theorem caseShapes?_eq_mapM (cases : List (Keys × Value)) :
    caseShapes? cases = (cases.map Prod.snd).mapM shape? := by
  induction cases with
  | nil => rfl
  | cons case rest ih => rw [caseShapes?, ih, List.map_cons, List.mapM_cons]

/-- A value whose shape is found in words. -/
def Held (value : Value) : Prop := value.shape? = .ok value.shape

theorem mapM_shape?_cases {values : List Value}
    (each : ∀ value ∈ values, value.Held ∨ value.shape? = .error .overflow) :
    (∀ value ∈ values, value.Held) ∧ values.mapM shape? = .ok (values.map shape) ∨
      (∃ value ∈ values, value.shape? = .error .overflow) ∧
        values.mapM shape? = .error .overflow := by
  induction values with
  | nil => exact Or.inl ⟨nofun, rfl⟩
  | cons first rest ih =>
      rw [List.mapM_cons]
      rcases each first List.mem_cons_self with held | overflow
      · rcases ih fun value listed => each value (List.mem_cons_of_mem _ listed) with
          ⟨others, run⟩ | ⟨⟨value, listed, overflow⟩, run⟩
        · refine Or.inl ⟨List.forall_mem_cons.mpr ⟨held, others⟩, ?_⟩
          rw [held, run]
          rfl
        · refine Or.inr ⟨⟨value, List.mem_cons_of_mem _ listed, overflow⟩, ?_⟩
          rw [held, run]
          rfl
      · refine Or.inr ⟨⟨first, List.mem_cons_self, overflow⟩, ?_⟩
        rw [overflow]
        rfl

/-- One node: where the shapes that its own follows from are found, its own is held to the word,
and where one of them overflows so does its own. -/
theorem shape?_node
    (below : ∀ child ∈ value.shapers, child.Held ∨ child.shape? = .error .overflow) :
    (∀ child ∈ value.shapers, child.Held) ∧ value.shape? = value.shape.held ∨
      (∃ child ∈ value.shapers, child.shape? = .error .overflow) ∧
        value.shape? = .error .overflow := by
  cases value with
  | concat parts =>
      rw [shapers] at below ⊢
      refine (mapM_shape?_cases below).imp (And.imp_right fun run => ?_)
        (And.imp_right fun run => ?_)
      · have widths : (parts.map shape).map Shape.width = parts.map width := List.map_map
        rw [shape?, partShapes?_eq_mapM, run, shape, totalWidth_eq_sum, ← widths]
        rfl
      · rw [shape?, partShapes?_eq_mapM, run]
        rfl
  | unary op operand =>
      rcases below operand List.mem_cons_self with held | overflow
      · refine Or.inl ⟨fun child member => List.mem_singleton.mp member ▸ held, ?_⟩
        rw [shape?, held]
        rfl
      · refine Or.inr ⟨⟨operand, List.mem_cons_self, overflow⟩, ?_⟩
        rw [shape?, overflow]
        rfl
  | binary op left right =>
      have member : right ∈ (Value.binary op left right).shapers := by simp [shapers]
      rcases below left List.mem_cons_self with held | overflow
      · rcases below right member with heldToo | overflow
        · refine Or.inl ⟨?_, ?_⟩
          · simp only [shapers, List.forall_mem_cons]
            exact ⟨held, heldToo, nofun⟩
          · rw [shape?, held, heldToo]
            rfl
        · refine Or.inr ⟨⟨right, member, overflow⟩, ?_⟩
          rw [shape?, held, overflow]
          rfl
      · refine Or.inr ⟨⟨left, List.mem_cons_self, overflow⟩, ?_⟩
        rw [shape?, overflow]
        rfl
  | switch test cases =>
      rw [shapers] at below ⊢
      refine (mapM_shape?_cases below).imp (And.imp_right fun run => ?_)
        (And.imp_right fun run => ?_)
      · rw [shape?, caseShapes?_eq_mapM, run, shape, caseShapes_eq_map, List.map_map]
        rfl
      · rw [shape?, caseShapes?_eq_mapM, run]
        rfl
  | _ => exact Or.inl ⟨nofun, rfl⟩

theorem held_or_overflow (value : Value) : value.Held ∨ value.shape? = .error .overflow := by
  induction value.tree with
  | @node value _ _ ih =>
      rcases shape?_node fun child member => ih child (mem_children_of_mem_shapers member) with
        ⟨_, own⟩ | ⟨_, overflow⟩
      · rw [Held, own]
        exact Shape.held_cases _
      · exact Or.inr overflow

/-- What is found in words is the shape counted without a bound. -/
theorem eq_shape_of_shape? {found : Shape} (run : value.shape? = .ok found) :
    found = value.shape := by
  rcases value.held_or_overflow with held | overflow
  · exact Except.ok.inj (run.symm.trans held)
  · rw [overflow] at run
    cases run

theorem exists_shape?_iff : (∃ found, value.shape? = .ok found) ↔ value.Held :=
  ⟨fun ⟨_, run⟩ => run.trans (congrArg _ (eq_shape_of_shape? run)), fun held => ⟨_, held⟩⟩

theorem not_held_iff : ¬ value.Held ↔ value.shape? = .error .overflow := by
  constructor
  · exact fun wide => value.held_or_overflow.resolve_left wide
  · intro overflow held
    rw [held] at overflow
    cases overflow

/-- A shape is found exactly if it fits the word and those that it follows from are found. -/
theorem held_iff :
    value.Held ↔ value.width ≤ Width.max ∧ ∀ child ∈ value.shapers, child.Held := by
  rcases shape?_node fun child _ => child.held_or_overflow with
    ⟨below, own⟩ | ⟨⟨child, member, overflow⟩, own⟩
  · rw [Held, own, Shape.held_eq_ok, and_iff_left rfl, and_iff_left below]
    rfl
  · refine iff_of_false (not_held_iff.mpr own) fun both => ?_
    exact not_held_iff.mpr overflow (both.2 child member)

theorem every_held_iff :
    value.Every Held ↔ value.Every fun node => node.width ≤ Width.max := by
  constructor
  · exact Every.imp fun _ held => (held_iff.mp held).1
  · intro fits
    induction fits with
    | node here _ ih =>
        refine .node (held_iff.mpr ⟨here, fun child member => ?_⟩) ih
        exact (ih child (mem_children_of_mem_shapers member)).here

end Gateware.Value
