import Gateware.Design.Basic

/-!
# Casts

What an operand, an element or a shape specification stands for in a design.  A custom
object is replaced by its target until something else is reached; a custom object that
is reached twice casts to itself and has no meaning.
-/

set_option autoImplicit false

namespace Gateware.Design

/-! ## Reading banks -/

def elementValueWith (design : Design) (lookupValue : Lookup → Except Fault Value) :
    Element → Except Fault Value
  | .int value => .ok (Value.ofInt value)
  | .value value => .ok value
  | .lookup lookup => lookupValue lookup
  | element@(.bank _) | element@(.record _ _) =>
      .error (.notValue (design.elementText element))

def reach (width : Nat) : Nat := if width < 64 then 2 ^ width else Width.max

/-- The value of a lookup through so many levels of banks: the switch on the index that
has a case for every element within reach. -/
def lookupValueWithin (design : Design) : Nat → Lookup → Except Fault Value
  | 0, _ => .error .endlessBank
  | levels + 1, lookup => do
      let width := lookup.index.width
      let elements := (design.elements lookup.bank).take (reach width)
      let cases ← elements.zipIdx.mapM fun (element, position) => do
        let value ← design.elementValueWith (design.lookupValueWithin levels) element
        pure (some [Binary.text position width], value)
      pure (.switch lookup.index cases)

/-- A bound on how deep readings lie in each other.  A reading that comes to an end meets a
bank again only for fewer of its elements. -/
def readingDepth (design : Design) : Nat :=
  design.banks.toList.foldr (fun bank total => bank.elements.length + total) 2

def lookupValue (design : Design) (lookup : Lookup) : Except Fault Value :=
  design.lookupValueWithin design.readingDepth lookup

def elementValue (design : Design) (element : Element) : Except Fault Value :=
  design.elementValueWith design.lookupValue element

def lookupShape (design : Design) (lookup : Lookup) : Except Fault Shape := do
  let values ← (design.elements lookup.bank).mapM design.elementValue
  pure (Shape.unify (values.map Value.shape))

/-! ## Operands -/

/-- The value of an operand after the custom values already met, through at most so
many more. -/
def castWithin (design : Design) : Nat → List Nat → Operand → Except Fault Value
  | _, _, .int value => .ok (Value.ofInt value)
  | _, _, .bool truth => .ok (Value.ofBool truth)
  | _, _, .text text => .error (.notValue (Operand.text text).render)
  | _, _, .value value => .ok value
  | _, _, .member member => member.const.map Value.const
  | _, _, .lookup lookup => design.lookupValue lookup
  | 0, _, .custom custom => .error (.valueCycle custom.name)
  | more + 1, met, .custom custom =>
      if met.contains custom.id then .error (.valueCycle custom.name)
      else match design.values[custom.id]? with
        | none => .error (.notValue custom.name)
        | some definition =>
            definition.target.bind (design.castWithin more (custom.id :: met))

def cast (design : Design) (operand : Operand) : Except Fault Value :=
  design.castWithin (design.values.size + 1) [] operand

def castConst (design : Design) (operand : Operand) : Except Fault Const :=
  (design.cast operand).bind Value.toConst

/-! ## Shapes -/

/-- The shape of a specification after the custom shapes already met, through at most
so many more. -/
def castShapeWithin (design : Design) : Nat → List Nat → ShapeSpec → Except Fault Shape
  | _, _, .shape shape => .ok shape
  | _, _, .width width => Shape.make width false
  | _, _, .range range => .ok (Shape.ofRange range)
  | _, _, .enumeration enumeration => enumeration.shape
  | _, _, .other text => .error (.notShape text)
  | 0, _, .custom custom => .error (.shapeCycle custom.name)
  | more + 1, met, .custom custom =>
      if met.contains custom.id then .error (.shapeCycle custom.name)
      else match design.shapes[custom.id]? with
        | none => .error (.notShape custom.name)
        | some definition => design.castShapeWithin more (custom.id :: met) definition.target

def castShape (design : Design) (spec : ShapeSpec) : Except Fault Shape :=
  design.castShapeWithin (design.shapes.size + 1) [] spec

def customValueShape (design : Design) (custom : Custom) : Except Fault ShapeSpec :=
  match design.values[custom.id]? with
  | none => .error (.notValue custom.name)
  | some definition =>
      match definition.declared with
      | some spec => .ok spec
      | none => do
          let target ← definition.target
          let value ← design.cast target
          pure (.shape value.shape)

/-! ## Initializers -/

/-- The constant by which an enumeration is initialized: a member of its own, a number
of one of its members, or the member of number zero. -/
def enumerationConst (enumeration : Enumeration) (init : Option Operand) :
    Except Fault Const := do
  let _ ← enumeration.shape
  let consts ← enumeration.consts
  let number ← match init with
    | none => pure 0
    | some (.int number) => pure number
    | some (.member member) =>
        if member.owner.id = enumeration.id then
          pure ((consts[member.index]?.map fun const => const.2.value).getD 0)
        else .error (.notMember member.text enumeration.text)
    | some other => .error (.notMember other.render enumeration.text)
  enumeration.constOf number

def customInitial (design : Design) (custom : Custom) (init : Option Operand) :
    Except Fault Operand :=
  match design.shapes[custom.id]? with
  | none => .error (.notShape custom.name)
  | some definition => do
      match ← definition.initial init with
      | .operand operand => pure operand
      | .fitted value =>
          let shape ← design.castShape definition.target
          pure (.value (.const (Const.fit value shape)))

end Gateware.Design
