import Gateware.Enumeration
import Gateware.Shape.Range

/-!
# Operands and shape specifications

The objects that may be written where a value or a shape is wanted.  A custom object
is known by its identity in the design; its text is its bare name.
-/

set_option autoImplicit false

namespace Gateware

structure Custom where
  id : Nat
  name : String
  deriving DecidableEq, Repr

structure Lookup where
  bank : Nat
  index : Value

inductive Operand where
  | int (number : Int)
  | bool (truth : Bool)
  | text (content : String)
  | value (tree : Value)
  | member (case : Enumeration.Member)
  | custom (object : Custom)
  | lookup (source : Lookup)

namespace Operand

def denotesValue : Operand → Bool
  | .int _ | .bool _ | .value _ | .custom _ | .lookup _ => true
  | .member case => case.owner.isConstant
  | .text _ => false

/-- The text of an operand as it was written.  A lookup is shown without its bank, whose
elements only a design knows. -/
def render : Operand → String
  | .int number => toString number
  | .bool truth => if truth then "True" else "False"
  | .text content => Text.quote content
  | .value tree => tree.text
  | .member case => case.text
  | .custom object => object.name
  | .lookup source => s!"(proxy {source.index.text})"

end Operand

inductive ShapeSpec where
  | shape (exact : Shape)
  | width (bits : Int)
  | range (numbers : Range)
  | enumeration (type : Enumeration)
  | custom (object : Custom)
  | other (content : String)

namespace ShapeSpec

def denotesShape : ShapeSpec → Bool
  | .shape _ | .range _ | .custom _ => true
  | .width bits => 0 ≤ bits
  | .enumeration type => type.isConstant
  | .other _ => false

def render : ShapeSpec → String
  | .shape exact => exact.text
  | .width bits => toString bits
  | .range numbers => numbers.text
  | .enumeration type => type.text
  | .custom object => object.name
  | .other content => content

end ShapeSpec

end Gateware
