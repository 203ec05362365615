import Gateware.Shape.Basic

/-!
# Constants

A constant is an integer with the shape whose bits represent it.
-/

set_option autoImplicit false

namespace Gateware

structure Const where
  value : Int
  shape : Shape
  deriving DecidableEq, Repr

namespace Const

def ofInt (value : Int) : Const := ⟨value, Shape.ofInt value⟩

def fit (value : Int) (shape : Shape) : Const := ⟨shape.fit value, shape⟩

def width (const : Const) : Nat := const.shape.width

def bits (const : Const) : Nat := Binary.residue const.value const.width

/-- The constants in order, the first one at the low end, as one unsigned constant. -/
def concat (parts : List Const) : Const :=
  let joined : Nat × Nat := parts.foldl
    (fun (bits, width) part => (bits ||| part.bits <<< width, width + part.width)) (0, 0)
  fit joined.1 (Shape.unsigned joined.2)

def slice (const : Const) (start stop : Nat) : Const :=
  fit (const.bits >>> start : Nat) (Shape.unsigned (Width.between start stop))

def text (const : Const) : String :=
  let mark := if const.shape.signed then "s" else ""
  s!"(const {const.width}'{mark}d{const.value})"

end Const

end Gateware
