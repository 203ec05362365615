import Gateware.Value.Shape
import Gateware.Value.Text

/-!
# Operators on values

The ways to combine values that need more than their constructor: shifts, changes of
signedness, the multiplexer and the magnitude.
-/

set_option autoImplicit false

namespace Gateware.Value

def shift (op : BinaryOp) (value amount : Value) : Except Fault Value :=
  if amount.shape.signed then .error .signedShift else .ok (.binary op value amount)

def combine (op : BinaryOp) (left right : Value) : Except Fault Value :=
  match op with
  | .shiftLeft | .shiftRight => shift op left right
  | _ => .ok (.binary op left right)

def asSigned (value : Value) : Except Fault Value :=
  if value.width = 0 then .error .emptySigned else .ok (.unary .asSigned value)

def mux (selector otherwise whenZero : Value) : Value :=
  .switch selector [(some [Binary.text 0 selector.width], whenZero), (none, otherwise)]

/-- The magnitude of a value, in as many bits as the value has. -/
def abs (value : Value) : Value :=
  if value.shape.signed then
    let negative := .unary .negate value
    .slice (mux (.binary .greaterEqual value (ofInt 0)) value negative) 0 value.width
  else value

end Gateware.Value
