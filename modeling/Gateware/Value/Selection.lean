import Gateware.Picked
import Gateware.Value.Shape

/-!
# Selecting bits of values

Single bits, slices, stepped slices, parts at an offset, and the shifts and rotations
by a constant, which are made of slices.
-/

set_option autoImplicit false

namespace Gateware

inductive Index where
  | bit (position : Int)
  | range (start stop : Option Int) (step : Int)
  | value (index : Value)

def Index.ofBounds (start stop : Bound) (step : Int) : Index :=
  .range start.start? stop.stop? step

namespace Value

def bit (value : Value) (position : Int) : Except Fault Value :=
  (Picked.bit .value value.width position).map fun start =>
    .slice value start (start + 1)

def between (value : Value) (start stop : Int) : Except Fault Value :=
  (Picked.between .value value.width start stop).map fun (start, stop) =>
    .slice value start stop

def bitAt (value : Value) (position : Int) : Value :=
  let start := Position.toWidth position
  .slice value start (start + 1)

/-- The bits that an index picks.  A value cannot be indexed by a value. -/
def index (value : Value) : Index → Except Fault Value
  | .bit position => value.bit position
  | .range start stop step =>
      (Picked.stepped .value value.width start stop step).map fun
        | .run start stop => .slice value start stop
        | .bits positions => .concat (positions.map value.bitAt)
  | .value _ => .error (.valueAsIndex .value)

/-- The part of a run of bits that lies inside the value. -/
def clamped (value : Value) (start stop : Option Int) : Value :=
  let n := Position.ofWidth value.width
  let first := (start.map (Picked.clamp n 0 n)).getD 0
  let last := max ((stop.map (Picked.clamp n 0 n)).getD n) first
  .slice value (Position.toWidth first) (Position.toWidth last)

/-- `width` bits of a value, from an offset counted in steps of `stride` bits. -/
def partOf (value offset : Value) (width stride : Int) : Except Fault Value :=
  if width < 0 then .error (.partWidth width)
  else if stride ≤ 0 then .error (.partStride stride)
  else if offset.shape.signed then .error .signedOffset
  else .ok (.part value offset width.toNat stride.toNat)

def bitSelect (value offset : Value) (width : Int) : Except Fault Value :=
  if width < 0 then .error (.partWidth width)
  else match offset with
    | .const constant =>
        let start := Position.saturate constant.value
        .ok (value.clamped (some start) (some (Position.saturate (start + width))))
    | _ => value.partOf offset width 1

/-- The word of `width` bits at an offset counted in words; a constant offset gives a
slice. -/
def wordSelect (value offset : Value) (width : Int) : Except Fault Value :=
  if width ≤ 0 then .error (.wordWidth width)
  else match offset with
    | .const constant =>
        let start := Position.saturate (Position.saturate constant.value * width)
        .ok (value.clamped (some start) (some (Position.saturate (start + width))))
    | _ => value.partOf offset width width

def raised (value : Value) (amount : Nat) : Value :=
  let zeroes := Value.const (Const.fit 0 (Shape.unsigned amount))
  let joined := Value.concat [zeroes, value]
  if value.shape.signed then .unary .asSigned joined else joined

/-- A value without its lowest bits, of the value's signedness; a signed value keeps
its sign bit. -/
def lowered (value : Value) (amount : Int) : Value :=
  if value.shape.signed then
    let most := Position.wrap (Position.ofWidth value.width - 1)
    .unary .asSigned (value.clamped (some (min amount most)) none)
  else value.clamped (some amount) none

def shiftLeft (value : Value) (amount : Int) : Value :=
  if amount < 0 then value.lowered (Position.saturate (-amount))
  else value.raised amount.toNat

def shiftRight (value : Value) (amount : Int) : Value :=
  if amount < 0 then value.raised (Position.saturate (-amount)).toNat
  else value.lowered amount

def turn (value : Value) (amount : Int) : Int :=
  let n := Position.ofWidth value.width
  if n = 0 then amount else amount % n

/-- The bits from a position on, followed by those below it. -/
def turned (value : Value) (position : Int) : Value :=
  .concat [value.clamped (some position) none, value.clamped none (some position)]

/-- The opposite of the turn must be a position. -/
def rotateLeft (value : Value) (amount : Int) : Except Fault Value :=
  (Picked.held (-value.turn amount)).map value.turned

def rotateRight (value : Value) (amount : Int) : Value :=
  value.turned (value.turn amount)

def replicate (value : Value) (count : Int) : Except Fault Value :=
  if count < 0 then .error (.replication count)
  else .ok (.concat (List.replicate count.toNat value))

end Value

end Gateware
