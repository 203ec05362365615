import Gateware.Fault
import Gateware.Word

/-!
# Positions and spans

How a bit position, a pair of bounds or a stepped range selects among `width` bits.
A negative position counts from the end.  The same rules serve the bits of a value
and pins.
-/

set_option autoImplicit false

namespace Gateware

inductive Bound where
  | unbounded
  | included (position : Int)
  | excluded (position : Int)
  deriving DecidableEq, Repr

namespace Bound

def start? : Bound → Option Int
  | .unbounded => none
  | .included position => some position
  | .excluded position => some (Position.saturate (position + 1))

/-- The first position past an upper bound.  The last bit and the largest position,
when included, leave nothing past them. -/
def stop? : Bound → Option Int
  | .unbounded => none
  | .included position =>
      if position = -1 || position = Position.max then none else some (position + 1)
  | .excluded position => some position

end Bound

/-- The bits that an index picks: a run of them, or single bits in an order. -/
inductive Picked where
  | run (start stop : Nat)
  | bits (positions : List Int)
  deriving DecidableEq, Repr

namespace Picked

/-- An exact sum of positions that is a position again. -/
def held (exact : Int) : Except Fault Int :=
  if Position.Holds exact then .ok exact else .error .overflow

/-- The place of a position among `width` bits, counting from the end if it is
negative. -/
def place (width position : Int) : Int :=
  if position < 0 then Position.wrap (position + width) else position

def bit (target : Fault.Target) (width : Nat) (position : Int) : Except Fault Nat :=
  let n := Position.ofWidth width
  if Position.wrap (-n) ≤ position && position < n then
    .ok (Position.toWidth (place n position))
  else .error (.bitIndex position n target)

/-- The run between two positions that both lie inside the width. -/
def between (target : Fault.Target) (width : Nat) (start stop : Int) :
    Except Fault (Nat × Nat) :=
  let n := Position.ofWidth width
  let inside (position : Int) : Bool := Position.wrap (-n) ≤ position && position ≤ n
  if !inside start then .error (.sliceStart start n target)
  else if !inside stop then .error (.sliceStop stop n target)
  else
    let first := place n start
    let last := place n stop
    if last < first then .error (.sliceOrder first last)
    else .ok (Position.toWidth first, Position.toWidth last)

def clamp (width lower upper bound : Int) : Int :=
  if bound < 0 then max (Position.wrap (bound + width)) lower else min bound upper

/-- The end points of a stepped range among `width` bits; a missing bound is the end
from which, or to which, the step leads. -/
def ends (width : Int) (start stop : Option Int) (step : Int) : Int × Int :=
  let lower := if step < 0 then -1 else 0
  let upper := if step < 0 then Position.wrap (width - 1) else width
  ((start.map (clamp width lower upper)).getD (if step < 0 then upper else lower),
    (stop.map (clamp width lower upper)).getD (if step < 0 then lower else upper))

/-- The terms of the walk from a position by a step while it has not reached its end, at
most `count`.  The next position is reckoned before a position is handed out. -/
def walk : Nat → Int → Int → Int → Except Fault (List Int)
  | 0, _, _, _ => .ok []
  | count + 1, position, stop, step =>
      if (0 < step && position < stop) || (step < 0 && stop < position) then do
        let next ← held (position + step)
        let later ← walk count next stop step
        pure (position :: later)
      else .ok []

def steps (start stop step : Int) : Except Fault (List Int) :=
  walk (stop - start).natAbs start stop step

/-- The bits of a stepped range; with a step of one they form a run. -/
def stepped (target : Fault.Target) (width : Nat) (start stop : Option Int) (step : Int) :
    Except Fault Picked :=
  if step = 0 then .error .sliceStep
  else
    let (first, last) := ends (Position.ofWidth width) start stop step
    if step = 1 then
      (between target width first last).map fun (start, stop) => run start stop
    else (steps first last step).map bits

end Picked

end Gateware
