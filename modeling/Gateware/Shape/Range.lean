import Gateware.Shape.Basic

/-!
# Integer ranges

A range starts at an integer and proceeds by a fixed step that is not zero, up to an
end that it excludes.
-/

set_option autoImplicit false

namespace Gateware

structure Range where
  start : Int
  stop : Int
  step : Int := 1
  deriving DecidableEq, Repr

namespace Range

def stepped (start stop step : Int) : Except Fault Range :=
  if step = 0 then .error .rangeStep else .ok ⟨start, stop, step⟩

def length (range : Range) : Nat :=
  if 0 < range.step ∧ range.start < range.stop then
    ((range.stop - range.start - 1) / range.step + 1).toNat
  else if range.step < 0 ∧ range.stop < range.start then
    ((range.start - range.stop - 1) / (-range.step) + 1).toNat
  else 0

def isEmpty (range : Range) : Bool := range.length = 0

def element (range : Range) (index : Nat) : Int := range.start + index * range.step

def first? (range : Range) : Option Int :=
  if range.isEmpty then none else some range.start

def last? (range : Range) : Option Int :=
  if range.isEmpty then none else some (range.element (range.length - 1))

def contains (range : Range) (value : Int) : Bool :=
  match range.first?, range.last? with
  | some first, some last =>
      let (low, high) := if 0 < range.step then (first, last) else (last, first)
      low ≤ value && value ≤ high && (value - range.start) % range.step == 0
  | _, _ => false

def elements (range : Range) : List Int := (List.range range.length).map range.element

def take (range : Range) (count : Nat) : List Int :=
  (List.range (Nat.min count range.length)).map range.element

def text (range : Range) : String :=
  if range.step = 1 then s!"range({range.start}, {range.stop})"
  else s!"range({range.start}, {range.stop}, {range.step})"

end Range

namespace Shape

def ofRange (range : Range) : Shape :=
  match range.first?, range.last? with
  | some first, some last =>
      let signed := first < 0 || last < 0
      if first = 0 && last = 0 then ⟨0, signed⟩
      else ⟨Nat.max (Binary.bitsFor first signed) (Binary.bitsFor last signed), signed⟩
  | _, _ => unsigned 0

end Shape

end Gateware
