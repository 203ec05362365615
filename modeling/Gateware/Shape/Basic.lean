import Gateware.Binary
import Gateware.Fault
import Gateware.Word

/-!
# Shapes

A shape is a width and a signedness.  It contains the integers that its bits can
represent, read as two's complement when it is signed.
-/

set_option autoImplicit false

namespace Gateware

structure Shape where
  width : Nat
  signed : Bool
  deriving DecidableEq, Repr

namespace Shape

def unsigned (width : Nat) : Shape := ⟨width, false⟩

def bit : Shape := unsigned 1

/-- A shape of a requested width, which must be positive for a signed shape and not
negative for an unsigned one. -/
def make (width : Int) (signed : Bool) : Except Fault Shape :=
  if signed && width ≤ 0 then .error (.signedWidth width)
  else if width < 0 then .error (.unsignedWidth width)
  else .ok ⟨width.toNat, signed⟩

def withSigned (shape : Shape) (signed : Bool) : Shape := { shape with signed }

def ofInt (value : Int) : Shape := ⟨Binary.bitsFor value false, value < 0⟩

/-- The widest of the widths of one signedness; zero when there is none. -/
def widest (shapes : List Shape) (signed : Bool) : Nat :=
  (shapes.filter fun shape => shape.signed == signed).foldl
    (fun width shape => Nat.max width shape.width) 0

/-- The shape that holds every integer of the given shapes, its width counted without a
bound.  Beside a signed shape an unsigned one needs a bit more. -/
def unify (shapes : List Shape) : Shape :=
  if shapes.any Shape.signed then
    ⟨Nat.max (widest shapes false + 1) (widest shapes true), true⟩
  else unsigned (widest shapes false)

/-- A shape whose width fits the word. -/
def held (shape : Shape) : Except Fault Shape :=
  if shape.width ≤ Width.max then .ok shape else .error .overflow

/-- The shape of several shapes, held to the word. -/
def unify? (shapes : List Shape) : Except Fault Shape := (unify shapes).held

def least (shape : Shape) : Int := if shape.signed then -2 ^ (shape.width - 1) else 0

def greatest (shape : Shape) : Int :=
  if shape.signed then 2 ^ (shape.width - 1) - 1 else 2 ^ shape.width - 1

def contains (shape : Shape) (value : Int) : Bool :=
  shape.least ≤ value && value ≤ shape.greatest

/-- The integer that the lowest bits of `value` represent in the shape. -/
def fit (shape : Shape) (value : Int) : Int :=
  let modulus : Int := 2 ^ shape.width
  let rest := value % modulus
  if shape.signed && shape.width != 0 && modulus / 2 ≤ rest then rest - modulus else rest

def text (shape : Shape) : String :=
  if shape.signed then s!"signed({shape.width})" else s!"unsigned({shape.width})"

@[simp]
theorem unsigned_width (width : Nat) : (unsigned width).width = width := rfl

theorem held_eq_ok {shape found : Shape} :
    shape.held = .ok found ↔ shape.width ≤ Width.max ∧ shape = found := by
  unfold held
  split
  · rename_i fits
    rw [Except.ok.injEq, and_iff_right fits]
  · rename_i past
    exact iff_of_false nofun fun both => past both.1

theorem held_eq_overflow {shape : Shape} :
    shape.held = .error .overflow ↔ Width.max < shape.width := by
  unfold held
  split
  · rename_i fits
    exact iff_of_false nofun (Nat.not_lt.mpr fits)
  · rename_i past
    exact iff_of_true rfl (Nat.lt_of_not_le past)

@[simp]
theorem unsigned_signed (width : Nat) : (unsigned width).signed = false := rfl

end Shape

end Gateware
