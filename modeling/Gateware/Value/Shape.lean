import Gateware.Value.Basic

/-!
# Shapes of values

The shape of a tree follows from the shapes of its leaves.  Arithmetic is exact: the
shape of an operator is wide enough for every result.  Its width is counted without a
bound; whoever asks for a shape has it held to the word at every node on the way.
-/

set_option autoImplicit false

namespace Gateware

def UnaryOp.shape (op : UnaryOp) (operand : Shape) : Shape :=
  match op with
  | .invert => operand
  | .negate => ⟨operand.width + 1, true⟩
  | .asUnsigned => operand.withSigned false
  | .asSigned => operand.withSigned true
  | .truth | .any | .all | .parity => Shape.bit

/-- The widest shift by an amount of the given width, at most the largest width. -/
def BinaryOp.longestShift (width : Nat) : Nat :=
  if width < 64 then 2 ^ width - 1 else Width.max

def BinaryOp.shape (op : BinaryOp) (left right : Shape) : Shape :=
  match op with
  | .add =>
      let both := Shape.unify [left, right]
      ⟨both.width + 1, both.signed⟩
  | .subtract => ⟨(Shape.unify [left, right]).width + 1, true⟩
  | .multiply => ⟨left.width + right.width, left.signed || right.signed⟩
  | .divide => ⟨left.width + right.signed.toNat, left.signed || right.signed⟩
  | .modulo => right
  | .and | .or | .xor => Shape.unify [left, right]
  | .shiftLeft => ⟨Width.addSaturating left.width (longestShift right.width), left.signed⟩
  | .shiftRight => left
  | .equal | .unequal | .less | .lessEqual | .greater | .greaterEqual => Shape.bit

namespace Value

mutual

def shape : Value → Shape
  | .const constant => constant.shape
  | .signal leaf => leaf.shape
  | .clock _ | .reset _ _ | .initial => Shape.bit
  | .slice _ start stop => Shape.unsigned (Width.between start stop)
  | .part _ _ width _ => Shape.unsigned width
  | .concat parts => Shape.unsigned (totalWidth parts)
  | .unary op operand => op.shape operand.shape
  | .binary op left right => op.shape left.shape right.shape
  | .switch _ cases => Shape.unify (caseShapes cases)

def totalWidth : List Value → Nat
  | [] => 0
  | value :: rest => value.shape.width + totalWidth rest

def caseShapes : List (Keys × Value) → List Shape
  | [] => []
  | (_, value) :: rest => value.shape :: caseShapes rest

end

def width (value : Value) : Nat := value.shape.width

mutual

/-- The shape of a tree, held to the word at every node whose shape it follows from. -/
def shape? : Value → Except Fault Shape
  | .const constant => constant.shape.held
  | .signal leaf => leaf.shape.held
  | .clock _ | .reset _ _ | .initial => Shape.bit.held
  | .slice _ start stop => (Shape.unsigned (Width.between start stop)).held
  | .part _ _ width _ => (Shape.unsigned width).held
  | .concat parts => do
      let shapes ← partShapes? parts
      (Shape.unsigned ((shapes.map Shape.width).foldr (· + ·) 0)).held
  | .unary op operand => do
      let shape ← operand.shape?
      (op.shape shape).held
  | .binary op left right => do
      let first ← left.shape?
      let second ← right.shape?
      (op.shape first second).held
  | .switch _ cases => do
      let shapes ← caseShapes? cases
      Shape.unify? shapes

def partShapes? : List Value → Except Fault (List Shape)
  | [] => .ok []
  | value :: rest => do
      let shape ← value.shape?
      let shapes ← partShapes? rest
      pure (shape :: shapes)

def caseShapes? : List (Keys × Value) → Except Fault (List Shape)
  | [] => .ok []
  | (_, value) :: rest => do
      let shape ← value.shape?
      let shapes ← caseShapes? rest
      pure (shape :: shapes)

end

theorem caseShapes_eq_map (cases : List (Keys × Value)) :
    caseShapes cases = cases.map fun case => case.2.shape := by
  induction cases with
  | nil => rfl
  | cons case rest ih => simp [caseShapes, ih]

end Value

end Gateware
