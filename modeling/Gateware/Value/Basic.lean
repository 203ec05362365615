import Gateware.Const

/-!
# Values

The value language: constants, signals and the operators on them, as a tree.  A
signal stands in the tree with its identity, its name and its shape; what else was
declared of it belongs to the design.
-/

set_option autoImplicit false

namespace Gateware

structure Signal where
  id : Nat
  name : String
  shape : Shape
  deriving DecidableEq, Repr

inductive UnaryOp where
  | invert
  | negate
  | truth
  | any
  | all
  | parity
  | asUnsigned
  | asSigned
  deriving DecidableEq, Repr

inductive BinaryOp where
  | add
  | subtract
  | multiply
  | divide
  | modulo
  | and
  | or
  | xor
  | shiftLeft
  | shiftRight
  | equal
  | unequal
  | less
  | lessEqual
  | greater
  | greaterEqual
  deriving DecidableEq, Repr

/-- The keys of one case: bit patterns of `0`, `1` and `-`, or none for the default. -/
abbrev Keys := Option (List String)

inductive Value where
  | const (constant : Const)
  | signal (leaf : Signal)
  | clock (domain : String)
  | reset (domain : String) (allowResetLess : Bool)
  | initial
  | slice (value : Value) (start stop : Nat)
  | part (value offset : Value) (width stride : Nat)
  | concat (parts : List Value)
  | unary (op : UnaryOp) (operand : Value)
  | binary (op : BinaryOp) (left right : Value)
  | switch (test : Value) (cases : List (Keys × Value))
  deriving Inhabited

def UnaryOp.symbol : UnaryOp → String
  | .invert => "~"
  | .negate => "-"
  | .truth => "b"
  | .any => "r|"
  | .all => "r&"
  | .parity => "r^"
  | .asUnsigned => "u"
  | .asSigned => "s"

def BinaryOp.symbol : BinaryOp → String
  | .add => "+"
  | .subtract => "-"
  | .multiply => "*"
  | .divide => "//"
  | .modulo => "%"
  | .and => "&"
  | .or => "|"
  | .xor => "^"
  | .shiftLeft => "<<"
  | .shiftRight => ">>"
  | .equal => "=="
  | .unequal => "!="
  | .less => "<"
  | .lessEqual => "<="
  | .greater => ">"
  | .greaterEqual => ">="

namespace Value

def ofInt (value : Int) : Value := .const (Const.ofInt value)

def ofBool (truth : Bool) : Value := ofInt truth.toNat

/-- The clock of a domain; the combinatorial domain has none. -/
def clockOf (domain : String) : Except Fault Value :=
  if domain = "comb" then .error (.missingInDomain domain "clock") else .ok (.clock domain)

def resetOf (domain : String) (allowResetLess : Bool) : Except Fault Value :=
  if domain = "comb" then .error (.missingInDomain domain "reset")
  else .ok (.reset domain allowResetLess)

end Value

end Gateware
