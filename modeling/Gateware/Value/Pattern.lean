import Gateware.Session
import Gateware.Text.Blank
import Gateware.Value.Operators

/-!
# Patterns

What a case of a switch matches: a text of bits in which `-` stands for either bit, or
a constant.  Patterns are brought to keys of exactly the width of the matched shape.
-/

set_option autoImplicit false

namespace Gateware

/-- A pattern as it was written. -/
inductive Pattern where
  | bits (text : String)
  | operand (operand : Operand)

namespace Pattern

def ofOperand : Operand → Pattern
  | .text content => .bits content
  | other => .operand other

def render : Pattern → String
  | .bits text => text
  | .operand given => given.render

inductive Normal where
  | bits (key : List Char)
  | const (constant : Const) (key : List Char)

def Normal.key : Normal → String
  | .bits key | .const _ key => String.ofList key

def bitsOf (text : String) : List Char := text.toList.filter fun c => !Text.isBlank c

/-- A pattern in the form that a shape asks for.  A constant that the shape cannot
represent is dropped with a warning. -/
def normalize (shape : Shape) : Pattern → Build (Option Normal)
  | .bits text => do
      let bits := bitsOf text
      if bits.any fun c => c != '0' && c != '1' && c != '-' then
        throw (.patternAlphabet text)
      if bits.length != shape.width then
        throw (.patternWidth text shape.width)
      return some (.bits bits)
  | .operand given => do
      let constant ← match (← Build.design).castConst given with
        | .ok constant => pure constant
        | .error fault =>
            throw (if fault.kind = .type then .patternKind given.render else fault)
      let fitted := Const.fit constant.value shape
      if fitted.value = constant.value then
        return some (.const constant (Binary.digits fitted.value shape.width))
      Build.warn .unmatchablePattern
        (s!"Pattern '{given.render}' ({constant.width}'"
          ++ s!"{Binary.text constant.value constant.width}) is not representable in match "
          ++ s!"value shape ({shape.text}); comparison will never be true")
      return none

def normalizeAll (patterns : List Pattern) (shape : Shape) : Build (List Normal) := do
  return (← patterns.mapM (normalize shape)).filterMap id

def keys (patterns : List Pattern) (shape : Shape) : Build (List String) := do
  return (← normalizeAll patterns shape).map Normal.key

def caseKeys (patterns : Option (List Pattern)) (shape : Shape) : Build Keys :=
  match patterns with
  | none => pure none
  | some patterns => do return some (← keys patterns shape)

end Pattern

namespace Value

def switchOn (test : Value) (cases : List (Option (List Pattern) × Value)) : Build Value := do
  let keyed ← cases.mapM fun (patterns, value) => do
    return (← Pattern.caseKeys patterns test.shape, value)
  return .switch test keyed

/-- The comparison of a value with a pattern; bits that may be either are masked. -/
def matchesNormal (value : Value) : Pattern.Normal → Value
  | .const constant _ => .binary .equal value (ofInt constant.value)
  | .bits [] => ofInt 1
  | .bits key =>
      if key.contains '-' then
        let mask := key.map fun c => if c = '-' then '0' else '1'
        .binary .equal (.binary .and value (ofInt (Binary.read mask)))
          (ofInt (Binary.read key))
      else .binary .equal value (ofInt (Binary.read key))

def matching (value : Value) (patterns : List Pattern) : Build Value := do
  match (← Pattern.normalizeAll patterns value.shape).map value.matchesNormal with
  | [] => return ofInt 0
  | [single] => return single
  | several => return .unary .any (.concat several)

end Value

end Gateware
