import Gateware.Session

/-!
# Constants and concatenations with warnings

Making a constant of a requested shape, and joining operands whose width the writer
may not have meant.
-/

set_option autoImplicit false

namespace Gateware

namespace Const

/-- An integer in a requested shape.  A bare width is signed when the integer is
negative; the excluded end of a range is likely a mistake. -/
def make (value : Int) (spec : ShapeSpec) : Build Const := do
  let shape ← match spec with
    | .width width => Build.ofExcept (Shape.make width (value < 0))
    | .range range => do
        if range.stop = value then
          Build.warn .constantAtEnd
            (s!"Value {value} equals the non-inclusive end of the constant shape "
              ++ s!"{range.text}; this is likely an off-by-one error")
        pure (Shape.ofRange range)
    | other => Build.castShape other
  return Const.fit value shape

end Const

namespace Operand

/-- Warns about an operand that has no width of its own: an integer other than zero
and one, or a member of an enumeration without a shape. -/
def warnUnsized (operand : Operand) (position : Nat) : Build Unit :=
  match operand with
  | .int number =>
      if number = 0 ∨ number = 1 then pure ()
      else
        Build.warn .bareInteger
          (s!"Argument #{position} of Cat() is a bare integer {number} used in bit vector "
            ++ s!"context; specify the width explicitly using C({number}, "
            ++ s!"{Binary.bitsFor number false})")
  | .member case =>
      if case.isShaped then pure ()
      else
        Build.warn .unshapedMember
          (s!"Argument #{position} of Cat() is an enumerated value {case.text} without a "
            ++ "defined shape used in bit vector context; define the enumeration by "
            ++ "inheriting from the class in amaranth.lib.enum and specifying the 'shape=' "
            ++ "keyword argument")
  | _ => pure ()

end Operand

namespace Value

/-- The operands joined, the first one at the low end. -/
def join (operands : List Operand) : Build Value := do
  let parts ← operands.zipIdx.mapM fun (operand, position) => do
    operand.warnUnsized (position + 1)
    Build.cast operand
  return .concat parts

end Value

end Gateware
