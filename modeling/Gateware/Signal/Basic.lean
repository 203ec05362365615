import Gateware.Signal.Plan

/-!
# Declared signals

How a declared signal writes its numbers, and how it is printed in a format.
-/

set_option autoImplicit false

namespace Gateware.Declaration

def decode (declaration : Declaration) (value : Int) : String :=
  match declaration.decoder with
  | some decoder => decoder.decode value
  | none => toString value

def enumeration? (declaration : Declaration) : Option Enumeration :=
  match declaration.decoder, declaration.spec with
  | some (.enumeration type), _ => some type
  | _, .enumeration type => some type
  | _, _ => none

/-- The printer of the signal: by the labels of its enumeration, as its custom shape
says, or as a number. -/
def printer (declaration : Declaration) : Build Printer := do
  let value := Value.signal declaration.signal
  match declaration.enumeration?, declaration.spec with
  | some type, _ =>
      return .labels value (← Build.ofExcept (Printer.variants type)) (some type.name)
  | none, .custom shape =>
      match (← Build.design).shapes[shape.id]? with
      | none => throw (.notShape shape.name)
      | some definition =>
          let seen ← Build.ofExcept (definition.view value)
          return .format (← Format.ofCustomShape shape seen "")
  | none, _ => return .format (← Format.ofValues "\x7b\x7d" [value])

end Gateware.Declaration
