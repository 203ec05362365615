import Gateware.Format.Printer

/-!
# Inserting printers and custom values

The objects that a format of a design may hold: printers, and operands that are cast
when the format is compiled, custom values and lookups among them.  An operand of a
custom shape is printed as its shape says.
-/

set_option autoImplicit false

namespace Gateware

inductive Insert where
  | printer (inserted : Printer)
  | operand (inserted : Operand)

namespace Design

def operandText (design : Design) : Operand → String
  | .lookup source => design.lookupText source
  | other => other.render

def operandShape (design : Design) : Operand → Except Fault ShapeSpec
  | .custom object => design.customValueShape object
  | .lookup source => (design.lookupShape source).map ShapeSpec.shape
  | other => (design.cast other).map fun value => .shape value.shape

end Design

namespace Insert

def render (design : Design) : Insert → String
  | .printer inserted => inserted.text
  | .operand inserted => design.operandText inserted

def toValue (design : Design) : Insert → Except Fault Value
  | .printer inserted => .error (.notValue inserted.text)
  | .operand inserted => design.cast inserted

def notText (design : Design) : Insert → Fault
  | .printer inserted => .formatAsText inserted.text
  | .operand inserted => .customAsText (design.operandText inserted)

end Insert

namespace Format

def ofCustomShape (shape : Custom) (operand : Operand) (specifier : String) :
    Build Format := do
  match (← Build.design).shapes[shape.id]? with
  | none => throw (.notShape shape.name)
  | some definition =>
      let template ← Build.ofExcept (definition.template specifier)
      let value ← Build.cast operand
      ofValues template [value]

/-- The chunks of an inserted object.  A printer takes no specifier. -/
def insertChunks (object : Insert) (specifier : String) : Build (List Chunk) := do
  match object with
  | .printer inserted =>
      if !specifier.isEmpty then throw (.formatSpecifier specifier)
      return (← inserted.compile).chunks
  | .operand inserted =>
      match ← Build.ofExcept ((← Build.design).operandShape inserted) with
      | .custom shape => return (← ofCustomShape shape inserted specifier).chunks
      | _ =>
          let value ← Build.cast inserted
          Build.ofExcept (Specifier.checkValue specifier value.shape)
          return [.argument value specifier]

def insertion (design : Design) : Insertion Insert where
  render := Insert.render design
  toValue := Insert.toValue design
  notText := Insert.notText design
  chunks := insertChunks

def compile (template : String) (arguments : Arguments Insert) : Build Format := do
  compileWith (insertion (← Build.design)) arguments template

end Format

end Gateware
