import Gateware.Format.Basic
import Gateware.Format.Literal
import Gateware.Session

/-!
# Compiling templates

A template takes its arguments by number or by name, and each argument must be used.
Fields are numbered by themselves or by hand, never both.  A field inside a specifier
takes its argument after the field that holds it; it must be an integer or a string,
since a specifier is text.

What may be an argument beside integers, strings and values is left open: the objects
of a type are inserted by the rules given for them.
-/

set_option autoImplicit false

namespace Gateware.Format

inductive Arg (Object : Type) where
  | int (number : Int)
  | text (content : String)
  | value (tree : Value)
  | object (inserted : Object)

structure Insertion (Object : Type) where
  render : Object → String
  toValue : Object → Except Fault Value
  notText : Object → Fault
  chunks : Object → String → Build (List Chunk)

def Insertion.none : Insertion Empty where
  render := nofun
  toValue := nofun
  notText := nofun
  chunks := nofun

structure Arguments (Object : Type) where
  positional : List (Arg Object) := []
  named : List (String × Arg Object) := []

namespace Arg

variable {Object : Type}

def render (insertion : Insertion Object) : Arg Object → String
  | .int number => toString number
  | .text content => Text.quote content
  | .value tree => tree.text
  | .object inserted => insertion.render inserted

def toValue (insertion : Insertion Object) : Arg Object → Except Fault Value
  | .int number => .ok (Value.ofInt number)
  | .text content => .error (.notValue (Text.quote content))
  | .value tree => .ok tree
  | .object inserted => insertion.toValue inserted

/-- An argument after a conversion: to a value, to its text, or to its ASCII text. -/
def convert (insertion : Insertion Object) (argument : Arg Object) :
    Option Char → Except Fault (Arg Object)
  | none => .ok argument
  | some 'v' => (argument.toValue insertion).map Arg.value
  | some 'r' => .ok (.text (argument.render insertion))
  | some 'a' =>
      match argument with
      | .text content => .ok (.text (Text.quoteAscii content))
      | _ => .ok (.text (argument.render insertion))
  | some 's' =>
      match argument with
      | .text content => .ok (.text content)
      | _ => .ok (.text (argument.render insertion))
  | some other => .error (.unknownConversion other)

def literal (insertion : Insertion Object) (argument : Arg Object) (specifier : String) :
    Except Fault String :=
  match argument with
  | .int number => intText number specifier
  | .text content => stringText content specifier
  | .value tree => .error (.valueAsText tree.text)
  | .object inserted => .error (insertion.notText inserted)

end Arg

structure Binding where
  /-- The number of the next field without a name; none once a field has a number. -/
  next : Option Nat := some 0
  positional : List Nat := []
  named : List Nat := []

namespace Binding

variable {Object : Type}

def takeNumber (arguments : Arguments Object) (binding : Binding) (index : Nat) :
    Except Fault (Arg Object × Binding) :=
  match arguments.positional[index]? with
  | some argument => .ok (argument, { binding with positional := index :: binding.positional })
  | none => .error (.missingPositional index)

def take (arguments : Arguments Object) (binding : Binding) (name : String) :
    Except Fault (Arg Object × Binding) :=
  if name.isEmpty then
    match binding.next with
    | none => .error .manualThenAutomatic
    | some next => takeNumber arguments { binding with next := some (next + 1) } next
  else if name.toList.all Char.isDigit then
    if binding.next.any (0 < ·) then .error .automaticThenManual
    else match Specifier.number name.toList with
      | none => .error .fieldNumber
      | some index => takeNumber arguments { binding with next := none } index
  else
    match arguments.named.findIdx? fun argument => argument.1 = name with
    | none => .error (.missingKeyword name)
    | some index =>
        match arguments.named[index]? with
        | none => .error (.missingKeyword name)
        | some argument => .ok (argument.2, { binding with named := index :: binding.named })

def finish (arguments : Arguments Object) (binding : Binding) : Except Fault Unit := do
  let unused (count : Nat) (used : List Nat) : Option Nat :=
    (List.range count).find? fun index => !used.contains index
  if let some index := unused arguments.positional.length binding.positional then
    throw (.unusedPositional index)
  if let some index := unused arguments.named.length binding.named then
    throw (.unusedKeyword ((arguments.named[index]?.map Prod.fst).getD ""))

end Binding

section

variable {Object : Type} (insertion : Insertion Object) (arguments : Arguments Object)

/-- The text of a specifier, whose fields may nest to the given depth. -/
def specifierWithin : Nat → Binding → String → Except Fault (String × Binding)
  | 0, _, _ => .error .openField
  | depth + 1, binding, template => do
      let pieces ← Template.read template
      pieces.foldlM (fun (text, binding) piece =>
        match piece with
        | .text content => pure (text ++ content, binding)
        | .field name conversion specifier => do
            let (argument, binding) ← binding.take arguments name
            let argument ← argument.convert insertion conversion
            let (specifier, binding) ← specifierWithin depth binding specifier
            let literal ← argument.literal insertion specifier
            pure (text ++ literal, binding)) ("", binding)

/-- The text of a specifier after its fields are filled in.  A field is longer than the
specifier inside it, so the length bounds the depth. -/
def specifierText (binding : Binding) (template : String) :
    Except Fault (String × Binding) :=
  specifierWithin insertion arguments (template.length + 1) binding template

def compilePiece (binding : Binding) : Piece → Build (List Chunk × Binding)
  | .text content => return ([.text content], binding)
  | .field name conversion specifier => do
      let (argument, binding) ← Build.ofExcept (binding.take arguments name)
      let argument ← Build.ofExcept (argument.convert insertion conversion)
      let (specifier, binding) ←
        Build.ofExcept (specifierText insertion arguments binding specifier)
      match argument with
      | .value tree =>
          Build.ofExcept (Specifier.checkValue specifier tree.shape)
          return ([.argument tree specifier], binding)
      | .object inserted => return (← insertion.chunks inserted specifier, binding)
      | literal =>
          let text ← Build.ofExcept (literal.literal insertion specifier)
          return ([.text text], binding)

def compileWith (template : String) : Build Format := do
  let pieces ← Build.ofExcept (Template.read template)
  let (chunks, binding) ← pieces.foldlM (fun (chunks, binding) piece => do
    let (more, binding) ← compilePiece insertion arguments binding piece
    return (chunks ++ more, binding)) ([], {})
  Build.ofExcept (binding.finish arguments)
  return ofChunks chunks

end

def ofValues (template : String) (values : List Value) : Build Format :=
  compileWith Insertion.none { positional := values.map Arg.value } template

end Gateware.Format
