import Gateware.Shape.Basic

/-!
# Specifiers

A specifier is `[[fill]align][sign][#][0][width][grouping][.precision][type]`.  Every
part is optional, and the text is read from left to right without going back.
-/

set_option autoImplicit false

namespace Gateware.Format

structure Specifier where
  fill : Option Char := none
  align : Option Char := none
  sign : Option Char := none
  alternate : Bool := false
  zero : Bool := false
  width : Option Nat := none
  grouping : Option Char := none
  precision : Option Nat := none
  type : Option Char := none
  deriving DecidableEq, Repr

namespace Specifier

def alignments : List Char := ['<', '>', '=', '^']

def signs : List Char := ['+', '-', ' ']

def groupings : List Char := ['_', ',']

def types : List Char :=
  ['b', 'c', 'd', 'e', 'E', 'f', 'F', 'g', 'G', 'n', 'o', 's', 'x', 'X', '%']

def takeOne (wanted : List Char) : List Char → Option Char × List Char
  | [] => (none, [])
  | c :: rest => if wanted.contains c then (some c, rest) else (none, c :: rest)

def takeAlign : List Char → Option Char × Option Char × List Char
  | fill :: align :: rest =>
      if alignments.contains align then (some fill, some align, rest)
      else if alignments.contains fill then (none, some fill, align :: rest)
      else (none, none, fill :: align :: rest)
  | [align] => if alignments.contains align then (none, some align, []) else (none, none, [align])
  | [] => (none, none, [])

/-- The number that decimal digits denote, none if there are none or it leaves a word. -/
def number (digits : List Char) : Option Nat :=
  let value := digits.foldl (fun n c => 10 * n + (c.toNat - '0'.toNat)) 0
  if digits.isEmpty || Width.max < value then none else some value

def takeNumber (text : List Char) : Option Nat × List Char :=
  (number (text.takeWhile Char.isDigit), text.dropWhile Char.isDigit)

def takePrecision : List Char → Option (Option Nat × List Char)
  | '.' :: rest =>
      match takeNumber rest with
      | (some precision, rest) => some (some precision, rest)
      | (none, _) => none
  | text => some (none, text)

def read? (text : String) : Option Specifier := do
  let (fill, align, text) := takeAlign text.toList
  let (sign, text) := takeOne signs text
  let (alternate, text) := takeOne ['#'] text
  let (zero, text) := takeOne ['0'] text
  let (width, text) := takeNumber text
  let (grouping, text) := takeOne groupings text
  let (precision, text) ← takePrecision text
  let (type, text) := takeOne types text
  if text.isEmpty then
    some ⟨fill, align, sign, alternate.isSome, zero.isSome, width, grouping, precision, type⟩
  else none

def read (text : String) : Except Fault Specifier :=
  match read? text with
  | some specifier => .ok specifier
  | none => .error (.specifier text)

def valueTypes : List Char := ['b', 'o', 'd', 'x', 'X', 'c', 's', 'n']

def characterLimit? (specifier : Specifier) (shape : Shape) : Option Fault.CharacterLimit :=
  if shape.signed then some .signed
  else if specifier.align = some '=' then some .alignment
  else if specifier.sign.isSome then some .sign
  else if specifier.zero then some .zeroFill
  else if specifier.alternate then some .alternate
  else if specifier.grouping = some '_' then some .grouping
  else if shape.width % 8 ≠ 0 then some .width
  else none

def checkValue (text : String) (shape : Shape) : Except Fault Unit := do
  let specifier ← read text
  if specifier.precision.isSome || specifier.width = some 0 then throw (.specifier text)
  if let some type := specifier.type then
    if !valueTypes.contains type then throw (.specifier text)
  if specifier.align = some '^' then throw .centredValue
  if specifier.grouping = some ',' then throw .commaGroupedValue
  match specifier.type with
  | some 'n' => throw .numberValue
  | some type =>
      if type = 'c' || type = 's' then
        match specifier.characterLimit? shape with
        | some limit => throw (.characterValue limit type)
        | none => pure ()
      else pure ()
  | none => pure ()

end Specifier

end Gateware.Format
