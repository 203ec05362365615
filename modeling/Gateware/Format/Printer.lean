import Gateware.Format.Compile
import Gateware.Value.Pattern

/-!
# Printers

A printer is a format, or shows a value by the labels of its numbers, by named fields
or by elements.  It compiles to a format.
-/

set_option autoImplicit false

namespace Gateware

inductive Printer where
  | format (compiled : Format)
  | labels (value : Value) (variants : List (Int × String)) (name : Option String)
  | fields (value : Value) (named : List (String × Printer))
  | elements (value : Value) (printers : List Printer)

namespace Printer

/-- A text as the constant of its UTF-8 bytes, the first byte at the low end. -/
def label (text : String) : Value :=
  let bytes := text.toUTF8.toList
  let number := bytes.foldr (fun byte n => byte.toNat + 256 * n) 0
  .const (Const.fit (number : Nat) (Shape.unsigned (bytes.length * 8)))

def variants (enumeration : Enumeration) : Except Fault (List (Int × String)) :=
  enumeration.members.mapM fun (name, member) =>
    match member with
    | .int number => .ok (number, name)
    | other => .error (.variantKind other.render)

mutual

def text : Printer → String
  | .format compiled => compiled.text
  | .labels value variants name =>
      "(format-enum " ++ value.text ++ " " ++ (name.map Text.quote).getD "-"
        ++ String.join (variants.map fun (number, label) =>
            s!" ({number} " ++ Text.quote label ++ ")")
        ++ ")"
  | .fields value named =>
      "(format-struct " ++ value.text ++ String.join (fieldTexts named) ++ ")"
  | .elements value printers =>
      "(format-array " ++ value.text ++ String.join (elementTexts printers) ++ ")"

def fieldTexts : List (String × Printer) → List String
  | [] => []
  | (name, printer) :: rest =>
      (" (" ++ Text.quote name ++ " " ++ printer.text ++ ")") :: fieldTexts rest

def elementTexts : List Printer → List String
  | [] => []
  | printer :: rest => (" " ++ printer.text) :: elementTexts rest

end

/-- The format that prints, for a value, the label of the first variant it equals. -/
def labelFormat (value : Value) (variants : List (Int × String)) : Build Format := do
  let cases := variants.map fun (number, text) =>
    (some [Pattern.operand (.int number)], label text)
  let switch ← value.switchOn (cases ++ [(none, label "[unknown]")])
  Format.ofValues "\x7b:s\x7d" [switch]

mutual

def compile : Printer → Build Format
  | .format compiled => pure compiled
  | .labels value variants _ => labelFormat value variants
  | .fields _ named => do
      let chunks ← fieldChunks "" named
      return Format.ofChunks (.text "\x7b" :: chunks ++ [.text "\x7d"])
  | .elements _ printers => do
      let chunks ← elementChunks "" printers
      return Format.ofChunks (.text "[" :: chunks ++ [.text "]"])

def fieldChunks (separator : String) : List (String × Printer) → Build (List Format.Chunk)
  | [] => return []
  | (name, printer) :: rest => do
      let format ← printer.compile
      let chunks ← fieldChunks ", " rest
      return .text (separator ++ name ++ "=") :: format.chunks ++ chunks

def elementChunks (separator : String) : List Printer → Build (List Format.Chunk)
  | [] => return []
  | printer :: rest => do
      let format ← printer.compile
      let chunks ← elementChunks ", " rest
      return .text separator :: format.chunks ++ chunks

end

end Printer

end Gateware
