import Gateware.Format.Specifier
import Gateware.Text.Numeral

/-!
# Literals in formats

The text of an integer or of a string under a specifier.
-/

set_option autoImplicit false

namespace Gateware.Format

/-- A text of a sign and radix mark before a body, filled up to a width.  The fill goes
to the right, to both sides with the smaller half left, between mark and body, or to
the left. -/
def pad (mark body : String) (fill align : Char) (width : Option Nat) : String :=
  let missing := width.getD 0 - (mark.length + body.length)
  match align with
  | '<' => mark ++ body ++ Text.fill fill missing
  | '^' =>
      let left := missing / 2
      Text.fill fill left ++ mark ++ body ++ Text.fill fill (missing - left)
  | '=' => mark ++ Text.fill fill missing ++ body
  | _ => Text.fill fill missing ++ mark ++ body

/-- Puts a separator before every group of digits counted from the right, but not
before the first. -/
def group (separator : Char) (size : Nat) : List Char → List Char
  | [] => []
  | [last] => [last]
  | digit :: rest =>
      if rest.length % size = 0 then digit :: separator :: group separator size rest
      else digit :: group separator size rest

inductive IntStyle where
  | character
  | numeral (radix : Nat) (mark : String)

def intStyle? : Char → Option IntStyle
  | 'd' | 'n' => some (.numeral 10 "")
  | 'b' => some (.numeral 2 "0b")
  | 'o' => some (.numeral 8 "0o")
  | 'x' => some (.numeral 16 "0x")
  | 'X' => some (.numeral 16 "0X")
  | 'c' => some .character
  | _ => none

def mayGroup (style : IntStyle) (grouping : Char) : Bool :=
  match style with
  | .character => false
  | .numeral radix _ => radix = 10 || grouping ≠ ','

def digitText (radix n : Nat) (upper : Bool) (grouping : Option Char) : String :=
  let digits := Nat.toDigits radix n
  let digits := if upper then digits.map Char.toUpper else digits
  String.ofList (match grouping with
    | some separator => group separator (if radix = 10 then 3 else 4) digits
    | none => digits)

def codeText (value : Int) (specifier : Specifier) : Except Fault String := do
  if specifier.sign.isSome then throw .characterSign
  if specifier.alternate then throw .characterAlternate
  if 0 ≤ value ∧ value.toNat.isValidChar then return (Char.ofNat value.toNat).toString
  throw .characterCode

def signText (negative : Bool) (sign : Option Char) : String :=
  if negative then "-"
  else match sign with
    | some '+' => "+"
    | some ' ' => " "
    | _ => ""

def intText (value : Int) (text : String) : Except Fault String := do
  let specifier ← Specifier.read text
  let type := specifier.type.getD 'd'
  if specifier.precision.isSome then throw .integerPrecision
  let style ← match intStyle? type with
    | some style => pure style
    | none => throw (.integerType type)
  if let some grouping := specifier.grouping then
    if !mayGroup style grouping then throw (.groupedType grouping type)
  let (body, mark) ← match style with
    | .character => pure (← codeText value specifier, "")
    | .numeral radix mark =>
        pure (digitText radix value.natAbs (type = 'X') specifier.grouping, mark)
  let mark := signText (value < 0) specifier.sign ++ (if specifier.alternate then mark else "")
  if specifier.zero && specifier.align.isNone then
    return pad mark body '0' '=' specifier.width
  return pad mark body (specifier.fill.getD ' ') (specifier.align.getD '>') specifier.width

def stringText (string text : String) : Except Fault String := do
  let specifier ← Specifier.read text
  match specifier.type with
  | none | some 's' => pure ()
  | some other => throw (.textType other)
  if specifier.sign.isSome then throw .textSign
  if specifier.alternate then throw .textAlternate
  if specifier.align = some '=' then throw .textAlignment
  if let some grouping := specifier.grouping then throw (.groupedType grouping 's')
  let body := match specifier.precision with
    | some count => String.ofList (string.toList.take count)
    | none => string
  let fill := specifier.fill.getD (if specifier.zero then '0' else ' ')
  return pad "" body fill (specifier.align.getD '<') specifier.width

end Gateware.Format
