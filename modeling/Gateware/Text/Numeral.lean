/-!
# Numerals and padding

Positional numerals of natural numbers in a radix up to sixteen, and text filled up
to a number of characters.
-/

set_option autoImplicit false

namespace Gateware.Text

def numeral (radix n : Nat) : String := String.ofList (Nat.toDigits radix n)

def hexDigit? (c : Char) : Option Nat :=
  if c.isDigit then some (c.toNat - '0'.toNat)
  else if 'a' ≤ c.toLower ∧ c.toLower ≤ 'f' then some (c.toLower.toNat - 'a'.toNat + 10)
  else none

/-- The number of a hexadecimal numeral, in which underscores may follow the first
digit. -/
def hexNatural? (digits : List Char) : Option Nat :=
  match digits with
  | [] | '_' :: _ => none
  | _ => digits.foldlM (fun n c =>
      if c = '_' then some n else (hexDigit? c).map fun digit => 16 * n + digit) 0

def hexadecimal? (text : String) : Option Int :=
  match text.toList with
  | '-' :: '+' :: _ => none
  | '-' :: digits => (hexNatural? digits).map fun n => -(n : Int)
  | '+' :: digits => (hexNatural? digits).map Int.ofNat
  | digits => (hexNatural? digits).map Int.ofNat

def fill (c : Char) (count : Nat) : String := String.ofList (List.replicate count c)

def padLeft (c : Char) (width : Nat) (text : String) : String :=
  fill c (width - text.length) ++ text

def join (separator : String) (texts : List String) : String :=
  separator.intercalate texts

def openBrace : Char := '\x7b'

def closeBrace : Char := '\x7d'

end Gateware.Text
