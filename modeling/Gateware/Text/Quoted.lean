import Gateware.Text.Numeral
import Gateware.Text.Unseen

/-!
# Quoted text

Text as it is written inside messages and canonical forms.  The delimiter is the
single quote, or the double quote when the text holds a single quote and no double
one; the delimiter and the backslash are escaped, the line feed, carriage return
and tabulator have short escapes, and other control characters are written as
hexadecimal numbers.
-/

set_option autoImplicit false

namespace Gateware.Text

def singleQuote : Char := '\x27'

def doubleQuote : Char := '\x22'

def delimiter (text : List Char) : Char :=
  if text.contains singleQuote && !text.contains doubleQuote then doubleQuote else singleQuote

def hexEscape (code : Nat) : List Char :=
  if code ≤ 0xff then ['\\', 'x'] ++ (padLeft '0' 2 (numeral 16 code)).toList
  else if code ≤ 0xffff then ['\\', 'u'] ++ (padLeft '0' 4 (numeral 16 code)).toList
  else ['\\', 'U'] ++ (padLeft '0' 8 (numeral 16 code)).toList

/-- The characters that stand for `c` between marks `mark`. -/
def escapeChar (asciiOnly : Bool) (mark c : Char) : List Char :=
  if c = '\\' then ['\\', '\\']
  else if c = '\n' then ['\\', 'n']
  else if c = '\r' then ['\\', 'r']
  else if c = '\t' then ['\\', 't']
  else if c = mark then ['\\', c]
  else if c.toNat < 0x20 || c.toNat = 0x7f || (asciiOnly && 0x7f < c.toNat) then
    hexEscape c.toNat
  else [c]

def quoteChars (asciiOnly : Bool) (text : List Char) : List Char :=
  let mark := delimiter text
  mark :: (text.flatMap (escapeChar asciiOnly mark) ++ [mark])

def quote (text : String) : String := String.ofList (quoteChars false text.toList)

def quoteAscii (text : String) : String := String.ofList (quoteChars true text.toList)

/-- The characters that stand for `c` in a text shown for inspection, between double
quotes: a code point without a shape of its own is written as a braced number. -/
def inspectChar (c : Char) : List Char :=
  if c = Char.ofNat 0 then ['\\', '0']
  else if c = '\t' then ['\\', 't']
  else if c = '\r' then ['\\', 'r']
  else if c = '\n' then ['\\', 'n']
  else if c = doubleQuote || c = '\\' then ['\\', c]
  else if c.toNat < 0x20 || c.toNat = 0x7f || isUnseen c then
    ['\\', 'u', openBrace] ++ (numeral 16 c.toNat).toList ++ [closeBrace]
  else [c]

def inspect (text : String) : String :=
  String.ofList (doubleQuote :: (text.toList.flatMap inspectChar ++ [doubleQuote]))

end Gateware.Text
