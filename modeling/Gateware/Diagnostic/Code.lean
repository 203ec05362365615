import Gateware.Text.Numeral

/-!
# Diagnostic codes

A code is a category and a number, written as a letter and at least three digits.
The codes of the warnings this library raises are named here.
-/

set_option autoImplicit false

namespace Gateware.Diagnostic

inductive Category where
  | error
  | warning
  deriving DecidableEq, Repr

def Category.letter : Category → Char
  | .error => 'E'
  | .warning => 'W'

structure Code where
  category : Category
  number : Nat
  deriving DecidableEq, Repr

namespace Code

def text (code : Code) : String :=
  code.category.letter.toString ++ Text.padLeft '0' 3 (toString code.number)

def constantAtEnd : Code := ⟨.warning, 301⟩

def signedInitial : Code := ⟨.warning, 302⟩

def truncatedInitial : Code := ⟨.warning, 303⟩

def bareInteger : Code := ⟨.warning, 304⟩

def unshapedMember : Code := ⟨.warning, 305⟩

def unmatchablePattern : Code := ⟨.warning, 306⟩

end Code

end Gateware.Diagnostic
