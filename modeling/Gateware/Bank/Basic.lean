import Gateware.Session
import Gateware.Value.Selection

/-!
# Banks

Elements in order, read at an integer or at a value.  Reading a bank at a value that
does not fold to a constant freezes it for good: what the reading means depends on the
elements as they are.
-/

set_option autoImplicit false

namespace Gateware.Bank

/-- The place of an index in a list, counted from the end if it is negative. -/
def place (index : Int) (length : Nat) : Except Fault Nat :=
  let resolved := if index < 0 then index + length else index
  if 0 ≤ resolved ∧ resolved < length then .ok resolved.toNat else .error (.bankIndex index)

def elementAt {α : Type} (elements : List α) (index : Int) : Except Fault α := do
  let position ← place index elements.length
  match elements[position]? with
  | some element => .ok element
  | none => .error (.bankIndex index)

def change {α : Type} (bank : Nat)
    (edit : List Element → Except Fault (List Element × α)) : Build α := do
  let design ← Build.design
  if design.isFrozen bank then throw .frozenBank
  let (elements, result) ← Build.ofExcept (edit (design.elements bank))
  Build.modifyDesign fun design =>
    { design with banks := design.banks.modify bank fun state => { state with elements } }
  return result

def set (bank index : Nat) (element : Element) : Build Unit :=
  change bank fun elements =>
    if index < elements.length then .ok (elements.set index element, ())
    else .error (.bankIndex index)

def remove (bank index : Nat) : Build Element :=
  change bank fun elements =>
    match elements[index]? with
    | some element => .ok (elements.eraseIdx index, element)
    | none => .error (.bankIndex index)

def insert (bank index : Nat) (element : Element) : Build Unit :=
  change bank fun elements =>
    .ok (elements.take index ++ element :: elements.drop index, ())

def push (bank : Nat) (element : Element) : Build Unit :=
  change bank fun elements => .ok (elements ++ [element], ())

def freeze (bank : Nat) : Build Unit :=
  Build.modifyDesign fun design =>
    { design with banks := design.banks.modify bank fun state => { state with frozen := true } }

def select (bank : Nat) (index : Operand) : Build Lookup := do
  let value ← Build.cast index
  if !value.isConstant then freeze bank
  return { bank, index := value }

end Gateware.Bank
