import Gateware.Bank.Basic

/-!
# Lookups

A lookup stands for the element that an index value picks.  Its items and its fields
are taken of every element at once and make a new bank, read at the same index.
-/

set_option autoImplicit false

namespace Gateware

namespace Element

def itemWith (lookupItem : Lookup → Build Lookup) (index : Operand) (element : Element) :
    Build Element :=
  match element, index with
  | .bank id, .int number => do
      Build.ofExcept (Bank.elementAt ((← Build.design).elements id) number)
  | .bank id, index => do return .lookup (← Bank.select id index)
  | .lookup source, _ => do return .lookup (← lookupItem source)
  | .record _ fields, .int number =>
      Build.ofExcept ((Bank.elementAt fields number).map Prod.snd)
  | element, .int number => do
      if number < Position.min ∨ Position.max < number then throw (.bankIndex number)
      let value ← Build.ofExcept ((← Build.design).elementValue element)
      Build.ofExcept ((value.index (.bit number)).map Element.value)
  | element, index => do
      let index ← Build.cast index
      let value ← Build.ofExcept ((← Build.design).elementValue element)
      Build.ofExcept ((value.index (.value index)).map Element.value)

def fieldWith (lookupField : Lookup → Build Lookup) (name : String) (element : Element) :
    Build Element :=
  match element with
  | .lookup source => do return .lookup (← lookupField source)
  | _ => do
      let some found := element.field? name
        | throw (.noField ((← Build.design).elementText element) name)
      return found

end Element

namespace Lookup

/-- A lookup at the same index in a bank of new elements, frozen as the old one is. -/
def derive (lookup : Lookup) (elements : List Element) : Build Lookup := do
  let frozen := (← Build.design).isFrozen lookup.bank
  return { lookup with bank := ← Build.newBank elements frozen }

/-- Applies a step to every element, through so many levels of banks. -/
def mapWithin (step : (Lookup → Build Lookup) → Element → Build Element) :
    Nat → Lookup → Build Lookup
  | 0, _ => throw .endlessBank
  | levels + 1, lookup => do
      let elements := (← Build.design).elements lookup.bank
      lookup.derive (← elements.mapM (step (mapWithin step levels)))

def item (lookup : Lookup) (index : Operand) : Build Lookup := do
  lookup.mapWithin (fun items => Element.itemWith items index) (← Build.design).depth

def field (lookup : Lookup) (name : String) : Build Lookup := do
  lookup.mapWithin (fun fields => Element.fieldWith fields name) (← Build.design).depth

end Lookup

end Gateware
