import Gateware.Word

/-!
# Documents

A structured document: the tree of nulls, truth values, numbers, texts, lists and
records in which data is stored.  A record read with named fields may also be stored as
the list of its fields in order.
-/

set_option autoImplicit false

namespace Gateware

inductive Document where
  | null
  | bool (truth : Bool)
  | int (number : Int)
  | real
  | text (content : String)
  | list (items : List Document)
  | record (fields : List (String × Document))
  deriving Inhabited

namespace Document

/-- The fields of a record by their names, each none if it is missing.  A list holds the
fields in order and must hold no more. -/
def fields? (names : List String) : Document → Option (List (Option Document))
  | .record fields =>
      some (names.map fun name => (fields.find? fun field => field.1 = name).map Prod.snd)
  | .list items =>
      if items.length ≤ names.length then
        some ((List.range names.length).map fun index => items[index]?)
      else none
  | _ => none

def int? (least greatest : Int) : Document → Option Int
  | .int number => if least ≤ number ∧ number ≤ greatest then some number else none
  | _ => none

def word? (bits : Nat) (document : Document) : Option Nat :=
  (int? 0 (2 ^ bits - 1) document).map Int.toNat

def position? : Document → Option Int := int? (-2 ^ 63) (2 ^ 63 - 1)

def bool? : Document → Option Bool
  | .bool truth => some truth
  | _ => none

def text? : Document → Option String
  | .text content => some content
  | _ => none

def orNull? {α : Type} (read? : Document → Option α) : Document → Option (Option α)
  | .null => some none
  | document => (read? document).map some

def list? {α : Type} (read? : Document → Option α) : Document → Option (List α)
  | .list items => items.mapM read?
  | _ => none

def word : Document → Option String
  | .text content => some content
  | .record [(name, .null)] => some name
  | _ => none

def alternative? {α : Type} (alternatives : List (String × α)) (document : Document) :
    Option α := do
  let word ← document.word
  (alternatives.find? fun alternative => alternative.1 = word).map Prod.snd

end Document

end Gateware
