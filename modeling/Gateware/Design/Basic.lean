import Gateware.Association
import Gateware.Operand

/-!
# Designs

A design holds everything that has an identity: the signals declared so far, the
banks and their elements, and the custom shapes and values.  An identity is the place
of the object in its table; objects are added and never removed.
-/

set_option autoImplicit false

namespace Gateware

inductive Decoder where
  | enumeration (type : Enumeration)
  | function (render : Int → String)

namespace Decoder

/-- The text of a number: the name of the first member that has it, beside the number,
or the number alone. -/
def decode (decoder : Decoder) (value : Int) : String :=
  match decoder with
  | .enumeration type =>
      match type.consts with
      | .ok consts =>
          match consts.find? fun const => const.2.value = value with
          | some const => s!"{const.1}/{const.2.value}"
          | none => toString value
      | .error _ => toString value
  | .function render => render value

def text : Decoder → String
  | .enumeration type => "Enum(" ++ Text.inspect type.name ++ ")"
  | .function _ => "Fn(..)"

end Decoder

/-- What was declared of a signal beside its name and its shape. -/
structure Declaration where
  signal : Signal
  spec : ShapeSpec
  init : Int
  resetLess : Bool
  attributes : Association String String
  decoder : Option Decoder

inductive Element where
  | int (number : Int)
  | value (tree : Value)
  | bank (id : Nat)
  | record (name : String) (fields : List (String × Element))
  | lookup (source : Lookup)

/-- Elements in order.  A bank that was read at an index not known beforehand is
frozen: its elements no longer change. -/
structure Bank where
  elements : List Element
  frozen : Bool := false

/-- What an initializer of a custom shape comes to: an operand as it is, or a number
to be fitted into the custom shape. -/
inductive Initializer where
  | operand (given : Operand)
  | fitted (number : Int)

/-- A shape defined outside the library.  It stands for its target, and decides how it
is initialized, how a signal of it is seen and by which template it is printed. -/
structure CustomShape where
  name : String
  target : ShapeSpec
  initial : Option Operand → Except Fault Initializer :=
    fun init => .ok (.operand (init.getD (.int 0)))
  view : Value → Except Fault Operand := fun value => .ok (.value value)
  template : String → Except Fault String :=
    fun specifier => .ok ("\x7b:" ++ specifier ++ "\x7d")

/-- A value defined outside the library.  It stands for its target; its shape is the
declared one, or that of the target. -/
structure CustomValue where
  name : String
  target : Except Fault Operand
  declared : Option ShapeSpec := none

structure Design where
  signals : Array Declaration := #[]
  banks : Array Bank := #[]
  shapes : Array CustomShape := #[]
  values : Array CustomValue := #[]
  fresh : Nat := 0

namespace Design

def elements (design : Design) (bank : Nat) : List Element :=
  (design.banks[bank]?.map Bank.elements).getD []

def isFrozen (design : Design) (bank : Nat) : Bool :=
  (design.banks[bank]?.map Bank.frozen).getD false

/-- The number of banks, which bounds how deep banks can lie in each other unless one
contains itself. -/
def depth (design : Design) : Nat := design.banks.size + 1

end Design

namespace Element

def field? (element : Element) (name : String) : Option Element :=
  match element with
  | .record _ fields => (fields.find? fun field => field.1 = name).map Prod.snd
  | _ => none

def item? (element : Element) (index : Nat) : Option Element :=
  match element with
  | .record _ fields => fields[index]?.map Prod.snd
  | _ => none

mutual

def textWith (bankText : Nat → String) : Element → String
  | .int number => toString number
  | .value tree => tree.text
  | .bank id => bankText id
  | .record name fields => name ++ "(" ++ Text.join ", " (fieldTexts bankText fields) ++ ")"
  | .lookup source => s!"(proxy {bankText source.bank} {source.index.text})"

def fieldTexts (bankText : Nat → String) : List (String × Element) → List String
  | [] => []
  | (name, element) :: rest =>
      s!"{name}={element.textWith bankText}" :: fieldTexts bankText rest

end

end Element

namespace Design

def bankTextWithin (design : Design) : Nat → Nat → String
  | 0, _ => "(array ...)"
  | levels + 1, bank =>
      (if design.isFrozen bank then "(array [" else "(array mutable [")
        ++ Text.join ", " ((design.elements bank).map
            (Element.textWith (design.bankTextWithin levels)))
        ++ "])"

def bankText (design : Design) (bank : Nat) : String :=
  design.bankTextWithin design.depth bank

def elementText (design : Design) (element : Element) : String :=
  element.textWith design.bankText

def lookupText (design : Design) (lookup : Lookup) : String :=
  design.elementText (.lookup lookup)

end Design

end Gateware
