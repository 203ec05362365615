import Gateware.Text.Quoted
import Gateware.Value.Fold
import Gateware.Value.Shape

/-!
# Enumerations

An enumeration names values, with or without a declared shape.  It can be used where
a shape or a value is wanted as long as every member folds to a constant.
-/

set_option autoImplicit false

namespace Gateware

inductive MemberValue where
  | int (number : Int)
  | value (tree : Value)
  | text (content : String)

namespace MemberValue

def render : MemberValue → String
  | .int number => toString number
  | .value tree => tree.text
  | .text content => Text.quote content

def const? : MemberValue → Option Const
  | .int number => some (Const.ofInt number)
  | .value tree => tree.fold?
  | .text _ => none

end MemberValue

/-- An enumeration has an identity of its own: two with the same members differ. -/
structure Enumeration where
  id : Nat
  name : String
  members : List (String × MemberValue)
  declared : Option Shape

namespace Enumeration

def consts (enumeration : Enumeration) : Except Fault (List (String × Const)) :=
  enumeration.members.mapM fun (name, value) =>
    match value.const? with
    | some const => .ok (name, const)
    | none => .error .unfoldedMembers

def isConstant (enumeration : Enumeration) : Bool :=
  enumeration.members.all fun member => member.2.const?.isSome

def shape (enumeration : Enumeration) : Except Fault Shape :=
  enumeration.consts.map fun consts =>
    enumeration.declared.getD (Shape.unify (consts.map fun const => const.2.shape))

def text (enumeration : Enumeration) : String := s!"<enum '{enumeration.name}'>"

/-- The constant of the first member with the given number, in the enumeration's shape. -/
def constOf (enumeration : Enumeration) (number : Int) : Except Fault Const := do
  let shape ← enumeration.shape
  let consts ← enumeration.consts
  match consts.find? fun const => const.2.value = number with
  | some const => .ok (Const.fit const.2.value shape)
  | none => .error (.noSuchMember number enumeration.name)

structure Member where
  owner : Enumeration
  index : Nat

def member? (enumeration : Enumeration) (name : String) : Option Member :=
  (enumeration.members.findIdx? fun member => member.1 = name).map (Member.mk enumeration)

def all (enumeration : Enumeration) : List Member :=
  (List.range enumeration.members.length).map (Member.mk enumeration)

namespace Member

def name (member : Member) : String :=
  (member.owner.members[member.index]?.map Prod.fst).getD ""

def value (member : Member) : MemberValue :=
  (member.owner.members[member.index]?.map Prod.snd).getD (.text "")

def isShaped (member : Member) : Bool := member.owner.declared.isSome

/-- Two members are one if their enumeration is one and their place is one. -/
def same (left right : Member) : Bool :=
  left.owner.id = right.owner.id && left.index = right.index

def const (member : Member) : Except Fault Const := do
  let shape ← member.owner.shape
  match member.value.const? with
  | some const => .ok (Const.fit const.value shape)
  | none => .error .unfoldedMembers

def text (member : Member) : String :=
  s!"<{member.owner.name}.{member.name}: {member.value.render}>"

end Member

end Enumeration

end Gateware
