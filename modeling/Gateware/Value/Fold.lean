import Gateware.Value.Text

/-!
# Constant folding

Constants, their concatenations and their slices are constants again.
-/

set_option autoImplicit false

namespace Gateware

namespace Value

mutual

/-- The constant that a value folds to, none if it is not made of constants,
concatenations and slices. -/
def fold? : Value → Option Const
  | .const constant => some constant
  | .concat parts => (foldParts? parts).map Const.concat
  | .slice value start stop => value.fold?.map fun folded => folded.slice start stop
  | _ => none

def foldParts? : List Value → Option (List Const)
  | [] => some []
  | value :: rest => value.fold?.bind fun folded => (foldParts? rest).map (folded :: ·)

end

def isConstant (value : Value) : Bool := value.fold?.isSome

def toConst (value : Value) : Except Fault Const :=
  match value.fold? with
  | some constant => .ok constant
  | none => .error (.notConstant value.text)

end Value

end Gateware
