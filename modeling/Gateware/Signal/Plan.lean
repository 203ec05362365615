import Gateware.Format.Insert

/-!
# Declaring signals

A plan collects what is to be declared of a signal.  Declaring it casts the shape,
brings the initial value into that shape, and warns or refuses if it does not fit.
-/

set_option autoImplicit false

namespace Gateware

structure Signal.Plan where
  spec : ShapeSpec
  name : String := "$signal"
  /-- The name of the signal that this one is like. -/
  model : Option String := none
  suffix : Option String := none
  init : Option Operand := none
  resetLess : Bool := false
  attributes : Association String String := []
  decoder : Option Decoder := none

namespace Signal.Plan

def named (plan : Plan) (name : String) : Plan := { plan with name, suffix := none }

def suffixed (plan : Plan) (suffix : String) : Plan := { plan with suffix := some suffix }

def initialized (plan : Plan) (init : Operand) : Plan := { plan with init := some init }

def withoutReset (plan : Plan) : Plan := { plan with resetLess := true }

def withAttribute (plan : Plan) (key value : String) : Plan :=
  { plan with attributes := plan.attributes.put key value }

def decoded (plan : Plan) (decoder : Decoder) : Plan := { plan with decoder := some decoder }

/-- The plan of a signal of the shape of an operand.  A signal also passes on its
initial value and what was declared of it. -/
def like (operand : Operand) : Build Plan := do
  let design ← Build.design
  match operand with
  | .value (.signal leaf) =>
      let plan : Plan := { spec := .shape leaf.shape, name := "$like", model := some leaf.name }
      match design.signals[leaf.id]? with
      | none => return plan
      | some declared =>
          return { plan with
            init := some (.int declared.init), resetLess := declared.resetLess,
            attributes := declared.attributes, decoder := declared.decoder }
  | other => return { spec := ← Build.ofExcept (design.operandShape other), name := "$like" }

/-- The name of the signal: a suffix follows the name of the model, if there is one. -/
def finalName (plan : Plan) : String :=
  match plan.suffix with
  | some suffix => plan.model.getD plan.name ++ suffix
  | none => plan.name

def initialConst (plan : Plan) (design : Design) (shape : Shape) : Except Fault Const :=
  match plan.spec with
  | .custom object =>
      match (design.customInitial object plan.init).bind design.castConst with
      | .error _ => .error (.customInitial object.name)
      | .ok constant =>
          if constant.shape = shape then .ok constant
          else .error (.customInitialShape object.name shape.text constant.shape.text)
  | spec =>
      let general : Except Fault Const :=
        match design.castConst (plan.init.getD (.int 0)) with
        | .ok constant => .ok constant
        | .error fault =>
            if fault.kind = .type then
              .error (.initialKind ((plan.init.map Operand.render).getD "None"))
            else .error fault
      match spec with
      | .enumeration type =>
          if type.declared.isSome then
            match Design.enumerationConst type plan.init with
            | .ok constant => .ok constant
            | .error _ => .error (.customInitial type.text)
          else general
      | _ => general

/-- Whether an initializer means all zeroes or all ones in every shape. -/
def fillsAnyShape : Operand → Bool
  | .bool truth => !truth
  | .int number => number = 0 || number = -1
  | _ => false

def warnInitial (init : Operand) (given shape : Shape) : Build Unit := do
  if fillsAnyShape init then return
  if given.signed && !shape.signed then
    Build.warn .signedInitial
      s!"Initial value {init.render} is signed, but the signal shape is {shape.text}"
  else if shape.width < given.width
      || (given.width = shape.width && shape.signed && !given.signed) then
    Build.warn .truncatedInitial
      s!"Initial value {init.render} will be truncated to the signal shape {shape.text}"

def checkRange (spec : ShapeSpec) (init : Option Operand) : Except Fault Unit :=
  match spec, init with
  | .range numbers, some (.int number) =>
      if numbers.contains number then .ok ()
      else if number = numbers.stop then .error (.initialAtEnd number numbers.text)
      else .error (.initialOutside number numbers.text)
  | _, _ => .ok ()

/-- The decoder of the signal: the one given, or the enumeration it is shaped by. -/
def finalDecoder (plan : Plan) : Option Decoder :=
  match plan.decoder, plan.spec with
  | some decoder, _ => some decoder
  | none, .enumeration type => some (.enumeration type)
  | none, _ => none

def declare (plan : Plan) : Build Declaration := do
  let shape ← Build.castShape plan.spec
  let constant ← Build.ofExcept (plan.initialConst (← Build.design) shape)
  if let some init := plan.init then warnInitial init constant.shape shape
  Build.ofExcept (checkRange plan.spec plan.init)
  let declaration : Declaration := {
    signal := { id := (← Build.design).signals.size, name := plan.finalName, shape }
    spec := plan.spec
    init := shape.fit constant.value
    resetLess := plan.resetLess
    attributes := plan.attributes
    decoder := plan.finalDecoder }
  Build.modifyDesign fun design =>
    { design with signals := design.signals.push declaration }
  return declaration

end Signal.Plan

end Gateware
