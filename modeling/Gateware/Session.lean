import Gateware.Design.Cast

/-!
# Sessions

Building happens in a session: a design that grows, and a stack of scopes that record
warnings.  A warning belongs to the innermost scope only, which records it as its
filter lets it through; a denied warning is recorded and then refuses what is being
built.  Outside every scope warnings are lost.  A fault leaves the session as it was
when the fault arose: what was recorded or frozen by then stays.
-/

set_option autoImplicit false

namespace Gateware

structure Scope where
  filter : Diagnostic.Filter
  recorded : List Diagnostic := []

/-- A design that is being built, and who listens to warnings. -/
structure Session where
  design : Design := {}
  /-- The open scopes, the innermost first. -/
  scopes : List Scope := []

namespace Session

def openScope (session : Session) (filter : Diagnostic.Filter) : Session :=
  { session with scopes := { filter } :: session.scopes }

def closeScope (session : Session) : List Diagnostic × Session :=
  match session.scopes with
  | [] => ([], session)
  | scope :: outer => (scope.recorded, { session with scopes := outer })

/-- Records a diagnostic in the innermost scope, and returns it if it is denied. -/
def record (session : Session) (diagnostic : Diagnostic) : Option Diagnostic × Session :=
  match session.scopes with
  | [] => (none, session)
  | scope :: outer =>
      match diagnostic.filtered scope.filter with
      | none => (none, session)
      | some passed =>
          let scope := { scope with recorded := scope.recorded ++ [passed] }
          (if passed.severity.isError then some passed else none,
            { session with scopes := scope :: outer })

end Session

/-- A step of building: it changes the session, and ends with a result or a fault. -/
abbrev Build := ExceptT Fault (StateM Session)

namespace Build

def runIn {α : Type} (session : Session) (step : Build α) : Except Fault α × Session :=
  (ExceptT.run step).run session

def ofExcept {α : Type} : Except Fault α → Build α
  | .ok result => pure result
  | .error fault => throw fault

def design : Build Design := do return (← get).design

def modifyDesign (change : Design → Design) : Build Unit :=
  modify fun session => { session with design := change session.design }

def warn (code : Diagnostic.Code) (message : String) : Build Unit := do
  let (denied, session) := (← get).record (Diagnostic.warning code message)
  set session
  match denied with
  | some diagnostic => throw (.denied diagnostic)
  | none => pure ()

def capture {α : Type} (filter : Diagnostic.Filter) (step : Build α) :
    Build (Except Fault α × List Diagnostic) := do
  let (result, session) := runIn ((← get).openScope filter) step
  let (recorded, session) := session.closeScope
  set session
  return (result, recorded)

def fresh : Build Nat := do
  let id := (← design).fresh
  modifyDesign fun design => { design with fresh := id + 1 }
  return id

/-! ## Casts in a session -/

def cast (operand : Operand) : Build Value := do ofExcept ((← design).cast operand)

def castConst (operand : Operand) : Build Const := do ofExcept ((← design).castConst operand)

def castShape (spec : ShapeSpec) : Build Shape := do ofExcept ((← design).castShape spec)

/-! ## New objects -/

def enumeration (name : String) (members : List (String × MemberValue))
    (declared : Option Shape) : Build Enumeration := do
  return { id := ← fresh, name, members, declared }

def newBank (elements : List Element) (frozen : Bool) : Build Nat := do
  let id := (← design).banks.size
  modifyDesign fun design => { design with banks := design.banks.push { elements, frozen } }
  return id

def customShape (definition : CustomShape) : Build Custom := do
  let id := (← design).shapes.size
  modifyDesign fun design => { design with shapes := design.shapes.push definition }
  return { id, name := definition.name }

def customValue (definition : CustomValue) : Build Custom := do
  let id := (← design).values.size
  modifyDesign fun design => { design with values := design.values.push definition }
  return { id, name := definition.name }

def retargetShape (custom : Custom) (target : ShapeSpec) : Build Unit :=
  modifyDesign fun design =>
    { design with shapes := design.shapes.modify custom.id fun definition =>
        { definition with target } }

def retargetValue (custom : Custom) (target : Except Fault Operand) : Build Unit :=
  modifyDesign fun design =>
    { design with values := design.values.modify custom.id fun definition =>
        { definition with target } }

end Build

end Gateware
