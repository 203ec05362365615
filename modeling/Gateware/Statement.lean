import Gateware.Format.Insert

/-!
# Statements

What a design does: assignments, switches over statements, printing, and properties to
be asserted, assumed or covered.
-/

set_option autoImplicit false

namespace Gateware

inductive Property where
  | assert
  | assume
  | cover
  deriving DecidableEq, Repr

def Property.keyword : Property → String
  | .assert => "assert"
  | .assume => "assume"
  | .cover => "cover"

inductive Statement where
  | assign (target source : Value)
  | switch (test : Value) (cases : List (Keys × List Statement))
  | print (message : Format)
  | property (kind : Property) (test : Value) (message : Option Format)

namespace Statement

mutual

def text : Statement → String
  | .assign target source => s!"(eq {target.text} {source.text})"
  | .switch test cases => "(switch " ++ test.text ++ String.join (caseTexts cases) ++ ")"
  | .print message => s!"(print {message.text})"
  | .property kind test message =>
      "(" ++ kind.keyword ++ " " ++ test.text
        ++ (message.map fun message => " " ++ message.text).getD "" ++ ")"

def caseTexts : List (Keys × List Statement) → List String
  | [] => []
  | (keys, body) :: rest =>
      (" (" ++ keys.text ++ String.join (bodyTexts body) ++ ")") :: caseTexts rest

def bodyTexts : List Statement → List String
  | [] => []
  | statement :: rest => (" " ++ statement.text) :: bodyTexts rest

end

def assignment (target source : Operand) : Build Statement := do
  return .assign (← Build.cast target) (← Build.cast source)

def switchOn (test : Operand) (cases : List (Option (List Pattern) × List Statement)) :
    Build Statement := do
  let test ← Build.cast test
  let keyed ← cases.mapM fun (patterns, body) => do
    return (← Pattern.caseKeys patterns test.shape, body)
  return .switch test keyed

/-- The template of a list of arguments with a separator between neighbours and an end
text, and the arguments that are not strings. -/
def printTemplate (separator finish : String) :
    List (Format.Arg Insert) → String × List (Format.Arg Insert)
  | [] => (Format.Template.escape finish, [])
  | argument :: rest =>
      let (template, others) := printTemplate separator finish rest
      let template :=
        if rest.isEmpty then template else Format.Template.escape separator ++ template
      match argument with
      | .text content => (Format.Template.escape content ++ template, others)
      | other => ("\x7b\x7d" ++ template, other :: others)

def printing (arguments : List (Format.Arg Insert)) (separator finish : String) :
    Build Statement := do
  let (template, positional) := printTemplate separator finish arguments
  return .print (← Format.compile template { positional })

def claim (kind : Property) (test : Operand) (message : Option Format) : Build Statement := do
  return .property kind (← Build.cast test) message

end Statement

end Gateware
