import Gateware.Diagnostic.Filter

/-!
# Diagnostics

One reported fact with its severity, its code, and remarks under it.
-/

set_option autoImplicit false

namespace Gateware

structure Diagnostic where
  severity : Diagnostic.Severity
  code : Diagnostic.Code
  message : String
  location : Option String := none
  notes : List String := []
  help : List String := []
  deriving DecidableEq, Repr

namespace Diagnostic

def warning (code : Code) (message : String) : Diagnostic :=
  { severity := .warning, code, message }

def error (code : Code) (message : String) : Diagnostic :=
  { severity := .error, code, message }

def escalated (diagnostic : Diagnostic) : Diagnostic :=
  { diagnostic with severity := diagnostic.severity.escalated }

def filtered (diagnostic : Diagnostic) (filter : Filter) : Option Diagnostic :=
  (diagnostic.severity.under (filter.level diagnostic.code)).map fun severity =>
    { diagnostic with severity }

def text (diagnostic : Diagnostic) : String :=
  diagnostic.severity.text ++ "[" ++ diagnostic.code.text ++ "]: " ++ diagnostic.message
    ++ (diagnostic.location.map ("\n  --> " ++ ·)).getD ""
    ++ String.join (diagnostic.notes.map ("\n  = note: " ++ ·))
    ++ String.join (diagnostic.help.map ("\n  = help: " ++ ·))

end Diagnostic

end Gateware
