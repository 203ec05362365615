/-!
# Severities and levels

A severity belongs to one diagnostic; a level is what a filter does with a code.
-/

set_option autoImplicit false

namespace Gateware.Diagnostic

inductive Severity where
  | warning
  | error
  deriving DecidableEq, Repr

inductive Level where
  | allow
  | warn
  | deny
  deriving DecidableEq, Repr

def Level.text : Level → String
  | .allow => "allow"
  | .warn => "warn"
  | .deny => "deny"

namespace Severity

def text : Severity → String
  | .warning => "warning"
  | .error => "error"

def isError (severity : Severity) : Bool := severity = .error

def escalated (_ : Severity) : Severity := .error

def under (severity : Severity) : Level → Option Severity
  | .allow => none
  | .warn => some severity
  | .deny => some severity.escalated

end Severity

end Gateware.Diagnostic
