import Gateware.Association
import Gateware.Diagnostic.Code
import Gateware.Diagnostic.Severity

/-!
# Filters

A filter gives every code a level: its own, if one was set, or the default.
-/

set_option autoImplicit false

namespace Gateware.Diagnostic

structure Filter where
  default : Level := .warn
  overrides : Association String Level := []
  deriving DecidableEq, Repr

namespace Filter

def set (filter : Filter) (code : Code) (level : Level) : Filter :=
  { filter with overrides := filter.overrides.put code.text level }

def allow (filter : Filter) (code : Code) : Filter := filter.set code .allow

def deny (filter : Filter) (code : Code) : Filter := filter.set code .deny

def level (filter : Filter) (code : Code) : Level :=
  (filter.overrides.at? code.text).getD filter.default

@[simp]
theorem level_set (filter : Filter) (code : Code) (level : Level) :
    (filter.set code level).level code = level := by
  simp [set, Filter.level, Association.at?_put_self]

end Filter

end Gateware.Diagnostic
