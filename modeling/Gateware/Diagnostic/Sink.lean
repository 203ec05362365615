import Gateware.Diagnostic.Basic

/-!
# Sinks

A sink collects diagnostics until they are taken out.  Its count of errors is of all
that were ever emitted, taken out or not.
-/

set_option autoImplicit false

namespace Gateware.Diagnostic

structure Sink where
  pending : List Diagnostic := []
  errorCount : Nat := 0

namespace Sink

def emit (sink : Sink) (diagnostic : Diagnostic) : Sink where
  pending := sink.pending ++ [diagnostic]
  errorCount := sink.errorCount + diagnostic.severity.isError.toNat

def take (sink : Sink) : List Diagnostic × Sink := (sink.pending, { sink with pending := [] })

def hasErrors (sink : Sink) : Bool := 0 < sink.errorCount

def isEmpty (sink : Sink) : Bool := sink.pending.isEmpty

end Sink

end Gateware.Diagnostic
