import Gateware.Const
import Gateware.Diagnostic.Basic
import Gateware.Document.Basic
import Gateware.Shape.Range

/-!
# Stored forms

How shapes, ranges, constants and diagnostics are stored in documents, and how they
are read back.  Reading checks the kinds of the fields and takes their contents as
they are.
-/

set_option autoImplicit false

namespace Gateware

namespace Shape

def toDocument (shape : Shape) : Document :=
  .record [("width", .int shape.width), ("signed", .bool shape.signed)]

/-- Reads a shape; a width is any number of 64 bits, also zero for a signed shape. -/
def ofDocument? (document : Document) : Option Shape := do
  match ← document.fields? ["width", "signed"] with
  | [some width, some signed] => return ⟨← width.word? 64, ← signed.bool?⟩
  | _ => none

end Shape

namespace Range

def toDocument (range : Range) : Document :=
  .record [("start", .int range.start), ("stop", .int range.stop), ("step", .int range.step)]

/-- Reads a range; a step is any position, also zero. -/
def ofDocument? (document : Document) : Option Range := do
  match ← document.fields? ["start", "stop", "step"] with
  | [some start, some stop, some step] =>
      return ⟨← start.position?, ← stop.position?, ← step.position?⟩
  | _ => none

end Range

namespace Const

/-- The digits of a natural number in the base `2 ^ 32`, the lowest first, without
zeroes at the high end. -/
def limbs (n : Nat) : List Nat :=
  if small : n = 0 then [] else n % 2 ^ 32 :: limbs (n / 2 ^ 32)
termination_by n
decreasing_by omega

def ofLimbs (digits : List Nat) : Nat := digits.foldr (fun digit n => digit + 2 ^ 32 * n) 0

def integerDocument (value : Int) : Document :=
  .list [.int value.sign, .list ((limbs value.natAbs).map fun (digit : Nat) => .int digit)]

def integer? (document : Document) : Option Int := do
  match document with
  | .list [sign, digits] =>
      let sign ← sign.int? (-1) 1
      let digits ← digits.list? (Document.word? 32)
      return sign * ofLimbs digits
  | _ => none

def toDocument (const : Const) : Document :=
  .record [("value", integerDocument const.value), ("shape", const.shape.toDocument)]

/-- Reads a constant; its value is not brought into its shape. -/
def ofDocument? (document : Document) : Option Const := do
  match ← document.fields? ["value", "shape"] with
  | [some value, some shape] => return ⟨← integer? value, ← Shape.ofDocument? shape⟩
  | _ => none

end Const

namespace Diagnostic

def Category.word : Category → String
  | .error => "Error"
  | .warning => "Warning"

def Category.toDocument (category : Category) : Document := .text category.word

def Category.ofDocument? : Document → Option Category :=
  Document.alternative? ([.error, .warning].map fun category => (category.word, category))

def Severity.toDocument (severity : Severity) : Document := .text severity.text

def Severity.ofDocument? : Document → Option Severity :=
  Document.alternative? ([.warning, .error].map fun severity => (severity.text, severity))

def Level.toDocument (level : Level) : Document := .text level.text

def Level.ofDocument? : Document → Option Level :=
  Document.alternative? ([.allow, .warn, .deny].map fun level => (level.text, level))

namespace Code

def toDocument (code : Code) : Document :=
  .record [("category", code.category.toDocument), ("number", .int code.number)]

def ofDocument? (document : Document) : Option Code := do
  match ← document.fields? ["category", "number"] with
  | [some category, some number] =>
      return ⟨← Category.ofDocument? category, ← number.word? 16⟩
  | _ => none

end Code

namespace Filter

def toDocument (filter : Filter) : Document :=
  .record [("default", filter.default.toDocument),
    ("overrides", .record (filter.overrides.map fun (code, level) => (code, level.toDocument)))]

def overrides? : Document → Option (Association String Level)
  | .record fields => fields.mapM fun (code, level) => do
      return (code, ← Level.ofDocument? level)
  | _ => none

/-- Reads a filter; a missing part is that of the plain filter. -/
def ofDocument? (document : Document) : Option Filter := do
  match ← document.fields? ["default", "overrides"] with
  | [level, overrides] =>
      let level ← match level with
        | some level => Level.ofDocument? level
        | none => some .warn
      let overrides ← match overrides with
        | some overrides => overrides? overrides
        | none => some []
      return ⟨level, overrides⟩
  | _ => none

end Filter

def toDocument (diagnostic : Diagnostic) : Document :=
  .record [
    ("severity", diagnostic.severity.toDocument),
    ("code", diagnostic.code.toDocument),
    ("message", .text diagnostic.message),
    ("location", (diagnostic.location.map Document.text).getD .null),
    ("notes", .list (diagnostic.notes.map Document.text)),
    ("help", .list (diagnostic.help.map Document.text))]

/-- Reads a diagnostic; only the location may be missing. -/
def ofDocument? (document : Document) : Option Diagnostic := do
  let names := ["severity", "code", "message", "location", "notes", "help"]
  match ← document.fields? names with
  | [some severity, some code, some message, location, some notes, some help] =>
      return {
        severity := ← Severity.ofDocument? severity
        code := ← Code.ofDocument? code
        message := ← message.text?
        location := ← (location.getD .null).orNull? Document.text?
        notes := ← notes.list? Document.text?
        help := ← help.list? Document.text? }
  | _ => none

end Diagnostic

end Gateware
