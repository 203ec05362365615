import Gateware.Document.Forms
import Gateware.Format.Basic
import Gateware.Format.Specifier
import Gateware.Pins
import Gateware.Signal.Basic

/-!
# Outlines

The make-up of an object as a document, for tools that look at designs.  Numbers of any
size are written as text, counts and positions as numbers.
-/

set_option autoImplicit false

namespace Gateware

namespace Document

def big (number : Int) : Document := .text (toString number)

def count (number : Nat) : Document := .int number

def orNull {α : Type} (write : α → Document) : Option α → Document
  | none => .null
  | some content => write content

def texts (contents : List String) : Document := .list (contents.map .text)

def table (entries : Association String String) : Document :=
  .record (entries.map fun (key, content) => (key, .text content))

end Document

open Document (big count orNull texts table)

def Diagnostic.outline (diagnostic : Diagnostic) : Document :=
  .record [("display", .text diagnostic.text),
    ("is_error", .bool diagnostic.severity.isError), ("json", diagnostic.toDocument)]

def Const.outline (const : Const) : Document :=
  .record [("repr", .text const.text), ("shape", .text const.shape.text),
    ("value", big const.value), ("bits", big const.bits), ("width", count const.width),
    ("json", const.toDocument)]

def Range.outline (range : Range) : List (String × Document) :=
  [("display", .text range.text), ("start", big range.start), ("stop", big range.stop),
    ("step", big range.step), ("len", big range.length), ("empty", .bool range.isEmpty),
    ("first", orNull big range.first?), ("last", orNull big range.last?),
    ("items", .list ((range.take 12).map big)), ("shape", .text (Shape.ofRange range).text)]

namespace Value

def node (value : Value) (kind : String) (details : List (String × Document)) :
    Except Fault Document := do
  let shape ← value.shape?
  let shown (wanted : String) : Document := if kind = wanted then .text value.text else .null
  pure (.record ([("kind", .text kind), ("shape", .text shape.text),
    ("leaf", .list [shown "const", shown "signal"])] ++ details))

def operator (symbol : String) (operands : List Document) : List (String × Document) :=
  [("symbol", .text symbol), ("arity", count operands.length), ("operands", .list operands)]

mutual

def outline : Value → Except Fault Document
  | value@(.const constant) => value.node "const" [("value", big constant.value)]
  | value@(.signal leaf) => value.node "signal" [("name", .text leaf.name)]
  | value@(.clock domain) => value.node "clk" [("domain", .text domain)]
  | value@(.reset domain allowResetLess) =>
      value.node "rst" [("domain", .text domain), ("allow_reset_less", .bool allowResetLess)]
  | value@.initial => value.node "initial" []
  | value@(.slice inner start stop) => do
      value.node "slice"
        [("value", ← inner.outline), ("start", count start), ("stop", count stop)]
  | value@(.part inner offset width stride) => do
      value.node "part" [("value", ← inner.outline), ("offset", ← offset.outline),
        ("width", count width), ("stride", count stride)]
  | value@(.concat parts) => do value.node "concat" [("parts", .list (← outlines parts))]
  | value@(.unary op operand) => do
      value.node "operator" (operator op.symbol [← operand.outline])
  | value@(.binary op left right) => do
      value.node "operator" (operator op.symbol [← left.outline, ← right.outline])
  | value@(.switch test cases) => do
      value.node "switch" [("test", ← test.outline), ("cases", .list (← caseOutlines cases))]

def outlines : List Value → Except Fault (List Document)
  | [] => .ok []
  | value :: rest => do
      let first ← value.outline
      let others ← outlines rest
      pure (first :: others)

def caseOutlines : List (Keys × Value) → Except Fault (List Document)
  | [] => .ok []
  | (keys, value) :: rest => do
      let first ← value.outline
      let others ← caseOutlines rest
      pure (.list [orNull Document.texts keys, first] :: others)

end

end Value

def Format.Specifier.outline (specifier : Format.Specifier) : Document :=
  let character := orNull fun (c : Char) => .text c.toString
  .record [("fill", character specifier.fill), ("align", character specifier.align),
    ("sign", character specifier.sign), ("alternate", .bool specifier.alternate),
    ("zero", .bool specifier.zero), ("width", orNull count specifier.width),
    ("grouping", character specifier.grouping),
    ("precision", orNull count specifier.precision), ("type", character specifier.type)]

def Format.Chunk.outline : Format.Chunk → Document
  | .text content => .text content
  | .argument value specifier => texts [value.text, specifier]

def Format.outline (format : Format) : Document :=
  .record [("repr", .text format.text), ("template", .text format.template),
    ("chunks", .list (format.chunks.map Format.Chunk.outline)),
    ("args", count format.values.length)]

def Declaration.outline (declaration : Declaration) : Document :=
  .record [("repr", .text declaration.signal.text), ("name", .text declaration.signal.name),
    ("shape", .text declaration.signal.shape.text),
    ("orig_shape", .text declaration.spec.render), ("init", big declaration.init),
    ("reset_less", .bool declaration.resetLess), ("attrs", table declaration.attributes),
    ("decoder", orNull (fun decoder => .text (Decoder.text decoder)) declaration.decoder)]

def Pins.outline (pins : Pins) : Document :=
  let details : List (String × Document) := match pins with
    | .connector source => [("name", .text source.name), ("attrs", table source.attributes)]
    | .slice inner start stop =>
        [("slice", .list [.text inner.text, count start, count stop])]
    | .concat parts => [("parts", count parts.length)]
  .record ([("repr", .text pins.text), ("width", count pins.width),
    ("metadata", .list (pins.metadata.map (orNull .text)))] ++ details)

end Gateware
