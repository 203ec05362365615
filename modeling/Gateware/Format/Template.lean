import Gateware.Fault

/-!
# Templates

A template is text with replacement fields between braces; a doubled brace stands for
the brace itself.  A field has a name, a conversion after `!` and a specifier after
`:`.  The specifier is a template of its own and is left unread here.
-/

set_option autoImplicit false

namespace Gateware.Format

inductive Piece where
  | text (content : String)
  | field (name : String) (conversion : Option Char) (specifier : String)
  deriving DecidableEq, Repr

namespace Template

def endsName (c : Char) : Bool := c = '!' || c = ':'

def readField (field : List Char) : Except Fault Piece :=
  let name := String.ofList (field.takeWhile fun c => !endsName c)
  match field.dropWhile fun c => !endsName c with
  | ['!'] => .error .noConversion
  | ['!', conversion] => .ok (.field name (some conversion) "")
  | '!' :: conversion :: ':' :: specifier =>
      .ok (.field name (some conversion) (String.ofList specifier))
  | '!' :: _ => .error .textAfterConversion
  | ':' :: specifier => .ok (.field name none (String.ofList specifier))
  | _ => .ok (.field name none "")

/-- Where the reader stands: in text, or in a field below so many nested braces. -/
inductive Place where
  | text
  | field (depth : Nat)

/-- Reads pieces; `done` holds the characters of the present piece, the last first. -/
def readFrom : Place → List Char → List Char → Except Fault (List Piece)
  | .text, done, [] => .ok [.text (String.ofList done.reverse)]
  | .text, done, '\x7b' :: '\x7b' :: rest => readFrom .text ('\x7b' :: done) rest
  | .text, done, '\x7d' :: '\x7d' :: rest => readFrom .text ('\x7d' :: done) rest
  | .text, _, '\x7d' :: _ => .error .loneBrace
  | .text, done, '\x7b' :: rest =>
      (readFrom (.field 0) [] rest).map (.text (String.ofList done.reverse) :: ·)
  | .text, done, c :: rest => readFrom .text (c :: done) rest
  | .field _, _, [] => .error .openField
  | .field depth, done, '\x7b' :: rest => readFrom (.field (depth + 1)) ('\x7b' :: done) rest
  | .field (depth + 1), done, '\x7d' :: rest => readFrom (.field depth) ('\x7d' :: done) rest
  | .field 0, done, '\x7d' :: rest => do
      let piece ← readField done.reverse
      let pieces ← readFrom .text [] rest
      pure (piece :: pieces)
  | .field depth, done, c :: rest => readFrom (.field depth) (c :: done) rest

def read (template : String) : Except Fault (List Piece) :=
  readFrom .text [] template.toList

def escape (text : String) : String :=
  String.ofList (text.toList.flatMap fun c =>
    if c = '\x7b' || c = '\x7d' then [c, c] else [c])

end Template

end Gateware.Format
