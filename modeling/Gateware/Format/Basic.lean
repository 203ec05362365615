import Gateware.Format.Template
import Gateware.Value.Shape
import Gateware.Value.Text

/-!
# Formats

A format is a sequence of literal texts and of values, each value with a specifier.
In a format no text is empty and no two texts stand side by side.
-/

set_option autoImplicit false

namespace Gateware

namespace Format

inductive Chunk where
  | text (content : String)
  | argument (value : Value) (specifier : String)

namespace Chunk

/-- Joins neighbouring texts and leaves out empty ones. -/
def merge : List Chunk → List Chunk
  | [] => []
  | .argument value specifier :: rest => .argument value specifier :: merge rest
  | .text content :: rest =>
      if content.isEmpty then merge rest
      else match merge rest with
        | .text next :: rest => .text (content ++ next) :: rest
        | rest => .text content :: rest

def template : Chunk → String
  | .text content => Template.escape content
  | .argument _ specifier =>
      if specifier.isEmpty then "\x7b\x7d" else "\x7b:" ++ specifier ++ "\x7d"

def value? : Chunk → Option Value
  | .text _ => none
  | .argument value _ => some value

end Chunk

end Format

structure Format where
  chunks : List Format.Chunk := []

namespace Format

def ofChunks (chunks : List Chunk) : Format := ⟨Chunk.merge chunks⟩

def ofText (text : String) : Format := ofChunks [.text text]

def append (left right : Format) : Format := ofChunks (left.chunks ++ right.chunks)

instance : Append Format := ⟨append⟩

def template (format : Format) : String := String.join (format.chunks.map Chunk.template)

def values (format : Format) : List Value := format.chunks.filterMap Chunk.value?

def text (format : Format) : String :=
  "(format " ++ Text.quote format.template
    ++ String.join (format.values.map fun value => " " ++ value.text) ++ ")"

end Format

end Gateware
