import Gateware.Session
import Gateware.Value.Selection

/-!
# Connectors and pins

A connector has a number of pins, each with a remark if one was given.  Pins are those of
a connector, a run of other pins, or several pins after each other.
-/

set_option autoImplicit false

namespace Gateware

structure Connector where
  id : Nat
  width : Nat
  name : String := "$port"
  attributes : Association String String := []
  metadata : List (Option String)

namespace Connector

def make (width : Nat) (name : String) (attributes : Association String String)
    (metadata : Option (List String)) : Build Connector := do
  let metadata ← match metadata with
    | none => pure (List.replicate width none)
    | some remarks =>
        if remarks.length = width then pure (remarks.map some)
        else throw (.metadataLength remarks.length width)
  return { id := ← Build.fresh, width, name, attributes, metadata }

end Connector

inductive Pins where
  | connector (source : Connector)
  | slice (pins : Pins) (start stop : Nat)
  | concat (parts : List Pins)

namespace Pins

mutual

def width : Pins → Nat
  | .connector source => source.width
  | .slice _ start stop => Width.between start stop
  | .concat parts => totalWidth parts

def totalWidth : List Pins → Nat
  | [] => 0
  | pins :: rest => pins.width + totalWidth rest

end

mutual

def metadata : Pins → List (Option String)
  | .connector source => source.metadata
  | .slice pins start stop => (pins.metadata.take stop).drop start
  | .concat parts => partsMetadata parts

def partsMetadata : List Pins → List (Option String)
  | [] => []
  | pins :: rest => pins.metadata ++ partsMetadata rest

end

mutual

def text : Pins → String
  | .connector source => s!"(io-port {source.name})"
  | .slice pins start stop => s!"(io-slice {pins.text} {start}:{stop})"
  | .concat parts => "(io-cat " ++ Text.join " " (texts parts) ++ ")"

def texts : List Pins → List String
  | [] => []
  | pins :: rest => pins.text :: texts rest

end

def between (pins : Pins) (start stop : Int) : Except Fault Pins :=
  (Picked.between .pins pins.width start stop).map fun (start, stop) => .slice pins start stop

def index (pins : Pins) : Index → Except Fault Pins
  | .bit position => do
      let start ← Picked.bit .pins pins.width position
      pins.between start (Position.wrap (start + 1))
  | .range start stop step => do
      match ← Picked.stepped .pins pins.width start stop step with
      | .run start stop => .ok (.slice pins start stop)
      | .bits positions =>
          (positions.mapM fun position =>
            pins.between position (Position.wrap (position + 1))).map Pins.concat
  | .value _ => .error (.valueAsIndex .pins)

inductive Like where
  | pins (pins : Pins)
  | operand (given : Operand)

/-- The pins that an object stands for; an operand can only stand for no pins. -/
def cast (design : Design) : Like → Except Fault Pins
  | .pins pins => .ok pins
  | .operand given =>
      match design.cast given with
      | .ok value =>
          if value.width = 0 then .ok (.concat []) else .error (.notPins given.render)
      | .error _ => .error (.notPins given.render)

def join (design : Design) (parts : List Like) : Except Fault Pins :=
  (parts.mapM (cast design)).map Pins.concat

end Pins

end Gateware
