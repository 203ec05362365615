import Gateware.Text.Numeral
import Gateware.Value.Basic

/-!
# Canonical text of values

Every node is written in parentheses, its kind or its operator first.
-/

set_option autoImplicit false

namespace Gateware

def Signal.text (signal : Signal) : String :=
  if signal.name.isEmpty then "(sig)" else s!"(sig {signal.name})"

def Keys.text : Keys → String
  | none => "default"
  | some [] => "case"
  | some keys => "case " ++ Text.join " " keys

namespace Value

mutual

def text : Value → String
  | .const constant => constant.text
  | .signal leaf => leaf.text
  | .clock domain => s!"(clk {domain})"
  | .reset domain _ => s!"(rst {domain})"
  | .initial => "(initial)"
  | .slice value start stop => s!"(slice {value.text} {start}:{stop})"
  | .part value offset width stride =>
      s!"(part {value.text} {offset.text} {width} {stride})"
  | .concat parts => "(cat " ++ Text.join " " (texts parts) ++ ")"
  | .unary op operand => s!"({op.symbol} {operand.text})"
  | .binary op left right => s!"({op.symbol} {left.text} {right.text})"
  | .switch test cases =>
      s!"(switch-value {test.text}" ++ String.join (caseTexts cases) ++ ")"

def texts : List Value → List String
  | [] => []
  | value :: rest => value.text :: texts rest

def caseTexts : List (Keys × Value) → List String
  | [] => []
  | (keys, value) :: rest => s!" ({keys.text} {value.text})" :: caseTexts rest

end

end Value

end Gateware
