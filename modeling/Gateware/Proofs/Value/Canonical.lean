import Gateware.Proofs.Text.Form
import Gateware.Proofs.Value.WellFormed
import Gateware.Value.Text

/-!
# Canonical text of values

The text of a value is a form: the kind or the operator of a node stands first, and its operands
and numbers follow.  The form determines every node of the tree, up to what a text never shows:
the identity and the shape of a signal, and whether a reset may be missing.
-/

set_option autoImplicit false

namespace Gateware

namespace Const

/-- The width, the sign and the value of a constant. -/
def numeral (const : Const) : String :=
  toString const.width ++ "'" ++ (if const.shape.signed then "s" else "") ++ "d" ++
    toString const.value

theorem text_eq (const : Const) : const.text = "(const " ++ const.numeral ++ ")" := by
  change "(const " ++ toString const.width ++ "'" ++ (if const.shape.signed then "s" else "") ++
    "d" ++ toString const.value ++ ")" = _
  simp only [numeral, String.append_assoc]

theorem toList_numeral (const : Const) : const.numeral.toList =
    (toString const.width).toList ++ "'".toList ++
      (if const.shape.signed then "s" else "").toList ++ "d".toList ++
      (toString const.value).toList := by
  simp only [numeral, String.toList_append]

theorem numeral_inj {left right : Const} (same : left.numeral = right.numeral) : left = right := by
  have lists := congrArg String.toList same
  rw [toList_numeral, toList_numeral] at lists
  obtain ⟨leftValue, ⟨leftWidth, leftSigned⟩⟩ := left
  obtain ⟨rightValue, ⟨rightWidth, rightSigned⟩⟩ := right
  simp only [List.append_assoc, width] at lists
  obtain ⟨rfl, tails⟩ := Text.nat_append_inj (by simp) (by simp) lists
  cases leftSigned <;> cases rightSigned
  all_goals simp at tails
  · rw [Text.int_inj tails]
  · rw [Text.int_inj tails]

theorem solid_numeral (const : Const) : Text.Solid const.numeral := by
  have mark : Text.Solid (if const.shape.signed then "s" else "") := by
    split <;> simp [Text.Solid, Text.EndsWord]
  have quote : Text.Solid "'" := by simp [Text.Solid, Text.EndsWord]
  have letter : Text.Solid "d" := by simp [Text.Solid, Text.EndsWord]
  exact Text.solid_append
    (Text.solid_append (Text.solid_append (Text.solid_append (Text.solid_nat _) quote) mark) letter)
    (Text.solid_int _)

end Const

namespace Keys

open Form Text

def form (keys : Keys) (inner : Form) : Form :=
  match keys with
  | none => .node "default" [inner]
  | some keys => .node "case" (keys.map Form.word ++ [inner])

theorem toList_text (keys : List String) :
    (Keys.text (some keys)).toList =
      "case".toList ++ keys.flatMap fun key => ' ' :: key.toList := by
  cases keys with
  | nil => rfl
  | cons key keys =>
      change ("case " ++ join " " (key :: keys)).toList = _
      rw [String.toList_append, toList_join_cons]
      rfl

theorem printItems_words (keys : List String) (items : List Form) :
    printItems (keys.map Form.word ++ items) =
      keys.flatMap (fun key => ' ' :: key.toList) ++ printItems items := by
  induction keys with
  | nil => rfl
  | cons key keys ih => simp [printItems, print, ih]

theorem print_form (keys : Keys) (inner : Form) :
    (keys.form inner).print =
      '(' :: (keys.text.toList ++ ' ' :: (inner.print ++ [')'])) := by
  cases keys with
  | none => simp [form, print, printItems, text]
  | some keys => simp [form, print, printItems_words, printItems, toList_text]

theorem form_inj {keys others : Keys} {inner other : Form}
    (same : keys.form inner = others.form other) : keys = others ∧ inner = other := by
  cases keys with
  | none =>
      cases others with
      | none =>
          cases same
          exact ⟨rfl, rfl⟩
      | some others => simp [form] at same
  | some keys =>
      cases others with
      | none => simp [form] at same
      | some others =>
          simp only [form, node.injEq, true_and] at same
          obtain ⟨words, inners⟩ := List.append_inj' same rfl
          have injective : Function.Injective Form.word := fun _ _ => Form.word.inj
          exact ⟨congrArg some (List.map_injective_iff.mpr injective words),
            (List.cons.inj inners).1⟩

theorem Fits.clear_form {width : Nat} {keys : Keys} {inner : Form} (fits : Fits width keys)
    (clear : inner.Clear) : (keys.form inner).Clear := by
  cases keys with
  | none => exact .node (by simp [Solid, EndsWord]) (by simpa using clear)
  | some keys =>
      refine .node (by simp [Solid, EndsWord]) ?_
      intro item listed
      rcases List.mem_append.mp listed with word | last
      · obtain ⟨key, keyListed, rfl⟩ := List.mem_map.mp word
        refine .word fun symbol digit => ?_
        rcases (fits key keyListed).2 symbol digit with rfl | rfl | rfl
        all_goals simp [EndsWord]
      · rw [List.mem_singleton.mp last]
        exact clear

end Keys

namespace Value

/-! ## Texts of nodes -/

section Texts

variable (value left right : Value)

theorem text_signal (leaf : Signal) :
    (signal leaf).text = if leaf.name.isEmpty then "(sig)" else "(sig " ++ leaf.name ++ ")" := rfl

theorem text_clock (domain : String) : (clock domain).text = "(clk " ++ domain ++ ")" := rfl

theorem text_reset (domain : String) (allowResetLess : Bool) :
    (reset domain allowResetLess).text = "(rst " ++ domain ++ ")" := rfl

theorem text_slice (start stop : Nat) :
    (slice value start stop).text =
      "(slice " ++ value.text ++ " " ++ toString start ++ ":" ++ toString stop ++ ")" := rfl

theorem text_part (offset : Value) (width stride : Nat) :
    (part value offset width stride).text =
      "(part " ++ value.text ++ " " ++ offset.text ++ " " ++ toString width ++ " " ++
        toString stride ++ ")" := rfl

theorem text_concat (parts : List Value) :
    (concat parts).text = "(cat " ++ Text.join " " (texts parts) ++ ")" := rfl

theorem text_unary (op : UnaryOp) :
    (unary op value).text = "(" ++ op.symbol ++ " " ++ value.text ++ ")" := rfl

theorem text_binary (op : BinaryOp) :
    (binary op left right).text =
      "(" ++ op.symbol ++ " " ++ left.text ++ " " ++ right.text ++ ")" := rfl

theorem text_switch (cases : List (Keys × Value)) :
    (switch value cases).text =
      "(switch-value " ++ value.text ++ String.join (caseTexts cases) ++ ")" := rfl

theorem caseTexts_cons (keys : Keys) (rest : List (Keys × Value)) :
    caseTexts ((keys, value) :: rest) =
      (" (" ++ keys.text ++ " " ++ value.text ++ ")") :: caseTexts rest := rfl

end Texts

/-! ## Headings -/

/-- What stands first in the text of a node. -/
inductive Heading where
  | const
  | signal
  | clock
  | reset
  | initial
  | slice
  | part
  | concat
  | unary (op : UnaryOp)
  | binary (op : BinaryOp)
  | switch
  deriving DecidableEq

def Heading.word : Heading → String
  | .const => "const"
  | .signal => "sig"
  | .clock => "clk"
  | .reset => "rst"
  | .initial => "initial"
  | .slice => "slice"
  | .part => "part"
  | .concat => "cat"
  | .unary op => op.symbol
  | .binary op => op.symbol
  | .switch => "switch-value"

def Heading.all : List Heading :=
  [.const, .signal, .clock, .reset, .initial, .slice, .part, .concat, .switch]
    ++ [UnaryOp.invert, .negate, .truth, .any, .all, .parity, .asUnsigned, .asSigned].map .unary
    ++ [BinaryOp.add, .subtract, .multiply, .divide, .modulo, .and, .or, .xor, .shiftLeft,
        .shiftRight, .equal, .unequal, .less, .lessEqual, .greater, .greaterEqual].map .binary

theorem Heading.mem_all (heading : Heading) : heading ∈ all := by
  cases heading with
  | unary op => cases op <;> decide
  | binary op => cases op <;> decide
  | _ => decide

/-- Only the minus sign stands first in the texts of two kinds of nodes. -/
theorem Heading.word_inj {left right : Heading} (same : left.word = right.word) :
    left = right ∨ (left = .unary .negate ∧ right = .binary .subtract) ∨
      (left = .binary .subtract ∧ right = .unary .negate) := by
  have apart : ∀ left ∈ all, ∀ right ∈ all, left.word = right.word →
      left = right ∨ (left = .unary .negate ∧ right = .binary .subtract) ∨
        (left = .binary .subtract ∧ right = .unary .negate) := by
    decide +kernel
  exact apart left left.mem_all right right.mem_all same

/-! ## Forms -/

def heading : Value → Heading
  | .const _ => .const
  | .signal _ => .signal
  | .clock _ => .clock
  | .reset _ _ => .reset
  | .initial => .initial
  | .slice _ _ _ => .slice
  | .part _ _ _ _ => .part
  | .concat _ => .concat
  | .unary op _ => .unary op
  | .binary op _ _ => .binary op
  | .switch _ _ => .switch

mutual

/-- The form that a value is written in.  Behind the heading of an empty concatenation there is
a blank nevertheless. -/
def form : Value → Form
  | .const constant => .node "const" [.word constant.numeral]
  | .signal leaf => .node "sig" (if leaf.name.isEmpty then [] else [.word leaf.name])
  | .clock domain => .node "clk" [.word domain]
  | .reset domain _ => .node "rst" [.word domain]
  | .initial => .node "initial" []
  | .slice value start stop =>
      .node "slice" [value.form, .word (toString start ++ ":" ++ toString stop)]
  | .part value offset width stride =>
      .node "part" [value.form, offset.form, .word (toString width), .word (toString stride)]
  | .concat parts => .node "cat" (if parts.isEmpty then [.word ""] else forms parts)
  | .unary op operand => .node op.symbol [operand.form]
  | .binary op left right => .node op.symbol [left.form, right.form]
  | .switch test cases => .node "switch-value" (test.form :: caseForms cases)

def forms : List Value → List Form
  | [] => []
  | value :: rest => value.form :: forms rest

def caseForms : List (Keys × Value) → List Form
  | [] => []
  | (keys, value) :: rest => keys.form value.form :: caseForms rest

end

open Form Text

mutual

theorem toList_text (value : Value) : value.text.toList = value.form.print := by
  cases value with
  | const constant =>
      change constant.text.toList = _
      simp [Const.text_eq, form, print, printItems]
  | signal leaf =>
      rw [text_signal, form]
      split
      · rfl
      · simp [print, printItems]
  | clock domain => simp [text_clock, form, print, printItems]
  | reset domain allowResetLess => simp [text_reset, form, print, printItems]
  | initial => rfl
  | slice value start stop => simp [text_slice, form, print, printItems, toList_text value]
  | part value offset width stride =>
      simp [text_part, form, print, printItems, toList_text value, toList_text offset]
  | concat parts =>
      cases parts with
      | nil => rfl
      | cons first rest =>
          simp [text_concat, texts, form, forms, print, printItems, toList_join_cons,
            toList_text first, toList_texts rest]
  | unary op operand => simp [text_unary, form, print, printItems, toList_text operand]
  | binary op left right =>
      simp [text_binary, form, print, printItems, toList_text left, toList_text right]
  | switch test cases =>
      simp [text_switch, form, print, printItems, toList_text test, toList_caseTexts cases]

theorem toList_texts (values : List Value) :
    printItems (forms values) =
      (texts values).flatMap (fun text => ' ' :: text.toList) ++ [')'] := by
  cases values with
  | nil => rfl
  | cons value rest => simp [forms, texts, printItems, toList_text value, toList_texts rest]

theorem toList_caseTexts (cases : List (Keys × Value)) :
    printItems (caseForms cases) = (String.join (caseTexts cases)).toList ++ [')'] := by
  cases cases with
  | nil => rfl
  | cons case rest =>
      obtain ⟨keys, value⟩ := case
      simp [caseForms, caseTexts_cons, printItems, Keys.print_form, toList_text value,
        toList_caseTexts rest]

end

/-! ## What a text shows -/

mutual

/-- The tree without what its text leaves out. -/
def erased : Value → Value
  | .const constant => .const constant
  | .signal leaf => .signal ⟨0, leaf.name, Shape.unsigned 0⟩
  | .clock domain => .clock domain
  | .reset domain _ => .reset domain false
  | .initial => .initial
  | .slice value start stop => .slice value.erased start stop
  | .part value offset width stride => .part value.erased offset.erased width stride
  | .concat parts => .concat (erasedAll parts)
  | .unary op operand => .unary op operand.erased
  | .binary op left right => .binary op left.erased right.erased
  | .switch test cases => .switch test.erased (erasedCases cases)

def erasedAll : List Value → List Value
  | [] => []
  | value :: rest => value.erased :: erasedAll rest

def erasedCases : List (Keys × Value) → List (Keys × Value)
  | [] => []
  | (keys, value) :: rest => (keys, value.erased) :: erasedCases rest

end

mutual

theorem text_erased (value : Value) : value.erased.text = value.text := by
  cases value with
  | const | signal | clock | reset | initial => rfl
  | slice value start stop => rw [erased, text_slice, text_slice, text_erased value]
  | part value offset width stride =>
      rw [erased, text_part, text_part, text_erased value, text_erased offset]
  | concat parts => rw [erased, text_concat, text_concat, texts_erasedAll parts]
  | unary op operand => rw [erased, text_unary, text_unary, text_erased operand]
  | binary op left right =>
      rw [erased, text_binary, text_binary, text_erased left, text_erased right]
  | switch test cases =>
      rw [erased, text_switch, text_switch, text_erased test, caseTexts_erasedCases cases]

theorem texts_erasedAll (values : List Value) : texts (erasedAll values) = texts values := by
  cases values with
  | nil => rfl
  | cons value rest => rw [erasedAll, texts, texts, text_erased value, texts_erasedAll rest]

theorem caseTexts_erasedCases (cases : List (Keys × Value)) :
    caseTexts (erasedCases cases) = caseTexts cases := by
  cases cases with
  | nil => rfl
  | cons case rest =>
      obtain ⟨keys, value⟩ := case
      rw [erasedCases, caseTexts_cons, caseTexts_cons, text_erased value,
        caseTexts_erasedCases rest]

end

/-! ## Forms determine trees -/

variable {value other : Value}

theorem form_eq_node (value : Value) : ∃ items, value.form = .node value.heading.word items := by
  cases value <;> exact ⟨_, rfl⟩

theorem form_ne_of_minus {op : UnaryOp} {otherOp : BinaryOp} (unary : value.heading = .unary op)
    (binary : other.heading = .binary otherOp) : value.form ≠ other.form := by
  cases value with
  | unary =>
      cases other with
      | binary => simp [form]
      | _ => cases binary
  | _ => cases unary

theorem heading_eq (same : value.form = other.form) : value.heading = other.heading := by
  obtain ⟨items, formed⟩ := form_eq_node value
  obtain ⟨others, otherFormed⟩ := form_eq_node other
  have words : value.heading.word = other.heading.word := by
    rw [formed, otherFormed] at same
    exact (node.inj same).1
  rcases Heading.word_inj words with equal | ⟨minus, binaryMinus⟩ | ⟨binaryMinus, minus⟩
  · exact equal
  · exact absurd same (form_ne_of_minus minus binaryMinus)
  · exact absurd same.symm (form_ne_of_minus minus binaryMinus)

theorem range_inj {start stop first last : Nat}
    (same : toString start ++ ":" ++ toString stop = toString first ++ ":" ++ toString last) :
    start = first ∧ stop = last := by
  have lists := congrArg String.toList same
  simp only [String.toList_append, List.append_assoc] at lists
  obtain ⟨rfl, tails⟩ := nat_append_inj (by simp) (by simp) lists
  exact ⟨rfl, nat_inj (List.append_cancel_left tails)⟩

theorem name_inj {name other : String}
    (same : (if name.isEmpty then [] else [Form.word name]) =
      if other.isEmpty then [] else [Form.word other]) : name = other := by
  split at same <;> split at same
  · rename_i empty otherEmpty
    rw [String.isEmpty_iff.mp empty, String.isEmpty_iff.mp otherEmpty]
  · cases same
  · cases same
  · exact word.inj (List.cons.inj same).1

theorem forms_inj {parts others : List Value}
    (same : (concat parts).form = (concat others).form) : forms parts = forms others := by
  have form_ne_word (value : Value) (text : String) : value.form ≠ .word text := by
    obtain ⟨items, formed⟩ := form_eq_node value
    simp [formed]
  simp only [form, node.injEq, true_and] at same
  cases parts with
  | nil =>
      cases others with
      | nil => rfl
      | cons other others => exact absurd (List.cons.inj same).1.symm (form_ne_word other "")
  | cons part parts =>
      cases others with
      | nil => exact absurd (List.cons.inj same).1 (form_ne_word part "")
      | cons other others => exact same

mutual

theorem erased_eq (value : Value) {other : Value} (same : value.form = other.form) :
    value.erased = other.erased := by
  have headings := heading_eq same
  cases value with
  | const constant =>
      cases other with
      | const otherConstant =>
          simp only [form, node.injEq, List.cons.injEq, word.injEq, true_and, and_true] at same
          rw [Const.numeral_inj same]
      | _ => cases headings
  | signal leaf =>
      cases other with
      | signal otherLeaf =>
          simp only [form, node.injEq, true_and] at same
          rw [erased, erased, name_inj same]
      | _ => cases headings
  | clock domain =>
      cases other with
      | clock otherDomain =>
          simp only [form, node.injEq, List.cons.injEq, word.injEq, true_and, and_true] at same
          rw [same]
      | _ => cases headings
  | reset domain allowResetLess =>
      cases other with
      | reset otherDomain otherFlag =>
          simp only [form, node.injEq, List.cons.injEq, word.injEq, true_and, and_true] at same
          rw [erased, erased, same]
      | _ => cases headings
  | initial =>
      cases other with
      | initial => rfl
      | _ => cases headings
  | slice value start stop =>
      cases other with
      | slice otherValue otherStart otherStop =>
          simp only [form, node.injEq, List.cons.injEq, word.injEq, true_and, and_true] at same
          obtain ⟨rfl, rfl⟩ := range_inj same.2
          rw [erased, erased, erased_eq value same.1]
      | _ => cases headings
  | part value offset width stride =>
      cases other with
      | part otherValue otherOffset otherWidth otherStride =>
          simp only [form, node.injEq, List.cons.injEq, word.injEq, true_and, and_true] at same
          obtain ⟨values, offsets, widths, strides⟩ := same
          rw [erased, erased, erased_eq value values, erased_eq offset offsets,
            nat_inj (congrArg String.toList widths), nat_inj (congrArg String.toList strides)]
      | _ => cases headings
  | concat parts =>
      cases other with
      | concat otherParts =>
          rw [erased, erased, erasedAll_eq parts (forms_inj same)]
      | _ => cases headings
  | unary op operand =>
      cases other with
      | unary otherOp otherOperand =>
          cases headings
          simp only [form, node.injEq, List.cons.injEq, true_and, and_true] at same
          rw [erased, erased, erased_eq operand same]
      | _ => cases headings
  | binary op left right =>
      cases other with
      | binary otherOp otherLeft otherRight =>
          cases headings
          simp only [form, node.injEq, List.cons.injEq, true_and, and_true] at same
          rw [erased, erased, erased_eq left same.1, erased_eq right same.2]
      | _ => cases headings
  | switch test cases =>
      cases other with
      | switch otherTest otherCases =>
          simp only [form, node.injEq, List.cons.injEq, true_and] at same
          rw [erased, erased, erased_eq test same.1, erasedCases_eq cases same.2]
      | _ => cases headings

theorem erasedAll_eq (values : List Value) {others : List Value}
    (same : forms values = forms others) : erasedAll values = erasedAll others := by
  cases values with
  | nil =>
      cases others with
      | nil => rfl
      | cons => cases same
  | cons value rest =>
      cases others with
      | nil => cases same
      | cons other others =>
          simp only [forms, List.cons.injEq] at same
          rw [erasedAll, erasedAll, erased_eq value same.1, erasedAll_eq rest same.2]

theorem erasedCases_eq (cases : List (Keys × Value)) {others : List (Keys × Value)}
    (same : caseForms cases = caseForms others) : erasedCases cases = erasedCases others := by
  cases cases with
  | nil =>
      cases others with
      | nil => rfl
      | cons => cases same
  | cons case rest =>
      cases others with
      | nil => cases same
      | cons other others =>
          obtain ⟨keys, value⟩ := case
          obtain ⟨otherKeys, other⟩ := other
          obtain ⟨heads, tails⟩ := List.cons.inj same
          obtain ⟨rfl, values⟩ := Keys.form_inj heads
          rw [erasedCases, erasedCases, erased_eq value values, erasedCases_eq rest tails]

end

/-! ## Reading texts back -/

/-- The names in a node have no blank and no parenthesis. -/
def Named : Value → Prop
  | .signal leaf => Solid leaf.name
  | .clock domain | .reset domain _ => Solid domain
  | _ => True

theorem forms_eq_map (values : List Value) : forms values = values.map form := by
  induction values with
  | nil => rfl
  | cons value rest ih => rw [forms, ih, List.map_cons]

theorem caseForms_eq_map (cases : List (Keys × Value)) :
    caseForms cases = cases.map fun case => case.1.form case.2.form := by
  induction cases with
  | nil => rfl
  | cons case rest ih => rw [caseForms, ih, List.map_cons]

theorem Heading.solid_word (heading : Heading) : Solid heading.word := by
  cases heading with
  | unary op => cases op <;> simp [word, UnaryOp.symbol, Solid, EndsWord]
  | binary op => cases op <;> simp [word, BinaryOp.symbol, Solid, EndsWord]
  | _ => simp [word, Solid, EndsWord]

theorem clear_form (named : value.Every Named) (wellFormed : value.WellFormed) :
    value.form.Clear := by
  induction named with
  | @node value here below ih =>
      have inner {child : Value} (member : child ∈ value.children) : child.form.Clear :=
        ih child member (wellFormed.child member)
      have number (n : Nat) : (Form.word (toString n)).Clear := .word (solid_nat n)
      cases value with
      | const constant =>
          exact .node Heading.const.solid_word
            (List.forall_mem_singleton.mpr (.word constant.solid_numeral))
      | signal leaf =>
          refine .node Heading.signal.solid_word ?_
          split
          · simp
          · exact List.forall_mem_singleton.mpr (.word here)
      | clock domain =>
          exact .node Heading.clock.solid_word (List.forall_mem_singleton.mpr (.word here))
      | reset domain allowResetLess =>
          exact .node Heading.reset.solid_word (List.forall_mem_singleton.mpr (.word here))
      | initial => exact .node Heading.initial.solid_word (by simp)
      | slice value start stop =>
          have range : Solid (toString start ++ ":" ++ toString stop) :=
            solid_append (solid_append (solid_nat start) (by simp [Solid, EndsWord]))
              (solid_nat stop)
          refine .node Heading.slice.solid_word ?_
          simp only [List.forall_mem_cons]
          exact ⟨inner List.mem_cons_self, .word range, by simp⟩
      | part value offset width stride =>
          refine .node Heading.part.solid_word ?_
          simp only [List.forall_mem_cons]
          exact ⟨inner List.mem_cons_self, inner (by simp [children]), number width,
            number stride, by simp⟩
      | concat parts =>
          refine .node Heading.concat.solid_word ?_
          split
          · exact List.forall_mem_singleton.mpr (.word (by simp [Solid]))
          · rw [forms_eq_map]
            exact List.forall_mem_map.mpr fun part listed => inner listed
      | unary op operand =>
          exact .node (Heading.unary op).solid_word
            (List.forall_mem_singleton.mpr (inner List.mem_cons_self))
      | binary op left right =>
          refine .node (Heading.binary op).solid_word ?_
          simp only [List.forall_mem_cons]
          exact ⟨inner List.mem_cons_self, inner (by simp [children]), by simp⟩
      | switch test cases =>
          refine .node Heading.switch.solid_word
            (List.forall_mem_cons.mpr ⟨inner List.mem_cons_self, ?_⟩)
          rw [caseForms_eq_map]
          refine List.forall_mem_map.mpr fun case listed => ?_
          have fits : case.1.Fits test.width := wellFormed.here.2 case listed
          exact fits.clear_form (inner (List.mem_cons_of_mem _ (List.mem_map_of_mem listed)))

/-- Two well-formed values are written alike exactly if they differ at most in what their text
leaves out. -/
theorem text_eq_iff (wellFormed : value.WellFormed) (otherWellFormed : other.WellFormed)
    (named : value.Every Named) (otherNamed : other.Every Named) :
    value.text = other.text ↔ value.erased = other.erased := by
  constructor
  · intro same
    apply erased_eq
    apply print_inj (clear_form named wellFormed) (clear_form otherNamed otherWellFormed)
    rw [← toList_text, ← toList_text, same]
  · intro same
    rw [← text_erased value, same, text_erased other]

/-- A choice by no bits, between a case with the empty key and a case without keys. -/
def choiceOfNone (id : Nat) : Value :=
  .switch (.concat [])
    [(some [""], .unary .negate (.signal ⟨id, "a", Shape.unsigned 4⟩)), (some [], ofInt 1)]

theorem wellFormed_choiceOfNone (id : Nat) : (choiceOfNone id).WellFormed := by
  have leaf : (signal ⟨id, "a", Shape.unsigned 4⟩).WellFormed :=
    every_iff.mpr ⟨⟨Shape.valid_unsigned 4, trivial⟩, by simp [children]⟩
  have negated : (unary .negate (signal ⟨id, "a", Shape.unsigned 4⟩)).WellFormed :=
    wellFormed_unary (fun _ => Nat.succ_pos _) leaf
  refine wellFormed_switch (wellFormed_concat.mpr (by simp)) ?_
  simp only [List.forall_mem_cons]
  refine ⟨⟨?_, negated⟩, ⟨?_, wellFormed_const (Const.wellFormed_ofInt 1)⟩, by simp⟩
  · intro key listed
    rw [List.mem_singleton.mp listed]
    exact ⟨rfl, by simp⟩
  · exact fun key listed => absurd listed List.not_mem_nil

theorem named_choiceOfNone (id : Nat) : (choiceOfNone id).Every Named := by
  have leaf : (signal ⟨id, "a", Shape.unsigned 4⟩).Every Named :=
    every_iff.mpr ⟨by simp [Named, Solid, EndsWord], by simp [children]⟩
  have negated : (unary .negate (signal ⟨id, "a", Shape.unsigned 4⟩)).Every Named :=
    every_iff.mpr ⟨trivial, by simpa [children] using leaf⟩
  refine every_iff.mpr ⟨trivial, ?_⟩
  simp only [choiceOfNone, children, List.map_cons, List.forall_mem_cons]
  exact ⟨every_iff.mpr ⟨trivial, by simp [children]⟩, negated,
    every_iff.mpr ⟨trivial, by simp [ofInt, children]⟩, by simp⟩

theorem text_eq_choiceOfNone :
    (choiceOfNone 0).text = "(switch-value (cat ) (case  (- (sig a))) (case (const 1'd1)))" ∧
      (choiceOfNone 0).text = (choiceOfNone 1).text ∧
      (choiceOfNone 0).erased = (choiceOfNone 1).erased := by
  have same := text_eq_iff (wellFormed_choiceOfNone 0) (wellFormed_choiceOfNone 1)
    (named_choiceOfNone 0) (named_choiceOfNone 1)
  exact ⟨by decide +kernel, same.mpr rfl, rfl⟩

end Value

end Gateware
