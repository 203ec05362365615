import Gateware.Proofs.Value.Parts
import Gateware.Proofs.Value.Widths

/-!
# Widths of selections at offsets

Bits and words are selected by the same rules: an illegal width is refused first, then an offset of
a signed shape.  An offset that is not constant gives a part, with as many bits as were asked for.
A constant gives a slice, which has only those of them that are bits of the value.
-/

set_option autoImplicit false

namespace Gateware

/-- What is selected at an offset: so many bits, or the word of so many bits. -/
inductive Selector where
  | bits
  | word

namespace Selector

def select : Selector → Value → Value → Int → Except Fault Value
  | .bits => Value.bitSelect
  | .word => Value.wordSelect

/-- The number of bits that the offset counts by. -/
def stride : Selector → Int → Nat
  | .bits, _ => 1
  | .word, width => width.toNat

def Legal : Selector → Int → Prop
  | .bits, width => 0 ≤ width
  | .word, width => 0 < width

instance (selector : Selector) (width : Int) : Decidable (selector.Legal width) :=
  match selector with
  | .bits => inferInstanceAs (Decidable (0 ≤ width))
  | .word => inferInstanceAs (Decidable (0 < width))

def widthFault : Selector → Int → Fault
  | .bits => .partWidth
  | .word => .wordWidth

/-- Whether a selection is refused, and why, told from the shape of the offset and the width. -/
def verdict (selector : Selector) (offset : Shape) (width : Int) : Except Fault Unit :=
  if selector.Legal width then if offset.signed then .error .signedOffset else .ok ()
  else .error (selector.widthFault width)

variable {selector : Selector} {value offset picked : Value} {constant : Const} {width : Int}

theorem select_of_illegal (illegal : ¬ selector.Legal width) :
    selector.select value offset width = .error (selector.widthFault width) := by
  cases selector with
  | bits => exact if_pos (Int.not_le.mp illegal)
  | word => exact if_pos (Int.not_lt.mp illegal)

theorem select_of_varying (legal : selector.Legal width)
    (varying : ∀ constant, offset ≠ .const constant) :
    selector.select value offset width =
      if offset.shape.signed then .error .signedOffset
      else .ok (.part value offset width.toNat (selector.stride width)) := by
  cases selector with
  | bits =>
      have notNegative : 0 ≤ width := legal
      have part : value.bitSelect offset width = value.partOf offset width 1 := by
        rw [Value.bitSelect, if_neg (by omega)]
        exact varying
      rw [select, part, Value.partOf, if_neg (by omega), if_neg (by decide)]
      rfl
  | word =>
      have positive : 0 < width := legal
      have part : value.wordSelect offset width = value.partOf offset width width := by
        rw [Value.wordSelect, if_neg (by omega)]
        exact varying
      rw [select, part, Value.partOf, if_neg (by omega), if_neg (by omega)]
      rfl

theorem exists_select_const (legal : selector.Legal width) :
    ∃ start stop,
      selector.select value (.const constant) width = .ok (.slice value start stop) := by
  cases selector with
  | bits => exact ⟨_, _, if_neg (Int.not_lt.mpr legal)⟩
  | word => exact ⟨_, _, if_neg (Int.not_le.mpr legal)⟩

theorem select_const (legal : selector.Legal width) (narrow : value.width < 2 ^ 63)
    (notNegative : 0 ≤ constant.value) :
    selector.select value (.const constant) width =
      .ok (.slice value (min (constant.value.toNat * selector.stride width) value.width)
        (min (constant.value.toNat * selector.stride width + width.toNat) value.width)) := by
  cases selector with
  | bits =>
      rw [stride, Nat.mul_one]
      exact Value.bitSelect_const narrow notNegative legal
  | word => exact Value.wordSelect_const narrow notNegative legal

theorem verdict_of_varying (varying : ∀ constant, offset ≠ .const constant) :
    (selector.select value offset width).map (fun _ => ()) =
      selector.verdict offset.shape width := by
  by_cases legal : selector.Legal width
  · rw [select_of_varying legal varying, verdict, if_pos legal]
    split <;> rfl
  · rw [select_of_illegal legal, verdict, if_neg legal]
    rfl

theorem verdict_of_const (unsigned : constant.shape.signed = false) :
    (selector.select value (.const constant) width).map (fun _ => ()) =
      selector.verdict constant.shape width := by
  by_cases legal : selector.Legal width
  · obtain ⟨start, stop, chosen⟩ :
        ∃ start stop, selector.select value (.const constant) width =
          .ok (.slice value start stop) := exists_select_const legal
    rw [chosen, verdict, if_pos legal, unsigned]
    rfl
  · rw [select_of_illegal legal, verdict, if_neg legal]
    rfl

theorem legal_of_select (chosen : selector.select value offset width = .ok picked) :
    selector.Legal width := by
  by_contra illegal
  rw [select_of_illegal illegal] at chosen
  cases chosen

theorem shape_of_varying (varying : ∀ constant, offset ≠ .const constant)
    (chosen : selector.select value offset width = .ok picked) :
    picked.shape = Shape.unsigned width.toNat := by
  rw [select_of_varying (legal_of_select chosen) varying] at chosen
  split at chosen
  · cases chosen
  · cases chosen
    rfl

theorem shape_of_const (narrow : value.width < 2 ^ 63) (notNegative : 0 ≤ constant.value)
    (chosen : selector.select value (.const constant) width = .ok picked) :
    picked.shape = Shape.unsigned
      (min (constant.value.toNat * selector.stride width + width.toNat) value.width -
        min (constant.value.toNat * selector.stride width) value.width) := by
  rw [select_const (legal_of_select chosen) narrow notNegative] at chosen
  cases chosen
  exact congrArg Shape.unsigned (Width.between_eq (by omega) (by omega))

end Selector

end Gateware
