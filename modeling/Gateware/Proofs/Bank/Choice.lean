import Gateware.Proofs.Bank.Steps
import Gateware.Proofs.Design.Reading
import Gateware.Proofs.Value.Held
import Gateware.Proofs.Value.Matching

/-!
# Choosing an element

The switch that a lookup stands for has a key for every position within reach of the index, and
no two positions share a key.  Where the index is the position of an element, the switch
evaluates to that element, and its shape holds what the shape of the element holds.  That shape
is found in words if those of the elements are, with room for a sign.
-/

set_option autoImplicit false

namespace Gateware

open Build (runIn Gives)

/-! ## Keys of positions -/

/-- The position that the bits of an index write. -/
def Environment.position (environment : Environment) (index : Value) : Nat :=
  Binary.residue (index.eval environment) index.width

theorem Keys.covers_position_iff {position width : Nat} (number : Int)
    (bounded : position < 2 ^ width) :
    Keys.covers (Binary.digits position width) (Binary.digits number width) = true ↔
      Binary.residue number width = position := by
  have whole := Keys.covers_digits_iff_of_whole number
    fun symbol (digit : symbol ∈ Binary.digits position width) => Binary.mem_digits digit
  rw [Binary.length_digits, Binary.read_digits] at whole
  have small : Binary.residue position width = position := by
    have below : (position : Int) < 2 ^ width := by
      rw [← Binary.natCast_two_pow]
      exact Int.ofNat_lt.mpr bounded
    rw [Binary.residue, Int.emod_eq_of_lt (Int.natCast_nonneg position) below,
      Int.toNat_natCast]
  rw [whole, small]

theorem Design.reach_le (width : Nat) : reach width ≤ 2 ^ width := by
  unfold reach
  split
  · exact Nat.le_refl _
  · rename_i wide
    calc Width.max ≤ 2 ^ 64 := by decide
      _ ≤ 2 ^ width := Nat.pow_le_pow_right (by decide) (Nat.le_of_not_lt wide)

namespace Value

variable (environment : Environment)

/-- Among cases that are keyed by their positions, the one at the position of a number is
taken; where there is none, the number is zero. -/
theorem chosen_zipIdx {values : List Value} {start place width : Nat} {number : Int}
    (position : Binary.residue number width = start + place)
    (bounded : start + values.length ≤ 2 ^ width) :
    chosen environment (Binary.digits number width)
        ((values.zipIdx start).map fun (value, position) =>
          (some [Binary.text position width], value)) =
      (values[place]?.map (eval environment)).getD 0 := by
  induction values generalizing start place with
  | nil => rfl
  | cons first rest ih =>
      rw [List.length_cons] at bounded
      have accepts : Keys.accept (some [Binary.text start width]) (Binary.digits number width) =
          true ↔ place = 0 := by
        rw [Keys.accept, List.any_cons, List.any_nil, Bool.or_false, Binary.text,
          String.toList_ofList, Keys.covers_position_iff number (by omega), position]
        omega
      rw [List.zipIdx_cons, List.map_cons, chosen]
      cases place with
      | zero =>
          rw [if_pos (accepts.mpr rfl)]
          rfl
      | succ place =>
          rw [if_neg (accepts.not.mpr (Nat.succ_ne_zero place))]
          exact ih (by omega) (by omega)

theorem eval_switch_keyed {index : Value} {values : List Value}
    (bounded : values.length ≤ 2 ^ index.width) :
    (Value.switch index (Design.keyed index.width values)).eval environment =
      (values[environment.position index]?.map (eval environment)).getD 0 := by
  rw [eval, Design.keyed]
  exact chosen_zipIdx environment (Nat.zero_add _).symm ((Nat.zero_add _).symm ▸ bounded)

theorem getElem?_take_reach {index : Value} {values : List Value}
    (short : values.length ≤ Width.max) :
    (values.take (Design.reach index.width))[environment.position index]? =
      values[environment.position index]? := by
  have below : environment.position index < 2 ^ index.width := Binary.residue_lt _ _
  rw [List.getElem?_take]
  split
  · rfl
  · rename_i beyond
    symm
    rw [List.getElem?_eq_none_iff]
    unfold Design.reach at beyond
    split at beyond
    · exact absurd below beyond
    · exact Nat.le_trans short (Nat.le_of_not_lt beyond)

theorem eval_switch_reached {index : Value} {values : List Value}
    (short : values.length ≤ Width.max) :
    (Value.switch index
        (Design.keyed index.width (values.take (Design.reach index.width)))).eval environment =
      (values[environment.position index]?.map (eval environment)).getD 0 := by
  have bounded : (values.take (Design.reach index.width)).length ≤ 2 ^ index.width :=
    Nat.le_trans (List.length_take_le _ _) (Design.reach_le _)
  rw [eval_switch_keyed environment bounded, getElem?_take_reach environment short]

/-- A value whose shape is found in words, with room for the bit it gets beside a signed one. -/
structure Roomy (value : Value) : Prop where
  held : value.Held
  room : value.shape.Roomy

theorem roomy_switch_keyed {index : Value} {width : Nat} {values : List Value}
    (room : ∀ value ∈ values, value.Roomy) :
    (Value.switch index (Design.keyed width values)).Roomy := by
  have shapesRoomy : ∀ shape ∈ values.map Value.shape, shape.Roomy :=
    List.forall_mem_map.mpr fun value listed => (room value listed).room
  have inWord : ∀ shape ∈ values.map Value.shape, shape.width ≤ Width.max :=
    List.forall_mem_map.mpr fun value listed => (held_iff.mp (room value listed).held).1
  refine ⟨held_iff.mpr ⟨?_, ?_⟩, ?_⟩
  · rw [Value.width, Design.shape_switch_keyed, Shape.width_unify_le_iff inWord]
    exact fun _ => shapesRoomy
  · rw [shapers, Design.map_snd_keyed]
    exact fun value listed => (room value listed).held
  · rw [Design.shape_switch_keyed]
    exact Shape.roomy_unify shapesRoomy

end Value

/-! ## One lookup -/

section Lists

variable {α β γ : Type} {related : α → β → Prop}

theorem exists_forall₂_of_exists {left : α → γ → Prop} {right : β → γ → Prop} {given : List α}
    {images : List β}
    (pairs : List.Forall₂ (fun item image => ∃ result, right image result ∧ left item result)
      given images) :
    ∃ results, List.Forall₂ right images results ∧ List.Forall₂ left given results := by
  induction pairs with
  | nil => exact ⟨[], .nil, .nil⟩
  | cons here _ ih =>
      obtain ⟨result, onRight, onLeft⟩ := here
      obtain ⟨results, others, rest⟩ := ih
      exact ⟨result :: results, .cons onRight others, .cons onLeft rest⟩

theorem exists_getElem?_of_forall₂ {given : List α} {results : List β} {place : Nat} {item : α}
    (pairs : List.Forall₂ related given results) (here : given[place]? = some item) :
    ∃ result, results[place]? = some result ∧ related item result := by
  obtain ⟨inside, rfl⟩ := List.getElem?_eq_some_iff.mp here
  have insideToo : place < results.length := pairs.length_eq ▸ inside
  exact ⟨results[place], List.getElem?_eq_getElem insideToo,
    (List.forall₂_iff_get.mp pairs).2 place inside insideToo⟩

end Lists

namespace Design

variable {design : Design}

/-- A value that chooses by an index among elements, each of which stands for some values. -/
structure Chooses (stands : Element → Value → Prop) (elements : List Element) (index : Value)
    (value : Value) : Prop where
  eval {environment : Environment} {element : Element}
    (here : elements[environment.position index]? = some element) :
    ∃ chosen, stands element chosen ∧ value.eval environment = chosen.eval environment ∧
      ∀ number ∈ chosen.shape, number ∈ value.shape
  roomy (room : ∀ element ∈ elements, ∀ other, stands element other → other.Roomy) :
    value.Roomy

theorem exists_chooses {lookup : Lookup} {elements : List Element}
    {stands : Element → Value → Prop} (short : elements.length ≤ Width.max)
    (pairs : List.Forall₂ (fun element image => ∃ value,
      design.elementValue image = .ok value ∧ stands element value)
        elements (design.elements lookup.bank)) :
    ∃ value, design.lookupValue lookup = .ok value ∧
      Chooses stands elements lookup.index value := by
  obtain ⟨values, casts, choices⟩ := exists_forall₂_of_exists pairs
  let reached := values.take (reach lookup.index.width)
  have shortValues : values.length ≤ Width.max := choices.length_eq ▸ short
  refine ⟨.switch lookup.index (keyed lookup.index.width reached), ?_, ?_, ?_⟩
  · exact design.lookupValue_eq_ok.mpr ⟨reached, List.forall₂_take _ casts, rfl⟩
  · intro environment element here
    obtain ⟨chosen, stored, stand⟩ := exists_getElem?_of_forall₂ choices here
    refine ⟨chosen, stand, ?_, ?_⟩
    · rw [Value.eval_switch_reached environment shortValues, stored]
      rfl
    · intro number inside
      have found : reached[environment.position lookup.index]? = some chosen := by
        rw [Value.getElem?_take_reach environment shortValues, stored]
      rw [shape_switch_keyed]
      exact Shape.mem_unify (List.mem_map_of_mem (List.mem_of_getElem? found)) inside
  · intro room
    refine Value.roomy_switch_keyed fun value taken => ?_
    obtain ⟨element, among, here⟩ := exists_related choices (List.mem_of_mem_take taken)
    exact room element among value here

end Design

end Gateware
