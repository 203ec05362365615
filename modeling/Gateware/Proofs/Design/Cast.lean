import Gateware.Proofs.Value.Building

/-!
# Casts of trusted designs

What a design of trusted values casts is trusted again: the values of operands and of
lookups, the shapes of specifications, and the constants and signals made of them.
-/

set_option autoImplicit false

namespace Gateware

section Casts

open Value

theorem MemberValue.Holds.const? {value : MemberValue} {constant : Const}
    (holds : value.Holds Trusted) (folds : value.const? = some constant) :
    constant.WellFormed := by
  cases value with
  | int number =>
      cases folds
      exact Const.wellFormed_ofInt number
  | value tree => exact Trusted.folded holds folds
  | text content => cases folds

theorem Enumeration.Holds.shape {enumeration : Enumeration} {shape : Shape}
    (holds : enumeration.Holds Trusted) (found : enumeration.shape = .ok shape) :
    shape.Valid := by
  obtain ⟨consts, members, rfl⟩ := map_eq_ok.mp found
  cases declared : enumeration.declared with
  | some exact => exact holds.2 exact (by rw [declared]; rfl)
  | none =>
      apply Shape.valid_unify
      intro shape listed
      obtain ⟨named, namedListed, rfl⟩ := List.mem_map.mp listed
      obtain ⟨member, memberListed, folds⟩ := exists_related (mapM_eq_ok.mp members) namedListed
      dsimp only at folds
      split at folds
      · rename_i constant folded
        cases folds
        exact (MemberValue.Holds.const? (holds.1 member memberListed) folded).1
      · cases folds

theorem Enumeration.Holds.const {member : Enumeration.Member} {constant : Const}
    (holds : member.owner.Holds Trusted) (found : member.const = .ok constant) :
    constant.WellFormed := by
  obtain ⟨shape, shapeFound, rest⟩ := bind_eq_ok.mp found
  split at rest
  · cases rest
    exact Const.wellFormed_fit (holds.shape shapeFound) _
  · cases rest

namespace Design.Holds

variable {design : Design} (stands : design.Holds Trusted)
include stands

omit stands in
private theorem castShapeWithin_direct {more : Nat} {met : List Nat} {spec : ShapeSpec}
    {shape : Shape} (direct : ∀ object, spec ≠ .custom object)
    (holds : spec.Holds Trusted)
    (found : design.castShapeWithin more met spec = .ok shape) : shape.Valid := by
  cases spec with
  | shape exact =>
      rw [Design.castShapeWithin] at found
      cases found
      exact holds
  | width width =>
      rw [Design.castShapeWithin] at found
      exact Shape.valid_of_make found
  | range range =>
      rw [Design.castShapeWithin] at found
      cases found
      exact Shape.valid_ofRange range
  | enumeration type =>
      rw [Design.castShapeWithin] at found
      exact Enumeration.Holds.shape holds found
  | custom object => exact absurd rfl (direct object)
  | other content =>
      rw [Design.castShapeWithin] at found
      cases found

theorem castShapeWithin {more : Nat} {met : List Nat} {spec : ShapeSpec} {shape : Shape}
    (holds : spec.Holds Trusted)
    (found : design.castShapeWithin more met spec = .ok shape) : shape.Valid := by
  induction more generalizing met spec with
  | zero =>
      cases spec with
      | custom object => cases found
      | _ => exact castShapeWithin_direct (by simp) holds found
  | succ more ih =>
      cases spec with
      | custom object =>
          rw [Design.castShapeWithin] at found
          split at found
          · cases found
          · split at found
            · cases found
            · rename_i definition stored
              exact ih (stands.shapes definition (Array.mem_of_getElem? stored)) found
      | _ => exact castShapeWithin_direct (by simp) holds found

theorem castShape {spec : ShapeSpec} {shape : Shape} (holds : spec.Holds Trusted)
    (found : design.castShape spec = .ok shape) : shape.Valid :=
  stands.castShapeWithin holds found

theorem elements {bank : Nat} {element : Element} (listed : element ∈ design.elements bank) :
    element.Holds Trusted := by
  unfold Design.elements at listed
  cases stored : design.banks[bank]? with
  | none => simp [stored] at listed
  | some state =>
      rw [stored] at listed
      exact stands.banks state (Array.mem_of_getElem? stored) element listed

omit stands in
theorem elementValueWith {lookupValue : Lookup → Except Fault Value} {element : Element}
    {value : Value} (holds : element.Holds Trusted)
    (lookups : ∀ lookup value, lookup.index.Trusted → lookupValue lookup = .ok value →
      value.Trusted)
    (found : design.elementValueWith lookupValue element = .ok value) :
    value.Trusted := by
  cases element with
  | int number =>
      cases found
      exact trusted_ofInt number
  | value tree =>
      cases found
      exact holds
  | lookup source => exact lookups source value holds found
  | bank id => cases found
  | record name fields => cases found

theorem lookupValueWithin {levels : Nat} {lookup : Lookup} {value : Value}
    (holds : lookup.index.Trusted)
    (found : design.lookupValueWithin levels lookup = .ok value) : value.Trusted := by
  induction levels generalizing lookup value with
  | zero => cases found
  | succ levels ih =>
      rw [Design.lookupValueWithin] at found
      obtain ⟨cases, made, rest⟩ := bind_eq_ok.mp found
      cases rest
      apply trusted_switch holds
      intro case listed
      obtain ⟨⟨element, position⟩, placed, run⟩ := exists_related (mapM_eq_ok.mp made) listed
      obtain ⟨elementValue, elementFound, rest⟩ := bind_eq_ok.mp run
      cases rest
      refine ⟨Keys.fits_text _ _, ?_⟩
      have reached := (List.mem_zipIdx placed).2.2
      have stored : element ∈ design.elements lookup.bank := by
        rw [reached]
        exact List.mem_of_mem_take (List.getElem_mem _)
      exact elementValueWith (stands.elements stored) (fun _ _ => ih) elementFound

private theorem castWithin_direct {more : Nat} {met : List Nat} {operand : Operand}
    {value : Value} (direct : ∀ object, operand ≠ .custom object)
    (holds : operand.Holds Trusted)
    (found : design.castWithin more met operand = .ok value) : value.Trusted := by
  cases operand with
  | int number =>
      rw [Design.castWithin] at found
      cases found
      exact trusted_ofInt number
  | bool truth =>
      rw [Design.castWithin] at found
      cases found
      exact trusted_ofInt _
  | text content =>
      rw [Design.castWithin] at found
      cases found
  | value tree =>
      rw [Design.castWithin] at found
      cases found
      exact holds
  | member case =>
      rw [Design.castWithin] at found
      obtain ⟨constant, made, rfl⟩ := map_eq_ok.mp found
      exact trusted_const (Enumeration.Holds.const holds made)
  | custom object => exact absurd rfl (direct object)
  | lookup source =>
      rw [Design.castWithin] at found
      exact stands.lookupValueWithin holds found

theorem castWithin {more : Nat} {met : List Nat} {operand : Operand} {value : Value}
    (holds : operand.Holds Trusted)
    (found : design.castWithin more met operand = .ok value) : value.Trusted := by
  -- Only custom values use up a level; every other operand is cast at once.
  induction more generalizing met operand with
  | zero =>
      cases operand with
      | custom object => cases found
      | _ => exact stands.castWithin_direct (by simp) holds found
  | succ more ih =>
      cases operand with
      | custom object =>
          rw [Design.castWithin] at found
          split at found
          · cases found
          · split at found
            · cases found
            · rename_i definition stored
              obtain ⟨target, targetFound, rest⟩ := bind_eq_ok.mp found
              have targetHolds :=
                stands.values definition (Array.mem_of_getElem? stored) target targetFound
              exact ih targetHolds rest
      | _ => exact stands.castWithin_direct (by simp) holds found

theorem cast {operand : Operand} {value : Value} (holds : operand.Holds Trusted)
    (found : design.cast operand = .ok value) : value.Trusted :=
  stands.castWithin holds found

end Design.Holds

namespace Build.Gives

variable {session after : Session}

theorem const_wellFormed {number : Int} {spec : ShapeSpec} {constant : Const}
    (stands : session.design.Holds Trusted) (holds : spec.Holds Trusted)
    (run : Gives (Const.make number spec) session constant after) : constant.WellFormed := by
  unfold Const.make at run
  dsimp only at run
  cases spec with
  | width width =>
      obtain ⟨shape, _, shapeRun, rest⟩ := gives_bind.mp run
      obtain ⟨rfl, _⟩ := gives_pure.mp rest
      exact Const.wellFormed_fit (Shape.valid_of_make (gives_ofExcept.mp shapeRun).1) _
  | range range =>
      have fitted : constant = Const.fit number (Shape.ofRange range) := by
        dsimp only at run
        split at run
        · obtain ⟨_, _, _, rest⟩ := gives_bind.mp run
          exact (gives_pure.mp rest).1.symm
        · exact (gives_pure.mp run).1.symm
      rw [fitted]
      exact Const.wellFormed_fit (Shape.valid_ofRange range) _
  | _ =>
      obtain ⟨shape, _, shapeRun, rest⟩ := gives_bind.mp run
      obtain ⟨rfl, _⟩ := gives_pure.mp rest
      exact Const.wellFormed_fit (stands.castShape holds (gives_castShape.mp shapeRun).1) _

theorem signal_valid {plan : Signal.Plan} {declaration : Declaration}
    (stands : session.design.Holds Trusted) (holds : plan.spec.Holds Trusted)
    (run : Gives plan.declare session declaration after) : declaration.signal.shape.Valid := by
  unfold Signal.Plan.declare at run
  obtain ⟨shape, _, shapeRun, run⟩ := gives_bind.mp run
  have valid := stands.castShape holds (gives_castShape.mp shapeRun).1
  -- Every later step only checks the initializer or records the signal.
  obtain ⟨_, _, _, run⟩ := gives_bind.mp run
  obtain ⟨_, _, _, run⟩ := gives_bind.mp run
  dsimp only at run
  split at run
  case' h_1 => obtain ⟨_, _, _, run⟩ := gives_bind.mp run
  all_goals
    obtain ⟨_, _, _, run⟩ := gives_bind.mp run
    obtain ⟨_, _, _, run⟩ := gives_bind.mp run
    obtain ⟨_, _, _, run⟩ := gives_bind.mp run
    obtain ⟨rfl, _⟩ := gives_pure.mp run
    exact valid

theorem unsized_design {operand : Operand} {position : Nat} {result : Unit}
    (run : Gives (operand.warnUnsized position) session result after) :
    after.design = session.design := by
  have silent {result : Unit} (run : Gives (pure ()) session result after) :
      after.design = session.design := by
    rw [(gives_pure.mp run).2]
  cases operand with
  | int number =>
      unfold Operand.warnUnsized at run
      dsimp only at run
      split at run
      · exact silent run
      · exact Gives.warn run
  | member case =>
      unfold Operand.warnUnsized at run
      dsimp only at run
      split at run
      · exact silent run
      · exact Gives.warn run
  | _ => exact silent run

end Build.Gives

end Casts

end Gateware
