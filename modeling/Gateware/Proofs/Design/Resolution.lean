import Gateware.Proofs.Design.Chain
import Gateware.Proofs.Session

/-!
# What casts come to

The custom values of a design form a chain under what they stand for, and so do its custom
shapes.  Casting an operand or a shape specification comes to exactly what the chain from it
comes to: the bound on the number of custom objects that are asked never shows.
-/

set_option autoImplicit false

namespace Gateware

def Operand.custom? : Operand → Option Custom
  | .custom object => some object
  | _ => none

def ShapeSpec.custom? : ShapeSpec → Option Custom
  | .custom object => some object
  | _ => none

/-- A cast of any start comes to the one ending of the chain from it, which is a custom object
met again exactly if there is one. -/
structure Chain.ResolvedBy {Object Result : Type} (chain : Chain Object)
    (cycle : Custom → Fault) (cast : Object → Except Fault Result) : Prop where
  ends (start : Object) : ∃! ending, chain.EndsIn start ending
  result {start : Object} {ending : Ending Object} (ends : chain.EndsIn start ending) :
    cast start = ending.result cycle cast
  revisits (start : Object) :
    (∃ custom, chain.EndsIn start (.revisited custom)) ↔ chain.Revisits start

namespace Chain

variable {Object Result : Type} {chain : Chain Object}

theorem EndsIn.revisits {start : Object} {custom : Custom}
    (ends : chain.EndsIn start (.revisited custom)) : chain.Revisits start := by
  cases ends with
  | revisited before first again same _ => exact revisits_of_at before first again same
  | stopped there last =>
      obtain ⟨-, impossible⟩ | ⟨_, _, -, -, impossible⟩ := halt?_eq_some.mp last
      all_goals cases impossible

theorem EndsIn.custom?_eq_none {start object : Object} (ends : chain.EndsIn start (.rest object)) :
    chain.custom? object = none := by
  cases ends with
  | stopped there last =>
      obtain ⟨plain, same⟩ | ⟨_, _, -, -, impossible⟩ := halt?_eq_some.mp last
      · cases same
        exact plain
      · cases impossible

theorem EndsIn.exists_answer {start : Object} {fault : Fault}
    (ends : chain.EndsIn start (.refused fault)) :
    ∃ custom, chain.answer custom = .error fault := by
  cases ends with
  | stopped there last =>
      obtain ⟨-, impossible⟩ | ⟨custom, _, -, answers, same⟩ := halt?_eq_some.mp last
      · cases impossible
      · cases same
        exact ⟨custom, answers⟩

theorem FollowedBy.resolved {cycle : Custom → Fault}
    {cast : Nat → List Nat → Object → Except Fault Result} (follows : chain.FollowedBy cycle cast) :
    chain.ResolvedBy cycle (cast (chain.count + 1) []) where
  ends start := by
    obtain ⟨ending, ends⟩ := exists_ending chain start
    exact ⟨ending, ends, fun other otherEnds => otherEnds.unique ends⟩
  result ends := follows.cast_eq ends
  revisits start :=
    ⟨fun ⟨_, ends⟩ => ends.revisits, fun revisits => revisits.exists_first⟩

/-- A cast that resolves a chain is refused for recursion if the chain comes back, or else if
what it stops at is refused so. -/
theorem ResolvedBy.recursion_iff {cycle : Custom → Fault} {cast : Object → Except Fault Result}
    (resolved : chain.ResolvedBy cycle cast)
    (cyclic : ∀ custom, (cycle custom).kind = .recursion) (start : Object) :
    (∃ fault, cast start = .error fault ∧ fault.kind = .recursion) ↔
      chain.Revisits start ∨
        (∃ fault, chain.EndsIn start (.refused fault) ∧ fault.kind = .recursion) ∨
        ∃ object fault, chain.EndsIn start (.rest object) ∧ cast object = .error fault ∧
          fault.kind = .recursion := by
  constructor
  · rintro ⟨fault, failed, kind⟩
    obtain ⟨ending, ends, -⟩ := resolved.ends start
    rw [resolved.result ends] at failed
    cases ending with
    | revisited custom => exact Or.inl ends.revisits
    | rest object => exact Or.inr (Or.inr ⟨object, fault, ends, failed, kind⟩)
    | refused _ =>
        cases failed
        exact Or.inr (Or.inl ⟨fault, ends, kind⟩)
  · rintro (revisits | ⟨fault, ends, kind⟩ | ⟨object, fault, ends, failed, kind⟩)
    · obtain ⟨custom, ends⟩ := (resolved.revisits start).mpr revisits
      exact ⟨cycle custom, resolved.result ends, cyclic custom⟩
    · exact ⟨fault, resolved.result ends, kind⟩
    · exact ⟨fault, (resolved.result ends).trans failed, kind⟩

end Chain

namespace Enumeration

theorem kind_of_consts {enumeration : Enumeration} {fault : Fault}
    (failed : enumeration.consts = .error fault) : fault.kind = .type := by
  obtain ⟨_, ⟨name, value⟩, _, _, _, here⟩ := mapM_eq_error.mp failed
  dsimp only at here
  split at here
  · cases here
  · cases here
    rfl

theorem kind_of_shape {enumeration : Enumeration} {fault : Fault}
    (failed : enumeration.shape = .error fault) : fault.kind = .type :=
  kind_of_consts (map_eq_error.mp failed)

theorem Member.kind_of_const {member : Enumeration.Member} {fault : Fault}
    (failed : member.const = .error fault) : fault.kind = .type := by
  rw [Member.const] at failed
  cases found : member.owner.shape with
  | error reported =>
      rw [found] at failed
      cases failed
      exact kind_of_shape found
  | ok shape =>
      rw [found] at failed
      cases folded : member.value.const? with
      | some constant => simp [bind, Except.bind, folded] at failed
      | none =>
          simp only [bind, Except.bind, folded] at failed
          cases failed
          rfl

end Enumeration

namespace Design

/-! ## Values -/

def valueAnswer (design : Design) (custom : Custom) : Except Fault Operand :=
  match design.values[custom.id]? with
  | none => .error (.notValue custom.name)
  | some definition => definition.target

theorem valueAnswer_eq_ok {design : Design} {custom : Custom} {operand : Operand} :
    design.valueAnswer custom = .ok operand ↔
      ∃ definition, design.values[custom.id]? = some definition ∧
        definition.target = .ok operand := by
  unfold valueAnswer
  cases design.values[custom.id]? <;> simp

def valueChain (design : Design) : Chain Operand where
  custom? := Operand.custom?
  answer := design.valueAnswer
  count := design.values.size
  lt_count answers := by
    obtain ⟨_, stored, -⟩ := valueAnswer_eq_ok.mp answers
    exact (Array.getElem?_eq_some_iff.mp stored).1
  answer_congr same answers := by
    obtain ⟨definition, stored, target⟩ := valueAnswer_eq_ok.mp answers
    exact valueAnswer_eq_ok.mpr ⟨definition, same ▸ stored, target⟩

theorem castWithin_follows (design : Design) :
    design.valueChain.FollowedBy (fun custom => .valueCycle custom.name) design.castWithin where
  direct {more met object} plain := by
    cases object with
    | custom custom => cases plain
    | _ => simp only [castWithin]
  spent {met object custom} known := by
    cases object with
    | custom other =>
        cases known
        rw [castWithin]
    | _ => cases known
  step {more met object custom} known := by
    cases object with
    | custom other =>
        cases known
        rw [castWithin]
        congr 1
        change _ = (design.valueAnswer custom).bind _
        rw [valueAnswer]
        cases design.values[custom.id]? <;> rfl
    | _ => cases known

/-! ## Shapes -/

def shapeAnswer (design : Design) (custom : Custom) : Except Fault ShapeSpec :=
  match design.shapes[custom.id]? with
  | none => .error (.notShape custom.name)
  | some definition => .ok definition.target

theorem shapeAnswer_eq_ok {design : Design} {custom : Custom} {spec : ShapeSpec} :
    design.shapeAnswer custom = .ok spec ↔
      ∃ definition, design.shapes[custom.id]? = some definition ∧ definition.target = spec := by
  unfold shapeAnswer
  cases design.shapes[custom.id]? <;> simp

theorem kind_of_shapeAnswer {design : Design} {custom : Custom} {fault : Fault}
    (failed : design.shapeAnswer custom = .error fault) : fault.kind = .type := by
  unfold shapeAnswer at failed
  split at failed
  · cases failed
    rfl
  · cases failed

def shapeChain (design : Design) : Chain ShapeSpec where
  custom? := ShapeSpec.custom?
  answer := design.shapeAnswer
  count := design.shapes.size
  lt_count answers := by
    obtain ⟨_, stored, -⟩ := shapeAnswer_eq_ok.mp answers
    exact (Array.getElem?_eq_some_iff.mp stored).1
  answer_congr same answers := by
    obtain ⟨definition, stored, target⟩ := shapeAnswer_eq_ok.mp answers
    exact shapeAnswer_eq_ok.mpr ⟨definition, same ▸ stored, target⟩

theorem castShapeWithin_follows (design : Design) :
    design.shapeChain.FollowedBy (fun custom => .shapeCycle custom.name)
      design.castShapeWithin where
  direct {more met object} plain := by
    cases object with
    | custom custom => cases plain
    | _ => simp only [castShapeWithin]
  spent {met object custom} known := by
    cases object with
    | custom other =>
        cases known
        rw [castShapeWithin]
    | _ => cases known
  step {more met object custom} known := by
    cases object with
    | custom other =>
        cases known
        rw [castShapeWithin]
        congr 1
        change _ = (design.shapeAnswer custom).bind _
        rw [shapeAnswer]
        cases design.shapes[custom.id]? <;> rfl
    | _ => cases known

/-! ## Results -/

theorem kind_of_castShape {design : Design} {spec : ShapeSpec} {fault : Fault}
    (plain : spec.custom? = none) (failed : design.castShape spec = .error fault) :
    fault.kind = .type := by
  unfold castShape at failed
  cases spec with
  | shape exact => cases failed
  | width bits =>
      simp only [castShapeWithin, Shape.make] at failed
      split at failed
      · cases failed
        rfl
      · split at failed
        · cases failed
          rfl
        · cases failed
  | range numbers => cases failed
  | enumeration type => exact Enumeration.kind_of_shape failed
  | custom object => cases plain
  | other content =>
      cases failed
      rfl

theorem exists_lookup_of_cast {design : Design} {operand : Operand} {fault : Fault}
    (plain : operand.custom? = none) (failed : design.cast operand = .error fault)
    (kind : fault.kind = .recursion) :
    ∃ lookup, operand = .lookup lookup ∧ design.lookupValue lookup = .error fault := by
  unfold cast at failed
  cases operand with
  | lookup source => exact ⟨source, rfl, failed⟩
  | member case =>
      have unfolded : case.const = .error fault := map_eq_error.mp failed
      cases kind.symm.trans (Enumeration.Member.kind_of_const unfolded)
  | text content =>
      cases failed
      cases kind
  | custom object => cases plain
  | _ => cases failed

/-- Custom values and custom shapes are resolved to the end of their chains, however long.  What
is refused for recursion is what comes back, and what some custom value or proxy refused so
when it was asked. -/
theorem casts_resolve (design : Design) :
    (design.valueChain.ResolvedBy (fun custom => .valueCycle custom.name) design.cast ∧
      ∀ start, (∃ fault, design.cast start = .error fault ∧ fault.kind = .recursion) ↔
        design.valueChain.Revisits start ∨
          ∃ fault, fault.kind = .recursion ∧
            (design.valueChain.EndsIn start (.refused fault) ∨
              ∃ lookup, design.valueChain.EndsIn start (.rest (.lookup lookup)) ∧
                design.lookupValue lookup = .error fault)) ∧
    (design.shapeChain.ResolvedBy (fun custom => .shapeCycle custom.name) design.castShape ∧
      ∀ start, (∃ fault, design.castShape start = .error fault ∧ fault.kind = .recursion) ↔
        design.shapeChain.Revisits start) := by
  have values : design.valueChain.ResolvedBy _ design.cast := design.castWithin_follows.resolved
  have shapes : design.shapeChain.ResolvedBy _ design.castShape :=
    design.castShapeWithin_follows.resolved
  refine ⟨⟨values, fun start => ?_⟩, shapes, fun start => ?_⟩
  · rw [values.recursion_iff (fun _ => rfl)]
    apply or_congr_right
    constructor
    · rintro (⟨fault, ends, kind⟩ | ⟨object, fault, ends, failed, kind⟩)
      · exact ⟨fault, kind, Or.inl ends⟩
      · obtain ⟨lookup, rfl, refused⟩ := exists_lookup_of_cast ends.custom?_eq_none failed kind
        exact ⟨fault, kind, Or.inr ⟨lookup, ends, refused⟩⟩
    · rintro ⟨fault, kind, ends | ⟨lookup, ends, failed⟩⟩
      · exact Or.inl ⟨fault, ends, kind⟩
      · exact Or.inr ⟨.lookup lookup, fault, ends, failed, kind⟩
  · rw [shapes.recursion_iff (fun _ => rfl)]
    refine ⟨fun either => ?_, Or.inl⟩
    obtain revisits | ⟨fault, ends, kind⟩ | ⟨object, fault, ends, failed, kind⟩ := either
    · exact revisits
    · obtain ⟨custom, answers⟩ := ends.exists_answer
      cases kind.symm.trans (kind_of_shapeAnswer answers)
    · cases kind.symm.trans (kind_of_castShape ends.custom?_eq_none failed)

-- A way that leads into a loop: what is named is where the loop closes, not the start.
example :
    let loops : Design :=
      { values := #[⟨"start", .ok (.custom ⟨1, "ring"⟩), none⟩,
          ⟨"ring", .ok (.custom ⟨1, "ring"⟩), none⟩] }
    loops.cast (.custom ⟨0, "start"⟩) = .error (.valueCycle "ring") := rfl

end Design

end Gateware
