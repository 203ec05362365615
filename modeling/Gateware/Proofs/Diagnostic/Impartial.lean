import Gateware.Proofs.Diagnostic.Compositional
import Gateware.Proofs.Diagnostic.Script
import Gateware.Signal.Plan
import Gateware.Statement
import Gateware.Value.Joined

/-!
# Constructions that filters only refuse

Every construction that raises warnings follows a script, those inside templates and printers
included: none of them catches a refusal, and none checks a thing on one side of a warning that
another filter would have it check on the other side.
-/

set_option autoImplicit false

namespace Gateware

open Build

theorem compositional_scripted : Compositional Scripted where
  ends _ := scripted_pure
  fails _ := scripted_throw
  reads := scripted_design
  warns _ _ := scripted_warn
  bind := Scripted.bind

/-! ## Constants and concatenations -/

theorem Const.scripted_make {value : Int} {spec : ShapeSpec} : Scripted (Const.make value spec) := by
  unfold Const.make
  dsimp only
  split
  · exact scripted_ofExcept.bind fun _ => scripted_pure
  · exact (scripted_warn.bind fun _ => scripted_pure.bind fun _ => scripted_pure).ite
      (scripted_pure.bind fun _ => scripted_pure)
  · exact scripted_castShape.bind fun _ => scripted_pure

theorem Operand.scripted_warnUnsized {operand : Operand} {position : Nat} :
    Scripted (operand.warnUnsized position) := by
  unfold Operand.warnUnsized
  split
  · exact scripted_pure.ite scripted_warn
  · exact scripted_pure.ite scripted_warn
  · exact scripted_pure

theorem Value.scripted_join {operands : List Operand} : Scripted (Value.join operands) :=
  Scripted.bind
    (compositional_scripted.mapM _ fun _ => Operand.scripted_warnUnsized.bind fun _ =>
      compositional_scripted.cast _)
    fun _ => scripted_pure

/-! ## Patterns, switches, printers and formats -/

theorem Pattern.scripted_keys {patterns : List Pattern} {shape : Shape} :
    Scripted (keys patterns shape) :=
  compositional_scripted.keys patterns shape

theorem Value.scripted_switchOn {test : Value} {cases : List (Option (List Pattern) × Value)} :
    Scripted (test.switchOn cases) :=
  compositional_scripted.switchOn test cases

theorem Printer.scripted_compile (printer : Printer) : Scripted printer.compile :=
  compositional_scripted.printer printer

theorem Format.scripted_compile {template : String} {arguments : Arguments Insert} :
    Scripted (compile template arguments) :=
  compositional_scripted.compile template arguments

theorem Statement.scripted_switchOn {test : Operand}
    {cases : List (Option (List Pattern) × List Statement)} :
    Scripted (Statement.switchOn test cases) :=
  (compositional_scripted.cast test).bind fun _ =>
    (compositional_scripted.mapM cases fun case =>
      (compositional_scripted.caseKeys case.1 _).bind fun _ => scripted_pure).bind fun _ =>
        scripted_pure

theorem Value.scripted_matching {value : Value} {patterns : List Pattern} :
    Scripted (value.matching patterns) := by
  refine (compositional_scripted.normalizeAll patterns value.shape).bind fun normals => ?_
  split <;> exact scripted_pure

/-! ## Signals -/

namespace Signal.Plan

theorem scripted_warnInitial {init : Operand} {given shape : Shape} :
    Scripted (warnInitial init given shape) := by
  unfold warnInitial
  exact scripted_pure.ite (scripted_warn.ite (scripted_warn.ite scripted_pure))

theorem scripted_declare {plan : Plan} : Scripted plan.declare := by
  unfold declare
  refine scripted_castShape.bind fun shape => scripted_design.bind fun design =>
    scripted_ofExcept.bind fun constant => ?_
  have declared : Scripted (do
      Build.ofExcept (checkRange plan.spec plan.init)
      let declaration : Declaration := {
        signal := { id := (← Build.design).signals.size, name := plan.finalName, shape }
        spec := plan.spec
        init := shape.fit constant.value
        resetLess := plan.resetLess
        attributes := plan.attributes
        decoder := plan.finalDecoder }
      Build.modifyDesign fun design =>
        { design with signals := design.signals.push declaration }
      return declaration) :=
    scripted_ofExcept.bind fun _ => scripted_design.bind fun _ =>
      scripted_modifyDesign.bind fun _ => scripted_pure
  dsimp only
  split
  · exact scripted_warnInitial.bind fun _ => declared
  · exact declared

end Signal.Plan

/-- Whatever they are given, constructions are refused by a filter or build the same under it:
concatenations, constants, keys, switches, comparisons with patterns, signals, printers and
formats. -/
theorem Build.constructions_impartial :
    (∀ operands, Impartial (Value.join operands)) ∧
    (∀ value spec, Impartial (Const.make value spec)) ∧
    (∀ patterns shape, Impartial (Pattern.keys patterns shape)) ∧
    (∀ test cases, Impartial (Value.switchOn test cases)) ∧
    (∀ test cases, Impartial (Statement.switchOn test cases)) ∧
    (∀ value patterns, Impartial (Value.matching value patterns)) ∧
    (∀ plan : Signal.Plan, Impartial plan.declare) ∧
    (∀ printer : Printer, Impartial printer.compile) ∧
    (∀ template arguments, Impartial (Format.compile template arguments)) :=
  ⟨fun _ => Value.scripted_join.impartial,
    fun _ _ => Const.scripted_make.impartial,
    fun _ _ => Pattern.scripted_keys.impartial,
    fun _ _ => Value.scripted_switchOn.impartial,
    fun _ _ => Statement.scripted_switchOn.impartial,
    fun _ _ => Value.scripted_matching.impartial,
    fun _ => Signal.Plan.scripted_declare.impartial,
    fun printer => (Printer.scripted_compile printer).impartial,
    fun _ _ => Format.scripted_compile.impartial⟩

end Gateware
