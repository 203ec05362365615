import Gateware.Proofs.Signal.Initial

/-!
# Signals of plain custom shapes

A custom shape that only names what it stands for leaves an initializer as it is, and so the
constant of an integer has the narrowest shape that holds the integer.  A signal of the custom
shape is declared exactly if the custom shape resolves to just that shape; another one is refused,
also where it holds the integer.
-/

set_option autoImplicit false

namespace Gateware

open Build (runIn Gives)

/-- A custom shape that only says what it stands for. -/
def CustomShape.plain (name : String) (target : ShapeSpec) : CustomShape := { name, target }

namespace Signal.Plan

/-- The plan with a custom shape, and with an integer as its initializer or without one. -/
def customized (plan : Plan) (object : Custom) (init : Option Int) : Plan :=
  { plan with spec := .custom object, init := init.map .int }

variable {plan : Plan} {design : Design} {session : Session} {object : Custom} {name : String}
  {target : ShapeSpec} {shape : Shape} {init : Option Int}

theorem customInitial_plain (stored : design.shapes[object.id]? = some (.plain name target)) :
    design.customInitial object (init.map .int) = .ok (.int (init.getD 0)) := by
  unfold Design.customInitial
  rw [stored]
  cases init <;> rfl

theorem initialConst_customized :
    (plan.customized object init).initialConst design shape =
      match (design.customInitial object (init.map .int)).bind design.castConst with
      | .error _ => .error (.customInitial object.name)
      | .ok constant =>
          if constant.shape = shape then .ok constant
          else .error (.customInitialShape object.name shape.text constant.shape.text) :=
  rfl

theorem initialConst_plain (plan : Plan) (shape : Shape) (init : Option Int)
    (stored : design.shapes[object.id]? = some (.plain name target)) :
    (plan.customized object init).initialConst design shape =
      if Shape.ofInt (init.getD 0) = shape then .ok (Const.ofInt (init.getD 0))
      else .error (.customInitialShape object.name shape.text
        (Shape.ofInt (init.getD 0)).text) := by
  rw [initialConst_customized, customInitial_plain stored]
  rfl

theorem warning_customized :
    (plan.customized object init).warning (Shape.ofInt (init.getD 0))
      (Shape.ofInt (init.getD 0)) = pure () := by
  cases init with
  | none => rfl
  | some number => exact warnInitial_of_mem (Shape.valid_ofInt number) (Shape.mem_ofInt number)

theorem capture_customized (plan : Plan) (filter : Diagnostic.Filter)
    (stored : session.design.shapes[object.id]? = some (.plain name target))
    (resolves : session.design.castShape (.custom object) = .ok (Shape.ofInt (init.getD 0))) :
    ∃ declaration after,
      runIn session (Build.capture filter (plan.customized object init).declare) =
        (.ok (.ok declaration, []), after) ∧
      declaration.signal.shape = Shape.ofInt (init.getD 0) ∧
      declaration.init = init.getD 0 := by
  have found := initialConst_plain plan (Shape.ofInt (init.getD 0)) init stored
  rw [if_pos rfl] at found
  have run := capture_declare_of_quiet _ session filter resolves found warning_customized rfl
  exact ⟨_, _, run, rfl,
    Shape.fit_eq_self (Shape.valid_ofInt (init.getD 0)) (Shape.mem_ofInt (init.getD 0))⟩

theorem refused_customized (plan : Plan) (filter : Diagnostic.Filter)
    (stored : session.design.shapes[object.id]? = some (.plain name target))
    (resolves : session.design.castShape (.custom object) = .ok shape)
    (other : Shape.ofInt (init.getD 0) ≠ shape) :
    runIn session (Build.capture filter (plan.customized object init).declare) =
      (.ok (.error (.customInitialShape object.name shape.text
        (Shape.ofInt (init.getD 0)).text), []), session) := by
  have opened : session.design = (session.openScope filter).design := rfl
  rw [opened] at stored resolves
  have shaped : (session.openScope filter).design.castShape (plan.customized object init).spec =
      .ok shape := resolves
  rw [Build.runIn_capture, runIn_declare shaped, initialConst_plain plan shape init stored,
    if_neg other]
  rfl

/-- Whatever the filter, a signal of a plain custom shape is declared exactly if the custom shape
resolves to the narrowest shape of the initializer, or of zero if there is none.  Then it has that
shape and that initial value, and nothing is recorded; otherwise it is refused, and nothing
changes. -/
theorem plain_declares_iff (plan : Plan) (filter : Diagnostic.Filter) (init : Option Int)
    (stored : session.design.shapes[object.id]? = some (.plain name target))
    (resolves : session.design.castShape (.custom object) = .ok shape) :
    ((∃ declaration recorded after,
        runIn session (Build.capture filter (plan.customized object init).declare) =
          (.ok (.ok declaration, recorded), after)) ↔ Shape.ofInt (init.getD 0) = shape) ∧
    (∀ declaration recorded after,
      runIn session (Build.capture filter (plan.customized object init).declare) =
        (.ok (.ok declaration, recorded), after) →
      declaration.signal.shape = shape ∧ declaration.init = init.getD 0 ∧ recorded = []) ∧
    (Shape.ofInt (init.getD 0) ≠ shape →
      runIn session (Build.capture filter (plan.customized object init).declare) =
        (.ok (.error (.customInitialShape object.name shape.text
          (Shape.ofInt (init.getD 0)).text), []), session)) := by
  by_cases same : Shape.ofInt (init.getD 0) = shape
  · subst same
    obtain ⟨declaration, after, run, typed, value⟩ :=
      capture_customized plan filter stored resolves
    refine ⟨iff_of_true ⟨declaration, [], after, run⟩ rfl, ?_, fun other => absurd rfl other⟩
    intro other recorded last found
    cases run.symm.trans found
    exact ⟨typed, value, rfl⟩
  · have run := refused_customized plan filter stored resolves same
    rw [run]
    exact ⟨iff_of_false (by simp) same, by simp, fun _ => rfl⟩

/-- Two custom shapes, of which the first stands for the second, and that one for three bits. -/
def octal : Session where
  design := { shapes := #[.plain "Octal" (.custom ⟨1, "Bits"⟩), .plain "Bits" (.width 3)] }

/-- Five needs just the three bits that the chain of custom shapes leads to. -/
theorem plain_declares_octal :
    octal.design.castShape (.custom ⟨0, "Octal"⟩) = .ok (Shape.ofInt 5) ∧
      ∃ declaration recorded after,
        runIn octal (Build.capture { default := .deny }
          (customized { spec := .width 0 } ⟨0, "Octal"⟩ (some 5)).declare) =
            (.ok (.ok declaration, recorded), after) ∧
        declaration.signal.shape = ⟨3, false⟩ ∧ declaration.init = 5 ∧ recorded = [] := by
  have resolves : octal.design.castShape (.custom ⟨0, "Octal"⟩) = .ok (Shape.ofInt 5) := rfl
  have stored : octal.design.shapes[(⟨0, "Octal"⟩ : Custom).id]? =
      some (.plain "Octal" (.custom ⟨1, "Bits"⟩)) := rfl
  obtain ⟨declares, result, _⟩ :=
    plain_declares_iff { spec := .width 0 } { default := .deny } (some 5) stored resolves
  obtain ⟨declaration, recorded, after, run⟩ := declares.mpr rfl
  obtain ⟨typed, value, silent⟩ := result declaration recorded after run
  exact ⟨resolves, declaration, recorded, after, run, typed, value, silent⟩

def nibbled : Session where
  design := { shapes := #[.plain "Nibble" (.shape (Shape.unsigned 4))] }

/-- Four bits hold zero and five, and a signal of them is refused without an initializer and with
five. -/
theorem nibble_refused :
    nibbled.design.castShape (.custom ⟨0, "Nibble"⟩) = .ok (Shape.unsigned 4) ∧
      (5 : Int) ∈ Shape.unsigned 4 ∧
      (runIn nibbled (customized { spec := .width 0 } ⟨0, "Nibble"⟩ none).declare).1 =
        .error (.customInitialShape "Nibble" "unsigned(4)" "unsigned(1)") ∧
      (runIn nibbled (customized { spec := .width 0 } ⟨0, "Nibble"⟩ (some 5)).declare).1 =
        .error (.customInitialShape "Nibble" "unsigned(4)" "unsigned(3)") := by
  refine ⟨rfl, ?_, rfl, rfl⟩
  rw [Shape.mem_iff_contains]
  decide

end Signal.Plan

end Gateware
