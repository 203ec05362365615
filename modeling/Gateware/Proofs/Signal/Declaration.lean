import Gateware.Proofs.Diagnostic.Scopes
import Gateware.Proofs.Shape.Narrowest
import Gateware.Signal.Plan

/-!
# What declaring comes to

A plan is declared in four steps: its shape and the constant of its initializer are found, a
warning may be raised on the initializer, the initializer is checked against a range, and the
signal is entered in the design.  An integer that its shape can hold is entered as it is, and
raises no warning.
-/

set_option autoImplicit false

namespace Gateware

open Build (runIn Gives)

def Design.declaring (design : Design) (declaration : Declaration) : Design :=
  { design with signals := design.signals.push declaration }

namespace Signal.Plan

/-! ## The steps -/

def declaration (plan : Plan) (design : Design) (shape : Shape) (constant : Const) :
    Declaration where
  signal := { id := design.signals.size, name := plan.finalName, shape }
  spec := plan.spec
  init := shape.fit constant.value
  resetLess := plan.resetLess
  attributes := plan.attributes
  decoder := plan.finalDecoder

def warning (plan : Plan) (given shape : Shape) : Build Unit :=
  match plan.init with
  | some init => warnInitial init given shape
  | none => pure ()

def enter (plan : Plan) (shape : Shape) (constant : Const) : Build Declaration := do
  let declaration := plan.declaration (← Build.design) shape constant
  Build.modifyDesign fun design => design.declaring declaration
  return declaration

variable {plan : Plan} {session after : Session} {shape given : Shape} {constant : Const}
  {declaration : Declaration} {value : Int}

theorem runIn_enter :
    runIn session (plan.enter shape constant) =
      (.ok (plan.declaration session.design shape constant),
        { session with
          design := session.design.declaring (plan.declaration session.design shape constant) }) :=
  rfl

theorem declare_eq :
    plan.declare = (do
      let shape ← Build.castShape plan.spec
      let constant ← Build.ofExcept (plan.initialConst (← Build.design) shape)
      plan.warning constant.shape shape
      Build.ofExcept (checkRange plan.spec plan.init)
      plan.enter shape constant) := by
  unfold declare warning
  congr 1
  funext shape
  congr 1
  funext design
  congr 1
  funext constant
  cases plan.init <;> rfl

theorem runIn_declare (shaped : session.design.castShape plan.spec = .ok shape) :
    runIn session plan.declare =
      match plan.initialConst session.design shape with
      | .error fault => (.error fault, session)
      | .ok constant => runIn session (do
          plan.warning constant.shape shape
          Build.ofExcept (checkRange plan.spec plan.init)
          plan.enter shape constant) := by
  have shapeRun : Gives (Build.castShape plan.spec) session shape session :=
    Build.gives_castShape.mpr ⟨shaped, rfl⟩
  rw [declare_eq, shapeRun.runIn_bind, Build.runIn_bind, Build.runIn_design]
  dsimp only
  rw [Build.runIn_bind, Build.runIn_ofExcept]
  cases plan.initialConst session.design shape <;> rfl

theorem gives_declare :
    Gives plan.declare session declaration after ↔
      ∃ shape constant between, session.design.castShape plan.spec = .ok shape ∧
        plan.initialConst session.design shape = .ok constant ∧
        Gives (plan.warning constant.shape shape) session () between ∧
        checkRange plan.spec plan.init = .ok () ∧
        declaration = plan.declaration between.design shape constant ∧
        after = { between with design := between.design.declaring declaration } := by
  rw [declare_eq]
  constructor
  · intro run
    obtain ⟨shape, _, shapeRun, run⟩ := Build.gives_bind.mp run
    obtain ⟨shaped, rfl⟩ := Build.gives_castShape.mp shapeRun
    obtain ⟨_, _, designRun, run⟩ := Build.gives_bind.mp run
    obtain ⟨rfl, rfl⟩ := Build.gives_design.mp designRun
    obtain ⟨constant, _, constRun, run⟩ := Build.gives_bind.mp run
    obtain ⟨found, rfl⟩ := Build.gives_ofExcept.mp constRun
    obtain ⟨_, between, warned, run⟩ := Build.gives_bind.mp run
    obtain ⟨_, _, checkRun, run⟩ := Build.gives_bind.mp run
    obtain ⟨checked, rfl⟩ := Build.gives_ofExcept.mp checkRun
    cases run
    exact ⟨shape, constant, between, shaped, found, warned, checked, rfl, rfl⟩
  · intro passed
    obtain ⟨shape, constant, between, shaped, found, warned, checked, rfl, rfl⟩ := passed
    apply Build.gives_bind.mpr
    refine ⟨shape, session, Build.gives_castShape.mpr ⟨shaped, rfl⟩, ?_⟩
    apply Build.gives_bind.mpr
    refine ⟨session.design, session, Build.gives_design.mpr ⟨rfl, rfl⟩, ?_⟩
    apply Build.gives_bind.mpr
    refine ⟨constant, session, Build.gives_ofExcept.mpr ⟨found, rfl⟩, ?_⟩
    apply Build.gives_bind.mpr
    refine ⟨(), between, warned, ?_⟩
    apply Build.gives_bind.mpr
    exact ⟨(), between, Build.gives_ofExcept.mpr ⟨checked, rfl⟩, runIn_enter⟩

theorem gives_declare_of_quiet (shaped : session.design.castShape plan.spec = .ok shape)
    (found : plan.initialConst session.design shape = .ok constant)
    (quiet : plan.warning constant.shape shape = pure ())
    (checked : checkRange plan.spec plan.init = .ok ()) :
    Gives plan.declare session (plan.declaration session.design shape constant)
      { session with
        design := session.design.declaring (plan.declaration session.design shape constant) } := by
  apply gives_declare.mpr
  refine ⟨shape, constant, session, shaped, found, ?_, checked, rfl, rfl⟩
  rw [quiet]
  exact Build.gives_pure.mpr ⟨rfl, rfl⟩

theorem capture_declare_of_quiet (plan : Plan) (session : Session) (filter : Diagnostic.Filter)
    (shaped : session.design.castShape plan.spec = .ok shape)
    (found : plan.initialConst session.design shape = .ok constant)
    (quiet : plan.warning constant.shape shape = pure ())
    (checked : checkRange plan.spec plan.init = .ok ()) :
    runIn session (Build.capture filter plan.declare) =
      (.ok (.ok (plan.declaration session.design shape constant), []),
        { session with
          design :=
            session.design.declaring (plan.declaration session.design shape constant) }) := by
  have opened : session.design = (session.openScope filter).design := rfl
  rw [opened] at shaped found
  have run : runIn (session.openScope filter) plan.declare = _ :=
    gives_declare_of_quiet shaped found quiet checked
  rw [Build.runIn_capture, run]
  rfl

/-! ## Integers that fit -/

/-- The shape of an integer other than zero is narrower than a shape that holds it, or as wide and
of the same signedness. -/
theorem ofInt_narrow (valid : shape.Valid) (inside : value ∈ shape) (notZero : value ≠ 0) :
    ((Shape.ofInt value).signed = true → shape.signed = true) ∧
      (Shape.ofInt value).width ≤ shape.width ∧
      ((Shape.ofInt value).width = shape.width → shape.signed = true →
        (Shape.ofInt value).signed = true) := by
  have needed (signBit : Bool) (asked : signBit = true → shape.signed = true) :
      Binary.bitsFor value signBit ≤ shape.width :=
    Shape.bitsFor_le_of_mem valid inside asked fun zero => absurd zero notZero
  refine ⟨?_, needed false nofun, ?_⟩
  · intro negative
    exact Shape.signed_of_neg_mem inside (Shape.signed_ofInt.mp negative)
  · intro same signed
    apply Shape.signed_ofInt.mpr
    by_contra notNegative
    have positive : 0 < value := by omega
    have withSign := needed true fun _ => signed
    have without : (Shape.ofInt value).width = Binary.bitsFor value false := rfl
    rw [Binary.bitsFor_of_pos positive] at withSign without
    simp only [Bool.toNat_true, Bool.toNat_false] at withSign without
    omega

theorem warnInitial_of_mem (valid : shape.Valid) (inside : value ∈ shape) :
    warnInitial (.int value) (Shape.ofInt value) shape = pure () := by
  by_cases zero : value = 0
  · subst zero
    rfl
  · obtain ⟨signs, narrow, same⟩ := ofInt_narrow valid inside zero
    have signsAgree : ¬ ((Shape.ofInt value).signed && !shape.signed) = true := by
      simpa using signs
    have room : ¬ (shape.width < (Shape.ofInt value).width ||
        ((Shape.ofInt value).width = shape.width && shape.signed &&
          !(Shape.ofInt value).signed)) = true := by
      simpa [narrow] using same
    unfold warnInitial
    rw [if_neg signsAgree, if_neg room]
    split <;> rfl

end Signal.Plan

end Gateware
