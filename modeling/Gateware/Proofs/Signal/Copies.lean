import Gateware.Proofs.Signal.History

/-!
# Copies of signals

A signal declared like another one has its shape, its initial value and all else that was declared
of it.  The initial value is the one that its shape reads from its bits, so that declaring it
again raises no warning and changes nothing of it.
-/

set_option autoImplicit false

namespace Gateware

open Build (runIn Gives)

/-- Declarations of two signals that differ in their names and in how they were asked for only. -/
structure Declaration.Copies (copy original : Declaration) : Prop where
  shape : copy.signal.shape = original.signal.shape
  init : copy.init = original.init
  resetLess : copy.resetLess = original.resetLess
  attributes : copy.attributes = original.attributes
  decoder : copy.decoder = original.decoder

namespace Signal.Plan

variable {plan : Plan} {session start built : Session} {declaration : Declaration}

/-! ## Initial values declared again -/

theorem fit_of_not_valid {shape : Shape} (notValid : ¬ shape.Valid) (value : Int) :
    shape.fit value = 0 := by
  have empty : shape.width = 0 := by
    by_contra positive
    exact notValid fun _ => Nat.pos_of_ne_zero positive
  simp [Shape.fit, empty]

/-- What a shape reads from bits raises no warning as an initializer in that shape. -/
theorem warnInitial_fit (shape : Shape) (value : Int) :
    warnInitial (.int (shape.fit value)) (Shape.ofInt (shape.fit value)) shape = pure () := by
  by_cases valid : shape.Valid
  · exact warnInitial_of_mem valid (Shape.fit_mem valid value)
  · rw [fit_of_not_valid valid]
    rfl

/-! ## Plans of copies -/

def again (declaration : Declaration) : Plan where
  spec := .shape declaration.signal.shape
  name := "$like"
  model := some declaration.signal.name
  init := some (.int declaration.init)
  resetLess := declaration.resetLess
  attributes := declaration.attributes
  decoder := declaration.decoder

theorem runIn_like
    (stored : session.design.signals[declaration.signal.id]? = some declaration) :
    runIn session (like (.value (.signal declaration.signal))) =
      (.ok (again declaration), session) := by
  unfold like
  rw [Build.runIn_bind, Build.runIn_design]
  dsimp only
  rw [stored]
  rfl

theorem finalDecoder_again : (again declaration).finalDecoder = declaration.decoder := by
  unfold finalDecoder again
  cases declaration.decoder <;> rfl

theorem stored_of_gives_declare (declared : Gives plan.declare start declaration built) :
    built.design.signals[declaration.signal.id]? = some declaration ∧
      ∃ number, declaration.init = declaration.signal.shape.fit number := by
  obtain ⟨shape, constant, between, _, _, _, _, rfl, rfl⟩ := gives_declare.mp declared
  exact ⟨Design.getElem?_declaring between.design _, constant.value, rfl⟩

theorem capture_again {number : Int} (session : Session) (filter : Diagnostic.Filter)
    (fitted : declaration.init = declaration.signal.shape.fit number) :
    ∃ copy after,
      runIn session (Build.capture filter (again declaration).declare) =
        (.ok (.ok copy, []), after) ∧
      copy.Copies declaration := by
  have quiet : (again declaration).warning (Const.ofInt declaration.init).shape
      declaration.signal.shape = pure () := by
    show warnInitial (.int declaration.init) (Shape.ofInt declaration.init) _ = pure ()
    rw [fitted]
    exact warnInitial_fit declaration.signal.shape number
  have kept : declaration.signal.shape.fit declaration.init = declaration.init := by
    rw [fitted, Shape.fit_fit]
  have found : (again declaration).initialConst session.design declaration.signal.shape =
      .ok (Const.ofInt declaration.init) := rfl
  have run := capture_declare_of_quiet (again declaration) session filter rfl found quiet rfl
  exact ⟨_, _, run, rfl, kept, rfl, rfl, finalDecoder_again⟩

/-- Whatever a signal was declared by and whatever has happened since, a signal like it is declared
under every filter, without a warning, and is a copy of it. -/
theorem like_copies (declared : Gives plan.declare start declaration built) (later : List Deed)
    (filter : Diagnostic.Filter) :
    ∃ copy after,
      runIn (Deed.afterAll later built)
          (Build.capture filter do (← like (.value (.signal declaration.signal))).declare) =
        (.ok (.ok copy, []), after) ∧
      copy.Copies declaration := by
  obtain ⟨stored, number, fitted⟩ := stored_of_gives_declare declared
  have still := Deed.retains_afterAll later built declaration.signal.id declaration stored
  have opened : ((Deed.afterAll later built).openScope filter).design.signals[declaration.signal.id]?
      = some declaration := still
  obtain ⟨copy, after, run, copies⟩ := capture_again (Deed.afterAll later built) filter fitted
  refine ⟨copy, after, ?_, copies⟩
  rw [Build.runIn_capture] at run ⊢
  rw [Build.runIn_bind, runIn_like opened]
  exact run

/-- A signed signal of three bits that is given six, and keeps the lower three of them. -/
def wrapped : Plan :=
  { spec := .shape ⟨3, true⟩, init := some (.value (.const ⟨61, ⟨6, false⟩⟩)), resetLess := true }

/-- The signal is copied under a filter that denies everything, although declaring it was not
without a warning, and although a bank was made and another signal declared since. -/
theorem like_copies_wrapped :
    ∃ declaration built, Gives wrapped.declare {} declaration built ∧ declaration.init = -3 ∧
      ∃ copy after,
        runIn (Deed.afterAll [.bank (.new [.int 1]), .declare { spec := .width 2 }] built)
            (Build.capture { default := .deny } do
              (← like (.value (.signal declaration.signal))).declare) =
          (.ok (.ok copy, []), after) ∧
        copy.Copies declaration := by
  have declared : Gives wrapped.declare {} _ _ := rfl
  exact ⟨_, _, declared, rfl, like_copies declared _ _⟩

end Signal.Plan

end Gateware
