import Gateware.Proofs.Diagnostic.Impartial
import Gateware.Proofs.Signal.Declaration
import Gateware.Proofs.Value.Constants

/-!
# Initial values

What the initializer of a signal resolves to, and what becomes of it in the shape of the signal.
The initial value always has the residue of that constant, and it is the constant itself if it
fits; where it does not, a warning is raised, which compares shapes only.
-/

set_option autoImplicit false

namespace Gateware

open Build (runIn Gives)

namespace Signal.Plan

variable {plan : Plan} {design : Design} {session after : Session} {shape given : Shape}
  {init : Operand} {constant : Const} {declaration : Declaration}

/-! ## Constants of initializers -/

/-- The constant that the initializer of a plan resolves to: what a custom shape makes of it, the
constant of an enumeration with a declared shape, or the constant that it casts to, which is zero
if there is none. -/
def resolved (plan : Plan) (design : Design) : Except Fault Const :=
  let general := design.castConst (plan.init.getD (.int 0))
  match plan.spec with
  | .custom object => (design.customInitial object plan.init).bind design.castConst
  | .enumeration type =>
      if type.declared.isSome then Design.enumerationConst type plan.init else general
  | _ => general

/-- Everything that a plan refers to comes from constructors, and so does what its custom shape
answers to the initializer. -/
structure Sound (plan : Plan) (design : Design) : Prop where
  stands : design.Holds Value.Built
  spec : plan.spec.Holds Value.Built
  init : ∀ given ∈ plan.init, given.Holds Value.Built
  answer {object : Custom} {definition : CustomShape} {operand : Operand}
    (custom : plan.spec = .custom object) (stored : design.shapes[object.id]? = some definition)
    (answers : definition.initial plan.init = .ok (.operand operand)) :
    operand.Holds Value.Built

theorem Sound.valid (sound : plan.Sound design) (shaped : design.castShape plan.spec = .ok shape) :
    shape.Valid :=
  (sound.stands.imp fun _ => Value.Built.trusted).castShape
    (sound.spec.imp fun _ => Value.Built.trusted) shaped

theorem shape_of_enumerationConst {type : Enumeration} {init : Option Operand}
    (found : Design.enumerationConst type init = .ok constant) :
    ∃ shape number, type.shape = .ok shape ∧ constant = Const.fit number shape := by
  obtain ⟨_, _, rest⟩ := bind_eq_ok.mp found
  obtain ⟨_, _, rest⟩ := bind_eq_ok.mp rest
  have picked : ∃ number, type.constOf number = .ok constant := by
    dsimp only at rest
    split at rest
    · exact ⟨_, rest⟩
    · exact ⟨_, rest⟩
    · split at rest
      · exact ⟨_, rest⟩
      · cases rest
    · cases rest
  obtain ⟨_, picked⟩ := picked
  obtain ⟨shape, shaped, rest⟩ := bind_eq_ok.mp picked
  obtain ⟨consts, _, rest⟩ := bind_eq_ok.mp rest
  split at rest
  · cases rest
    exact ⟨shape, _, shaped, rfl⟩
  · cases rest

theorem Sound.holds_customInitial (sound : plan.Sound design) {object : Custom}
    (custom : plan.spec = .custom object) {operand : Operand}
    (answers : design.customInitial object plan.init = .ok operand) :
    operand.Holds Value.Built := by
  unfold Design.customInitial at answers
  split at answers
  · cases answers
  · rename_i definition stored
    obtain ⟨initializer, answered, rest⟩ := bind_eq_ok.mp answers
    cases initializer with
    | operand given =>
        cases rest
        exact sound.answer custom stored answered
    | fitted number =>
        obtain ⟨shape, shaped, rest⟩ := bind_eq_ok.mp rest
        cases rest
        have target := sound.stands.shapes definition (Array.mem_of_getElem? stored)
        have valid := (sound.stands.imp fun _ => Value.Built.trusted).castShape
          (target.imp fun _ => Value.Built.trusted) shaped
        exact Value.building_built.fit number valid

theorem initialConst_spec (sound : plan.Sound design)
    (shaped : design.castShape plan.spec = .ok shape)
    (found : plan.initialConst design shape = .ok constant) :
    plan.resolved design = .ok constant ∧ constant.WellFormed ∧
      (constant.shape = shape ∨
        design.castConst (plan.init.getD (.int 0)) = .ok constant) := by
  have general (found : design.castConst (plan.init.getD (.int 0)) = .ok constant) :
      constant.WellFormed ∧ (constant.shape = shape ∨
        design.castConst (plan.init.getD (.int 0)) = .ok constant) := by
    have given : (plan.init.getD (.int 0)).Holds Value.Built := by
      cases stored : plan.init with
      | none => trivial
      | some operand => exact sound.init operand stored
    exact ⟨Const.wellFormed_of_castConst sound.stands given found, Or.inr found⟩
  unfold initialConst at found
  unfold resolved
  cases spec : plan.spec with
  | custom object =>
      rw [spec] at found
      dsimp only at found ⊢
      split at found
      · cases found
      · rename_i resolved made
        split at found
        · rename_i same
          cases found
          obtain ⟨operand, answers, cast⟩ := bind_eq_ok.mp made
          exact ⟨made, Const.wellFormed_of_castConst sound.stands
            (sound.holds_customInitial spec answers) cast, Or.inl same⟩
        · cases found
  | enumeration type =>
      rw [spec] at found
      dsimp only at found ⊢
      by_cases declared : type.declared.isSome
      · rw [if_pos declared] at found ⊢
        split at found
        · rename_i made
          cases found
          obtain ⟨other, number, typed, rfl⟩ := shape_of_enumerationConst made
          have same : design.castShape plan.spec = .ok other := by
            rw [spec, Design.castShape, Design.castShapeWithin, typed]
          rw [shaped] at same
          cases same
          exact ⟨made, Const.wellFormed_fit (sound.valid shaped) number, Or.inl rfl⟩
        · cases found
      · rw [if_neg declared] at found ⊢
        split at found
        · rename_i cast
          cases found
          exact ⟨cast, general cast⟩
        · split at found <;> cases found
  | _ =>
      rw [spec] at found
      dsimp only at found ⊢
      split at found
      · rename_i cast
        cases found
        exact ⟨cast, general cast⟩
      · split at found <;> cases found

/-! ## Warnings -/

def IsInitialCode (code : Diagnostic.Code) : Prop :=
  code = .signedInitial ∨ code = .truncatedInitial

theorem mem_of_quiet {value : Int} (signs : ¬ (given.signed && !shape.signed) = true)
    (widths : ¬ (shape.width < given.width ||
      (given.width = shape.width && shape.signed && !given.signed)) = true)
    (inside : value ∈ given) : value ∈ shape := by
  obtain ⟨narrow, givenSigned⟩ := given
  obtain ⟨wide, signed⟩ := shape
  simp only [Bool.or_eq_true, Bool.and_eq_true, decide_eq_true_eq, Bool.not_eq_true', not_or,
    not_and, Nat.not_lt] at signs widths
  obtain ⟨wider, unequal⟩ := widths
  cases givenSigned with
  | true =>
      cases signed with
      | true => exact Shape.mem_of_width_le wider inside
      | false => exact absurd rfl (signs rfl)
  | false =>
      cases signed with
      | true =>
          have other : narrow ≠ wide := fun same => unequal ⟨same, rfl⟩ rfl
          exact Shape.mem_signed_of_mem_unsigned (by omega) inside
      | false => exact Shape.mem_of_width_le wider inside

/-- A warning on an initializer is raised unless it is meant for any shape or the shape holds all
integers of its own shape. -/
theorem warnInitial_cases (init : Operand) (given shape : Shape) :
    warnInitial init given shape = pure () ∧
        (fillsAnyShape init = true ∨ ∀ value ∈ given, value ∈ shape) ∨
      ∃ code message, IsInitialCode code ∧ warnInitial init given shape = Build.warn code message := by
  unfold warnInitial
  by_cases fills : fillsAnyShape init = true
  · rw [if_pos fills]
    exact Or.inl ⟨rfl, Or.inl fills⟩
  · rw [if_neg fills]
    by_cases signs : (given.signed && !shape.signed) = true
    · rw [if_pos signs]
      exact Or.inr ⟨_, _, Or.inl rfl, rfl⟩
    · rw [if_neg signs]
      by_cases widths : (shape.width < given.width ||
          (given.width = shape.width && shape.signed && !given.signed)) = true
      · rw [if_pos widths]
        exact Or.inr ⟨_, _, Or.inr rfl, rfl⟩
      · rw [if_neg widths]
        exact Or.inl ⟨rfl, Or.inr fun value => mem_of_quiet signs widths⟩

theorem warning_cases (plan : Plan) (given shape : Shape) :
    plan.warning given shape = pure () ∨
      ∃ code message, IsInitialCode code ∧ plan.warning given shape = Build.warn code message := by
  unfold warning
  cases plan.init with
  | none => exact Or.inl rfl
  | some init => exact (warnInitial_cases init given shape).imp_left And.left

/-! ## Declarations -/

theorem exists_of_gives_declare (run : Gives plan.declare session declaration after) :
    ∃ constant, session.design.castShape plan.spec = .ok declaration.signal.shape ∧
      plan.initialConst session.design declaration.signal.shape = .ok constant ∧
      declaration.init = declaration.signal.shape.fit constant.value ∧
      ∀ init, plan.init = some init → ∃ between,
        Gives (warnInitial init constant.shape declaration.signal.shape) session () between ∧
          after.scopes = between.scopes := by
  obtain ⟨shape, constant, between, shaped, found, warned, _, rfl, rfl⟩ := gives_declare.mp run
  refine ⟨constant, shaped, found, rfl, ?_⟩
  intro init stored
  simp only [warning, stored] at warned
  exact ⟨between, warned, rfl⟩

theorem value_of_fills (fills : fillsAnyShape init = true) (other : init ≠ .int (-1))
    (found : design.castConst init = .ok constant) : constant.value = 0 := by
  cases init with
  | bool truth =>
      cases truth with
      | false =>
          cases found
          rfl
      | true => cases fills
  | int number =>
      have zero : number = 0 := by
        have either : number = 0 ∨ number = -1 := by simpa [fillsAnyShape] using fills
        exact either.resolve_right fun same => other (same ▸ rfl)
      subst zero
      cases found
      rfl
  | _ => cases fills

theorem value_mem_of_silent (sound : plan.Sound design)
    (shaped : design.castShape plan.spec = .ok shape)
    (found : plan.initialConst design shape = .ok constant)
    (other : plan.init ≠ some (.int (-1)))
    (silent : ∀ init, plan.init = some init →
      fillsAnyShape init = true ∨ ∀ value ∈ constant.shape, value ∈ shape) :
    constant.value ∈ shape := by
  obtain ⟨_, wellFormed, same | cast⟩ := initialConst_spec sound shaped found
  · rw [← same]
    exact wellFormed.2
  · cases stored : plan.init with
    | none =>
        rw [stored] at cast
        cases cast
        exact Shape.zero_mem
    | some init =>
        rw [stored] at cast other
        rcases silent init stored with fills | holds
        · rw [value_of_fills fills (fun same => other (congrArg some same)) cast]
          exact Shape.zero_mem
        · exact holds constant.value wellFormed.2

theorem recorded_of_gives_warn {filter : Diagnostic.Filter} {code : Diagnostic.Code}
    {message : String} {result : Unit} {between : Session} (warns : filter.level code = .warn)
    (run : Gives (Build.warn code message) (session.openScope filter) result between)
    (scopes : after.scopes = between.scopes) :
    after.closeScope.1 = [Diagnostic.warning code message] := by
  rw [Gives, Build.runIn_warn] at run
  have heard : between = (session.openScope filter).hearing [⟨code, message⟩] :=
    (congrArg Prod.snd run).symm
  have closed : after.closeScope.1 = between.closeScope.1 := by
    unfold Session.closeScope
    rw [scopes]
    split <;> rfl
  rw [closed, heard, Session.closeScope_hearing]
  simp [Program.report, Program.Emit.reported, Diagnostic.warning, warns]

/-- The initial value of a signal lies in its shape and has the residue of the constant that the
initializer resolves to.  If the initializer is not minus one and a scope that lets every warning
through has heard of none on it, the initial value is that constant. -/
theorem initial_exact (sound : plan.Sound session.design) :
    (∀ declaration after, Gives plan.declare session declaration after →
      ∃ constant, plan.resolved session.design = .ok constant ∧
        declaration.init ∈ declaration.signal.shape ∧
        declaration.init ≡ constant.value [ZMOD 2 ^ declaration.signal.shape.width]) ∧
    ∀ (filter : Diagnostic.Filter) (declaration : Declaration) (recorded : List Diagnostic)
      (after : Session), (∀ code, filter.level code = .warn) →
      runIn session (Build.capture filter plan.declare) =
        (.ok (.ok declaration, recorded), after) →
      plan.init ≠ some (.int (-1)) →
      (∀ diagnostic ∈ recorded, ¬ IsInitialCode diagnostic.code) →
      ∃ constant, plan.resolved session.design = .ok constant ∧
        declaration.init = constant.value := by
  constructor
  · intro declaration after run
    obtain ⟨constant, shaped, found, fitted, _⟩ := exists_of_gives_declare run
    obtain ⟨resolves, _⟩ := initialConst_spec sound shaped found
    exact ⟨constant, resolves, (Shape.eq_fit_iff (sound.valid shaped)).mp fitted⟩
  · intro filter declaration recorded after warns run other quiet
    rw [Build.runIn_capture] at run
    have opened : session.design = (session.openScope filter).design := rfl
    generalize ended : runIn (session.openScope filter) plan.declare = outcome at run
    obtain ⟨result, last⟩ := outcome
    cases run
    have gives : Gives plan.declare (session.openScope filter) declaration last := ended
    obtain ⟨constant, shaped, found, fitted, warned⟩ := exists_of_gives_declare gives
    rw [← opened] at shaped found
    obtain ⟨resolves, _⟩ := initialConst_spec sound shaped found
    have silent : ∀ init, plan.init = some init →
        fillsAnyShape init = true ∨
          ∀ value ∈ constant.shape, value ∈ declaration.signal.shape := by
      intro init stored
      obtain ⟨between, run, scopes⟩ := warned init stored
      rcases warnInitial_cases init constant.shape declaration.signal.shape with
        ⟨_, fits⟩ | ⟨code, message, initial, raises⟩
      · exact fits
      · rw [raises] at run
        have heard := recorded_of_gives_warn (warns code) run scopes
        have listed : Diagnostic.warning code message ∈ last.closeScope.1 := by
          rw [heard]
          exact List.mem_singleton_self _
        exact absurd initial (quiet _ listed)
    refine ⟨constant, resolves, ?_⟩
    rw [fitted]
    exact Shape.fit_eq_self (sound.valid shaped)
      (value_mem_of_silent sound shaped found other silent)

def signedNibble : Plan := { spec := .shape ⟨4, true⟩, init := some (.int (-3)) }

theorem initial_exact_signedNibble :
    signedNibble.Sound ({} : Session).design ∧
      ∃ declaration recorded after,
        runIn {} (Build.capture {} signedNibble.declare) =
          (.ok (.ok declaration, recorded), after) ∧
        recorded = [] ∧ signedNibble.resolved {} = .ok ⟨-3, ⟨3, true⟩⟩ ∧
        declaration.init = -3 := by
  have sound : signedNibble.Sound ({} : Session).design := by
    refine ⟨?_, ?_, ?_, nofun⟩
    · constructor <;> simp
    · show (⟨4, true⟩ : Shape).Valid
      decide
    · intro given stored
      cases stored
      trivial
  have run : runIn {} (Build.capture {} signedNibble.declare) = (.ok (.ok _, []), _) := rfl
  have other : signedNibble.init ≠ some (.int (-1)) := by
    intro same
    cases same
  obtain ⟨constant, resolves, exact⟩ := (initial_exact sound).2 {} _ [] _
    Diagnostic.Filter.level_empty run other nofun
  refine ⟨sound, _, _, _, run, rfl, rfl, ?_⟩
  cases resolves
  exact exact

end Signal.Plan

end Gateware
