import Gateware.Proofs.Bank.History
import Gateware.Proofs.Diagnostic.Compositional
import Gateware.Proofs.Signal.Initial

/-!
# Histories of sessions

What a session goes through, step after step, whether the steps succeed or not.  A signal that
was declared stays declared as it was.
-/

set_option autoImplicit false

namespace Gateware

open Build (runIn)

/-! ## Designs after others -/

/-- No declaration is lost or changed. -/
def Design.Retains (later earlier : Design) : Prop :=
  ∀ (id : Nat) (declaration : Declaration), earlier.signals[id]? = some declaration →
    later.signals[id]? = some declaration

namespace Design

theorem Retains.refl (design : Design) : design.Retains design := fun _ _ stored => stored

theorem Retains.trans {last middle first : Design} (left : last.Retains middle)
    (right : middle.Retains first) : last.Retains first :=
  fun id declaration stored => left id declaration (right id declaration stored)

theorem retains_of_signals {later earlier : Design} (same : later.signals = earlier.signals) :
    later.Retains earlier := by
  intro id declaration stored
  rw [same]
  exact stored

theorem retains_declaring (design : Design) (declaration : Declaration) :
    (design.declaring declaration).Retains design := by
  intro id other stored
  obtain ⟨inside, _⟩ := Array.getElem?_eq_some_iff.mp stored
  simp only [declaring, Array.getElem?_push, Nat.ne_of_lt inside, if_false]
  exact stored

theorem getElem?_declaring (design : Design) (declaration : Declaration) :
    (design.declaring declaration).signals[design.signals.size]? = some declaration := by
  simp [declaring]

end Design

/-! ## Steps -/

namespace Build

variable {α β : Type}

/-- A step that keeps all declarations, also if it fails. -/
def Retaining (step : Build α) : Prop :=
  ∀ session, (runIn session step).2.design.Retains session.design

theorem retaining_of_unchanged {step : Build α}
    (unchanged : ∀ session, (runIn session step).2 = session) : Retaining step := by
  intro session
  rw [unchanged]
  exact .refl _

theorem retaining_pure (value : α) : Retaining (pure value) := retaining_of_unchanged fun _ => rfl

theorem retaining_design : Retaining design := retaining_of_unchanged fun _ => rfl

theorem retaining_ofExcept (given : Except Fault α) : Retaining (ofExcept given) :=
  retaining_of_unchanged fun _ => congrArg Prod.snd runIn_ofExcept

theorem retaining_warn (code : Diagnostic.Code) (message : String) :
    Retaining (warn code message) := by
  intro session
  rw [runIn_warn]
  exact .refl _

theorem Retaining.bind {step : Build α} {next : α → Build β} (first : Retaining step)
    (second : ∀ middle, Retaining (next middle)) : Retaining (step >>= next) := by
  intro session
  have here := first session
  rw [runIn_bind]
  cases run : runIn session step with
  | mk outcome between =>
      rw [run] at here
      cases outcome with
      | error fault => exact here
      | ok middle => exact (second middle between).trans here

theorem compositional_retaining : Compositional Retaining where
  ends := retaining_pure
  fails _ := retaining_of_unchanged fun _ => rfl
  reads := retaining_design
  warns := retaining_warn
  bind := Retaining.bind

theorem retaining_castShape (spec : ShapeSpec) : Retaining (castShape spec) :=
  retaining_design.bind fun _ => retaining_ofExcept _

end Build

open Build (Retaining)

theorem Signal.Plan.retaining_warning (plan : Plan) (given shape : Shape) :
    Retaining (plan.warning given shape) := by
  rcases plan.warning_cases given shape with quiet | ⟨code, message, _, raises⟩
  · rw [quiet]
    exact Build.retaining_pure ()
  · rw [raises]
    exact Build.retaining_warn code message

theorem Signal.Plan.retaining_declare (plan : Plan) : Retaining plan.declare := by
  rw [declare_eq]
  apply (Build.retaining_castShape plan.spec).bind
  intro shape
  apply Build.retaining_design.bind
  intro design
  apply (Build.retaining_ofExcept _).bind
  intro constant
  apply (plan.retaining_warning constant.shape shape).bind
  intro _
  apply (Build.retaining_ofExcept _).bind
  intro _ session
  rw [runIn_enter]
  exact Design.retains_declaring _ _

/-! ### Steps on banks -/

theorem Edit.retaining_perform (edit : Edit) (bank : Nat) : Retaining (edit.perform bank) := by
  intro session
  cases frozen : session.design.isFrozen bank with
  | true =>
      rw [runIn_perform_of_frozen frozen]
      exact .refl _
  | false =>
      rw [runIn_perform frozen]
      cases edit.onList (session.design.elements bank) with
      | error fault => exact .refl _
      | ok elements => exact Design.retains_of_signals rfl

theorem Bank.retaining_select (bank : Nat) (index : Operand) : Retaining (select bank index) := by
  intro session
  rw [runIn_select]
  cases session.design.cast index with
  | error fault => exact .refl _
  | ok value =>
      dsimp only
      split
      · exact .refl _
      · exact Design.retains_of_signals rfl

namespace Access

variable {access : Access}

theorem retaining_step {onLookup : Lookup → Build Lookup}
    (lookups : ∀ source, Retaining (onLookup source)) (element : Element) :
    Retaining (access.step onLookup element) := by
  intro session
  rcases access.step_cases element with ⟨source, rfl⟩ | ⟨index, id, rfl, rfl, selects⟩ | plain
  · rw [runIn_step_lookup]
    exact (lookups source).bind (fun _ => Build.retaining_pure _) session
  · rw [runIn_step_select selects]
    exact (Bank.retaining_select id index).bind (fun _ => Build.retaining_pure _) session
  · rw [runIn_step_read plain.1 plain.2]
    exact .refl _

theorem retaining_mapWithin (levels : Nat) (lookup : Lookup) :
    Retaining (lookup.mapWithin access.step levels) := by
  induction levels generalizing lookup with
  | zero => exact Build.retaining_of_unchanged fun _ => rfl
  | succ levels ih =>
      intro session
      rw [Lookup.mapWithin_succ]
      apply (Build.compositional_retaining.mapM _ (retaining_step ih)).bind
      intro made between
      rw [Lookup.runIn_derive]
      exact Design.retains_of_signals rfl

theorem retaining_take (access : Access) (lookup : Lookup) : Retaining (access.take lookup) := by
  intro session
  rw [runIn_take]
  exact retaining_mapWithin session.design.depth lookup session

end Access

theorem Action.retaining_perform (action : Action) : Retaining action.perform := by
  cases action with
  | new elements =>
      intro session
      exact Design.retains_of_signals rfl
  | edit bank change =>
      exact (change.retaining_perform bank).bind fun _ => Build.retaining_pure ()
  | select bank index =>
      exact (Bank.retaining_select bank index).bind fun _ => Build.retaining_pure ()
  | take access lookup =>
      exact (access.retaining_take lookup).bind fun _ => Build.retaining_pure ()

/-! ## Histories -/

/-- What a session goes through: a signal is declared, something is done with banks, an
enumeration, a custom shape or a custom value is made, a custom object gets another target, a
warning is raised, or a scope is opened or closed. -/
inductive Deed where
  | declare (plan : Signal.Plan)
  | bank (action : Action)
  | enumeration (name : String) (members : List (String × MemberValue)) (declared : Option Shape)
  | shape (definition : CustomShape)
  | value (definition : CustomValue)
  | retargetShape (object : Custom) (target : ShapeSpec)
  | retargetValue (object : Custom) (target : Except Fault Operand)
  | warn (code : Diagnostic.Code) (message : String)
  | openScope (filter : Diagnostic.Filter)
  | closeScope

namespace Deed

def after (session : Session) : Deed → Session
  | .declare plan => (runIn session plan.declare).2
  | .bank action => action.after session
  | .enumeration name members declared =>
      (runIn session (Build.enumeration name members declared)).2
  | .shape definition => (runIn session (Build.customShape definition)).2
  | .value definition => (runIn session (Build.customValue definition)).2
  | .retargetShape object target => (runIn session (Build.retargetShape object target)).2
  | .retargetValue object target => (runIn session (Build.retargetValue object target)).2
  | .warn code message => (runIn session (Build.warn code message)).2
  | .openScope filter => session.openScope filter
  | .closeScope => session.closeScope.2

def afterAll (deeds : List Deed) (session : Session) : Session := deeds.foldl after session

theorem retains_after (deed : Deed) (session : Session) :
    (deed.after session).design.Retains session.design := by
  cases deed with
  | declare plan => exact plan.retaining_declare session
  | bank action => exact action.retaining_perform session
  | warn code message => exact Build.retaining_warn code message session
  | closeScope =>
      have same : session.closeScope.2.design = session.design := by
        unfold Session.closeScope
        split <;> rfl
      rw [after, same]
      exact .refl _
  | _ => exact Design.retains_of_signals rfl

theorem retains_afterAll (deeds : List Deed) (session : Session) :
    (afterAll deeds session).design.Retains session.design := by
  induction deeds generalizing session with
  | nil => exact .refl _
  | cons deed rest ih => exact (ih (deed.after session)).trans (deed.retains_after session)

end Deed

end Gateware
