import Gateware.Proofs.Diagnostic.Scopes

/-!
# Steps that filters only refuse

A step of building follows a script: the warnings that it raises one after the other and how it
ends are fixed by the design, and a filter decides only how far the script is played, which is up
to the first warning that it denies.  Steps that are put together of such steps follow the scripts
of their parts, one after the other.
-/

set_option autoImplicit false

namespace Gateware

open Diagnostic

variable {α β : Type}

namespace Diagnostic.Filter

def Denies (filter : Filter) (code : Code) : Prop := filter.level code = .deny

theorem not_denies_empty (code : Code) : ¬ Denies {} code := by
  simp [Denies, level_empty]

def allows (filter : Filter) (code : Code) : Bool := filter.level code = .allow

end Diagnostic.Filter

namespace Build

/-- A filter changes nothing of what a step does but that it may refuse it.  Of the warnings that
are recorded if all are let through, those before the first that the filter denies are recorded
unless it allows them; if there is one that it denies, that one is recorded as an error and is how
the step ends, and if there is none the step ends as it would and leaves the same session. -/
def Impartial (step : Build α) : Prop :=
  ∀ (session : Session) (filter : Filter), ∃ result warnings after,
    runIn session (capture {} step) = (.ok (result, warnings), after) ∧
    ((∀ warning ∈ warnings, ¬ filter.Denies warning.code) →
      runIn session (capture filter step) =
        (.ok (result, warnings.filter fun warning => !filter.allows warning.code), after)) ∧
    ∀ before denied rest, warnings = before ++ denied :: rest →
      (∀ warning ∈ before, ¬ filter.Denies warning.code) → filter.Denies denied.code →
      ∃ refused, runIn session (capture filter step) =
        (.ok (.error (.denied denied.escalated),
          (before.filter fun warning => !filter.allows warning.code) ++ [denied.escalated]),
          refused)

/-! ## Scripts -/

/-- In a design, a step raises the given warnings one after the other as long as none is denied,
ends with the result, and leaves the design. -/
structure Plays (step : Build α) (design : Design) (emits : List Program.Emit)
    (result : Except Fault α) (after : Design) : Prop where
  granted : ∀ {scopes : List Scope} {filter : Filter},
    Session.enclosing ⟨design, scopes⟩ = some filter →
    (∀ emit ∈ emits, ¬ filter.Denies emit.code) →
    runIn ⟨design, scopes⟩ step = (result, Session.hearing ⟨after, scopes⟩ emits)
  refused : ∀ {scopes : List Scope} {filter : Filter} {before rest : List Program.Emit}
    {denied : Program.Emit}, Session.enclosing ⟨design, scopes⟩ = some filter →
    emits = before ++ denied :: rest → (∀ emit ∈ before, ¬ filter.Denies emit.code) →
    filter.Denies denied.code →
    ∃ left, runIn ⟨design, scopes⟩ step = (.error (.denied (denied.reported filter.level)),
      Session.hearing ⟨left, scopes⟩ (before ++ [denied]))

def Scripted (step : Build α) : Prop :=
  ∀ design, ∃ emits result after, Plays step design emits result after

theorem plays_silent {step : Build α} {design after : Design} {result : Except Fault α}
    (run : ∀ scopes, runIn ⟨design, scopes⟩ step = (result, ⟨after, scopes⟩)) :
    Plays step design [] result after where
  granted _ _ := by rw [run, Session.hearing_nil]
  refused _ split _ _ := absurd split (by simp)

theorem scripted_pure {value : α} : Scripted (pure value) :=
  fun design => ⟨[], .ok value, design, plays_silent fun _ => rfl⟩

theorem scripted_throw {fault : Fault} : Scripted (throw fault : Build α) :=
  fun design => ⟨[], .error fault, design, plays_silent fun _ => rfl⟩

theorem scripted_ofExcept {given : Except Fault α} : Scripted (ofExcept given) :=
  fun design => ⟨[], given, design, plays_silent fun _ => runIn_ofExcept⟩

theorem scripted_design : Scripted Build.design :=
  fun design => ⟨[], .ok design, design, plays_silent fun _ => rfl⟩

theorem scripted_modifyDesign {change : Design → Design} : Scripted (modifyDesign change) :=
  fun design => ⟨[], .ok (), change design, plays_silent fun _ => rfl⟩

theorem scripted_warn {code : Code} {message : String} : Scripted (warn code message) := by
  intro design
  refine ⟨[⟨code, message⟩], .ok (), design, ?granted, ?refused⟩
  case granted =>
    intro scopes filter enclosing granted
    rw [runIn_warn, enclosing, Program.answer_granted (granted _ List.mem_cons_self)]
  case refused =>
    intro scopes filter before rest denied enclosing split _ denies
    obtain ⟨rfl, rfl, rfl⟩ : before = [] ∧ denied = ⟨code, message⟩ ∧ rest = [] := by
      cases before with
      | nil => simpa [eq_comm] using split
      | cons first others => simp at split
    refine ⟨design, ?_⟩
    rw [runIn_warn, enclosing, Program.answer_denied denies]
    rfl

theorem append_split {first second before rest : List α} {item : α}
    (split : first ++ second = before ++ item :: rest) :
    (∃ played, before = first ++ played ∧ second = played ++ item :: rest) ∨
      ∃ left, first = before ++ item :: left := by
  rcases List.append_eq_append_iff.mp split with ⟨played, here, there⟩ | ⟨left, here, there⟩
  · exact Or.inl ⟨played, here, there⟩
  · cases left with
    | nil =>
        rw [List.append_nil] at here
        exact Or.inl ⟨[], by rw [here, List.append_nil], there.symm⟩
    | cons head left =>
        obtain ⟨rfl, _⟩ := List.cons.inj there
        exact Or.inr ⟨left, here⟩

/-- The second script goes on where the first one ends, unless that is a fault. -/
theorem Scripted.bind {step : Build α} {next : α → Build β} (first : Scripted step)
    (second : ∀ result, Scripted (next result)) : Scripted (step >>= next) := by
  intro design
  obtain ⟨emits, result, between, plays⟩ := first design
  cases result with
  | error fault =>
      refine ⟨emits, .error fault, between, ?granted, ?refused⟩
      case granted =>
        intro scopes filter enclosing granted
        rw [runIn_bind, plays.granted enclosing granted]
      case refused =>
        intro scopes filter before rest denied enclosing split granted denies
        obtain ⟨left, run⟩ := plays.refused enclosing split granted denies
        exact ⟨left, by rw [runIn_bind, run]⟩
  | ok middle =>
      obtain ⟨more, last, after, later⟩ := second middle between
      have inner {scopes : List Scope} {filter : Filter} (heard : List Program.Emit)
          (enclosing : Session.enclosing ⟨design, scopes⟩ = some filter) :
          Session.enclosing ⟨between, Scope.hear heard scopes⟩ = some filter := by
        rw [← enclosing]
        exact Session.enclosing_hearing ⟨design, scopes⟩ heard
      refine ⟨emits ++ more, last, after, ?granted, ?refused⟩
      case granted =>
        intro scopes filter enclosing granted
        have here : ∀ emit ∈ emits, ¬ filter.Denies emit.code :=
          fun emit listed => granted emit (List.mem_append_left _ listed)
        have there : ∀ emit ∈ more, ¬ filter.Denies emit.code :=
          fun emit listed => granted emit (List.mem_append_right _ listed)
        rw [runIn_bind, plays.granted enclosing here, Session.hearing_append]
        exact later.granted (inner emits enclosing) there
      case refused =>
        intro scopes filter before rest denied enclosing split granted denies
        rcases append_split split with ⟨played, rfl, others⟩ | ⟨left, own⟩
        · -- The first script is played to its end.
          have here : ∀ emit ∈ emits, ¬ filter.Denies emit.code :=
            fun emit listed => granted emit (List.mem_append_left _ listed)
          have there : ∀ emit ∈ played, ¬ filter.Denies emit.code :=
            fun emit listed => granted emit (List.mem_append_right _ listed)
          obtain ⟨final, run⟩ := later.refused (inner emits enclosing) others there denies
          refine ⟨final, ?_⟩
          rw [runIn_bind, plays.granted enclosing here, List.append_assoc, Session.hearing_append]
          exact run
        · obtain ⟨final, run⟩ := plays.refused enclosing own granted denies
          exact ⟨final, by rw [runIn_bind, run]⟩

theorem Scripted.ite {condition : Prop} [Decidable condition] {step other : Build α}
    (whether : Scripted step) (otherwise : Scripted other) :
    Scripted (if condition then step else other) := by
  by_cases holds : condition
  · rwa [if_pos holds]
  · rwa [if_neg holds]

theorem scripted_castShape {spec : ShapeSpec} : Scripted (castShape spec) :=
  scripted_design.bind fun _ => scripted_ofExcept

/-! ## Filters -/

theorem report_default (emits : List Program.Emit) :
    Program.report (Filter.level {}) emits =
      emits.map fun emit => Diagnostic.warning emit.code emit.message := by
  simp [Program.report, Program.Emit.reported, Diagnostic.warning, Filter.level_empty]

theorem report_granted {filter : Filter} {emits : List Program.Emit}
    (granted : ∀ emit ∈ emits, ¬ filter.Denies emit.code) :
    Program.report filter.level emits =
      (emits.map fun emit => Diagnostic.warning emit.code emit.message).filter
        fun warning => !filter.allows warning.code := by
  induction emits with
  | nil => rfl
  | cons emit rest ih =>
      have later := ih fun other listed => granted other (List.mem_cons_of_mem _ listed)
      have passes : filter.level emit.code ≠ .deny := granted emit List.mem_cons_self
      simp only [Program.report, List.map_cons, List.filter_cons] at later ⊢
      by_cases allowed : filter.level emit.code = .allow
      · simpa [Filter.allows, Diagnostic.warning, allowed] using later
      · simpa [Filter.allows, Diagnostic.warning, Program.Emit.reported, allowed, passes]
          using later

theorem report_denied {filter : Filter} {emits : List Program.Emit} {denied : Program.Emit}
    (denies : filter.Denies denied.code) :
    Program.report filter.level (emits ++ [denied]) =
      Program.report filter.level emits ++ [denied.reported filter.level] := by
  have level : filter.level denied.code = .deny := denies
  simp [Program.report, level]

theorem Scripted.impartial {step : Build α} (scripted : Scripted step) : Impartial step := by
  intro session filter
  obtain ⟨emits, result, after, plays⟩ := scripted session.design
  have captured {other : Filter} {outcome : Except Fault α} {left : Design}
      {heard : List Program.Emit}
      (run : runIn (session.openScope other) step =
        (outcome, Session.hearing ⟨left, (session.openScope other).scopes⟩ heard)) :
      runIn session (capture other step) = (.ok (outcome, Program.report other.level heard),
        { session with design := left }) := by
    rw [runIn_capture, run]
    rfl
  have opened (other : Filter) :
      Session.enclosing ⟨session.design, (session.openScope other).scopes⟩ = some other := rfl
  refine ⟨result, emits.map fun emit => Diagnostic.warning emit.code emit.message,
    { session with design := after }, ?all, ?granted, ?refused⟩
  case all =>
    rw [← report_default]
    exact captured (plays.granted (opened {}) fun _ _ => Filter.not_denies_empty _)
  case granted =>
    intro granted
    have passes : ∀ emit ∈ emits, ¬ filter.Denies emit.code := fun emit listed =>
      granted (Diagnostic.warning emit.code emit.message) (List.mem_map_of_mem listed)
    rw [← report_granted passes]
    exact captured (plays.granted (opened filter) passes)
  case refused =>
    intro before denied rest split granted denies
    obtain ⟨played, others, rfl, rfl, tail⟩ := List.map_eq_append_iff.mp split
    obtain ⟨last, unplayed, rfl, rfl, rfl⟩ := List.map_eq_cons_iff.mp tail
    have passes : ∀ emit ∈ played, ¬ filter.Denies emit.code := fun emit listed =>
      granted (Diagnostic.warning emit.code emit.message) (List.mem_map_of_mem listed)
    obtain ⟨left, run⟩ := plays.refused (opened filter) rfl passes denies
    refine ⟨{ session with design := left }, ?_⟩
    have escalated : (Diagnostic.warning last.code last.message).escalated =
        last.reported filter.level := by
      simp [Diagnostic.warning, Diagnostic.escalated, Severity.escalated, Program.Emit.reported,
        show filter.level last.code = .deny from denies]
    rw [escalated, ← report_granted passes, ← report_denied denies]
    exact captured run

end Build

end Gateware
