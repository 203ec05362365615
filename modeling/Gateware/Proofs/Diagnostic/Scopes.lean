import Gateware.Proofs.Diagnostic.Filter
import Gateware.Proofs.Session

/-!
# Scopes

What a scope hands out is what was raised in its own body, and the stack of scopes is what it was
before.  A program raises warnings and opens scopes, and goes on as their outcomes tell it to.
The warnings that it raises itself are told without a stack: only the filter of the innermost
scope around it matters.
-/

set_option autoImplicit false

namespace Gateware

open Diagnostic

variable {Result : Type}

/-- A program of warnings and scopes. -/
inductive Program (Result : Type) where
  | done (outcome : Except Fault Result)
  | emit (code : Code) (message : String) (next : Except Fault Unit → Program Result)
  | scope (filter : Filter) (body : Program Result)
      (next : Except Fault Result → List Diagnostic → Program Result)

namespace Program

def run : Program Result → Build Result
  | .done outcome => Build.ofExcept outcome
  | .emit code message next => do
      let outcome ← observing (Build.warn code message)
      (next outcome).run
  | .scope filter body next => do
      let (outcome, recorded) ← Build.capture filter body.run
      (next outcome recorded).run

structure Emit where
  code : Code
  message : String

def Emit.reported (level : Code → Level) (emit : Emit) : Diagnostic where
  severity := if level emit.code = .deny then .error else .warning
  code := emit.code
  message := emit.message

/-- What is reported of warnings: all that are not allowed, in order. -/
def report (level : Code → Level) (emits : List Emit) : List Diagnostic :=
  (emits.filter fun emit => level emit.code ≠ .allow).map (Emit.reported level)

/-- How raising a warning ends in the scope of a filter, or outside every scope. -/
def answer (enclosing : Option Filter) (emit : Emit) : Except Fault Unit :=
  match enclosing with
  | none => .ok ()
  | some filter =>
      if filter.level emit.code = .deny then .error (.denied (emit.reported filter.level))
      else .ok ()

theorem answer_denied {filter : Filter} {emit : Emit} (denied : filter.level emit.code = .deny) :
    answer (some filter) emit = .error (.denied (emit.reported filter.level)) :=
  if_pos denied

theorem answer_granted {filter : Filter} {emit : Emit} (granted : filter.level emit.code ≠ .deny) :
    answer (some filter) emit = .ok () :=
  if_neg granted

/-- How a program ends, and the warnings that it raises itself and not in a scope that it opens,
if it runs in the scope of the given filter or outside every scope. -/
def trace (enclosing : Option Filter) : Program Result → Except Fault Result × List Emit
  | .done outcome => (outcome, [])
  | .emit code message next =>
      let rest := trace enclosing (next (answer enclosing ⟨code, message⟩))
      (rest.1, ⟨code, message⟩ :: rest.2)
  | .scope filter body next =>
      let inner := trace (some filter) body
      trace enclosing (next inner.1 (report filter.level inner.2))

end Program

/-- A stack of scopes after warnings: only the innermost scope, if there is one, has heard of
them. -/
def Scope.hear (emits : List Program.Emit) : List Scope → List Scope
  | [] => []
  | scope :: outer =>
      { scope with recorded := scope.recorded ++ Program.report scope.filter.level emits } :: outer

namespace Session

def enclosing (session : Session) : Option Filter := session.scopes.head?.map Scope.filter

def hearing (session : Session) (emits : List Program.Emit) : Session :=
  { session with scopes := Scope.hear emits session.scopes }

theorem hearing_nil (session : Session) : session.hearing [] = session := by
  obtain ⟨design, scopes⟩ := session
  cases scopes <;> simp [hearing, Scope.hear, Program.report]

theorem hearing_append (session : Session) (first second : List Program.Emit) :
    session.hearing (first ++ second) = (session.hearing first).hearing second := by
  obtain ⟨design, scopes⟩ := session
  cases scopes <;> simp [hearing, Scope.hear, Program.report]

theorem enclosing_hearing (session : Session) (emits : List Program.Emit) :
    (session.hearing emits).enclosing = session.enclosing := by
  obtain ⟨design, scopes⟩ := session
  cases scopes <;> rfl

theorem record_warning (session : Session) (code : Code) (message : String) :
    session.record (Diagnostic.warning code message) =
      (match session.enclosing with
        | none => none
        | some filter =>
            if filter.level code = .deny then
              some (Program.Emit.reported filter.level ⟨code, message⟩)
            else none,
        session.hearing [⟨code, message⟩]) := by
  obtain ⟨design, scopes⟩ := session
  cases scopes with
  | nil => rfl
  | cons scope outer =>
      cases level : scope.filter.level code <;>
        simp [record, enclosing, hearing, Scope.hear, Diagnostic.filtered, Diagnostic.warning, Severity.under,
          Severity.escalated, Severity.isError, Program.report, Program.Emit.reported, level]

end Session

namespace Build

variable {α : Type}

theorem runIn_observing {session : Session} {step : Build α} :
    runIn session (observing step) =
      (.ok (runIn session step).1, (runIn session step).2) := by
  simp only [runIn, observing, tryCatch, tryCatchThe, MonadExceptOf.tryCatch, ExceptT.tryCatch,
    bind, ExceptT.bind, ExceptT.run, ExceptT.mk, StateT.run, StateT.bind]
  cases step session with
  | mk outcome between => cases outcome <;> rfl

theorem runIn_get {session : Session} : runIn session (get : Build Session) = (.ok session, session) :=
  rfl

theorem runIn_set {session after : Session} :
    runIn session (set after : Build PUnit) = (.ok ⟨⟩, after) :=
  rfl

theorem runIn_warn_record (session : Session) (code : Code) (message : String) :
    runIn session (warn code message) =
      ((session.record (Diagnostic.warning code message)).1.elim (.ok ())
          fun denied => .error (.denied denied),
        (session.record (Diagnostic.warning code message)).2) := by
  unfold warn
  rw [runIn_bind, runIn_get]
  dsimp only
  cases session.record (Diagnostic.warning code message) with
  | mk denied after =>
      dsimp only
      rw [runIn_bind, runIn_set]
      cases denied <;> rfl

theorem runIn_warn (session : Session) (code : Code) (message : String) :
    runIn session (warn code message) =
      (Program.answer session.enclosing ⟨code, message⟩, session.hearing [⟨code, message⟩]) := by
  rw [runIn_warn_record, Session.record_warning]
  cases session.enclosing with
  | none => rfl
  | some filter =>
      by_cases denied : filter.level code = .deny
      · simp [Program.answer, denied]
      · simp [Program.answer, denied]

theorem runIn_capture (session : Session) (filter : Filter) (step : Build α) :
    runIn session (capture filter step) =
      (.ok ((runIn (session.openScope filter) step).1,
          (runIn (session.openScope filter) step).2.closeScope.1),
        (runIn (session.openScope filter) step).2.closeScope.2) :=
  rfl

end Build

namespace Session

theorem closeScope_hearing (session : Session) (filter : Filter) (emits : List Program.Emit) :
    ((session.openScope filter).hearing emits).closeScope =
      (Program.report filter.level emits, session) := by
  obtain ⟨design, scopes⟩ := session
  rfl

end Session

namespace Program

open Build

/-- Whatever stack of scopes a program runs in, it ends as its trace tells, and only the innermost
scope hears of the warnings in it. -/
theorem runIn_run (program : Program Result) (session : Session) :
    runIn session program.run =
      ((program.trace session.enclosing).1, session.hearing (program.trace session.enclosing).2) := by
  induction program generalizing session with
  | done outcome =>
      rw [run, runIn_ofExcept, trace, Session.hearing_nil]
  | emit code message next ih =>
      rw [run, runIn_bind, runIn_observing, runIn_warn]
      dsimp only
      rw [ih, Session.enclosing_hearing, ← Session.hearing_append]
      rfl
  | scope filter body next bodyIh nextIh =>
      have opened : (session.openScope filter).enclosing = some filter := rfl
      rw [run, runIn_bind, runIn_capture, bodyIh, opened, Session.closeScope_hearing]
      exact nextIh _ _ session

theorem runIn_capture_run (filter : Filter) (body : Program Result) (session : Session) :
    runIn session (capture filter body.run) =
      (.ok ((body.trace (some filter)).1, report filter.level (body.trace (some filter)).2),
        session) := by
  have opened : (session.openScope filter).enclosing = some filter := rfl
  rw [runIn_capture, runIn_run, opened, Session.closeScope_hearing]

theorem denied_iff (session : Session) (code : Code) (message : String) :
    (∃ denied, (runIn session (warn code message)).1 = .error (.denied denied)) ↔
      ∃ scope outer, session.scopes = scope :: outer ∧ scope.filter.level code = .deny := by
  obtain ⟨design, scopes⟩ := session
  rw [runIn_warn]
  cases scopes with
  | nil => simp [Session.enclosing, answer]
  | cons scope outer =>
      by_cases denied : scope.filter.level code = .deny
      · simp [Session.enclosing, answer, denied]
      · simp [Session.enclosing, answer, denied]

/-- Nothing is lost, told twice or told to the wrong scope.  A scope hands out, in order, the
warnings that its body raises itself, without those that its filter allows, as errors if they are
denied; whatever becomes of its body, the stack of scopes is what it was.  A program in any stack
adds to the innermost scope only.  A warning is refused exactly if the innermost scope denies it.
The level of a code is the last one set for it, or the default. -/
theorem scopes_route_warnings :
    (∀ (filter : Filter) (body : Program Result) (session : Session),
      runIn session (capture filter body.run) =
        (.ok ((body.trace (some filter)).1, report filter.level (body.trace (some filter)).2),
          session)) ∧
    (∀ (program : Program Result) (session : Session),
      runIn session program.run =
        ((program.trace session.enclosing).1,
          session.hearing (program.trace session.enclosing).2)) ∧
    (∀ (session : Session) (code : Code) (message : String),
      (∃ denied, (runIn session (warn code message)).1 = .error (.denied denied)) ↔
        ∃ scope outer, session.scopes = scope :: outer ∧ scope.filter.level code = .deny) ∧
    (∀ (default : Level) (settings : List (Code × Level)) (code : Code),
      (Filter.ofSettings default settings).level code =
        Filter.lastLevel default settings code) :=
  ⟨runIn_capture_run, runIn_run, denied_iff, Filter.level_ofSettings⟩

end Program

end Gateware
