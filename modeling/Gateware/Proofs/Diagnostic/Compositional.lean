import Gateware.Format.Insert
import Gateware.Proofs.Diagnostic.Scopes

/-!
# Compositional families of steps

A family of building steps that has the simplest ones, and what is put together of its own, has
every construction of patterns, switches, printers and formats.  What is to be known of all of
them is shown of the simplest ones only.
-/

set_option autoImplicit false

namespace Gateware

namespace Build

/-- A family with the steps that end, read the design or raise a warning, and with one step after
another. -/
structure Compositional (family : {α : Type} → Build α → Prop) : Prop where
  ends {α : Type} (value : α) : family (pure value)
  fails {α : Type} (fault : Fault) : family (throw fault : Build α)
  reads : family design
  warns (code : Diagnostic.Code) (message : String) : family (warn code message)
  bind {α β : Type} {step : Build α} {next : α → Build β} (first : family step)
    (second : ∀ result, family (next result)) : family (step >>= next)

variable {family : {α : Type} → Build α → Prop} {α β : Type}

namespace Compositional

variable (closed : Compositional family)

include closed

theorem ofExcept (given : Except Fault α) : family (ofExcept given) := by
  cases given with
  | ok value => exact closed.ends value
  | error fault => exact closed.fails fault

theorem cast (operand : Operand) : family (cast operand) :=
  closed.bind closed.reads fun _ => closed.ofExcept _

theorem guarded {condition : Prop} [Decidable condition] {fault : Fault} {rest : PUnit → Build α}
    (checked : ∀ passed, family (rest passed)) :
    family (if condition then throw fault >>= rest else rest ⟨⟩) := by
  split
  · exact closed.bind (closed.fails fault) checked
  · exact checked ⟨⟩

theorem mapM {step : α → Build β} (given : List α) (each : ∀ item, family (step item)) :
    family (given.mapM step) := by
  induction given with
  | nil =>
      rw [List.mapM_nil]
      exact closed.ends []
  | cons first rest ih =>
      rw [List.mapM_cons]
      exact closed.bind (each first) fun _ => closed.bind ih fun _ => closed.ends _

theorem foldlM {step : β → α → Build β} (given : List α)
    (each : ∀ state item, family (step state item)) (start : β) :
    family (given.foldlM step start) := by
  induction given generalizing start with
  | nil =>
      rw [List.foldlM_nil]
      exact closed.ends start
  | cons first rest ih =>
      rw [List.foldlM_cons]
      exact closed.bind (each start first) ih

/-! ## Patterns and switches -/

theorem normalize (shape : Shape) (pattern : Pattern) : family (pattern.normalize shape) := by
  cases pattern with
  | bits text =>
      unfold Pattern.normalize
      exact closed.guarded fun _ => closed.guarded fun _ => closed.ends _
  | operand given =>
      unfold Pattern.normalize
      refine closed.bind closed.reads fun design => ?_
      -- The constant is found or refused, and then it is kept or warned of.
      have kept_or_warned {condition : Prop} [Decidable condition] (normal : Pattern.Normal)
          (message : String) : family (if condition then pure (some normal) else do
            Build.warn .unmatchablePattern message
            pure none) := by
        split
        · exact closed.ends _
        · exact closed.bind (closed.warns _ _) fun _ => closed.ends _
      dsimp only
      split
      · exact closed.bind (closed.ends _) fun _ => kept_or_warned _ _
      · exact closed.bind (closed.fails _) fun _ => kept_or_warned _ _

theorem normalizeAll (patterns : List Pattern) (shape : Shape) :
    family (Pattern.normalizeAll patterns shape) :=
  closed.bind (closed.mapM patterns (closed.normalize shape)) fun _ => closed.ends _

theorem keys (patterns : List Pattern) (shape : Shape) : family (Pattern.keys patterns shape) :=
  closed.bind (closed.normalizeAll patterns shape) fun _ => closed.ends _

theorem caseKeys (patterns : Option (List Pattern)) (shape : Shape) :
    family (Pattern.caseKeys patterns shape) := by
  cases patterns with
  | none => exact closed.ends none
  | some patterns => exact closed.bind (closed.keys patterns shape) fun _ => closed.ends _

theorem switchOn (test : Value) (cases : List (Option (List Pattern) × Value)) :
    family (test.switchOn cases) := by
  refine closed.bind (closed.mapM cases fun case => ?_) fun _ => closed.ends _
  exact closed.bind (closed.caseKeys case.1 test.shape) fun _ => closed.ends _

/-! ## Formats and printers -/

theorem compilePiece {Object : Type} {insertion : Format.Insertion Object}
    (inserted : ∀ object specifier, family (insertion.chunks object specifier))
    (arguments : Format.Arguments Object) (binding : Format.Binding) (piece : Format.Piece) :
    family (Format.compilePiece insertion arguments binding piece) := by
  cases piece with
  | text content => exact closed.ends _
  | field name conversion specifier =>
      unfold Format.compilePiece
      refine closed.bind (closed.ofExcept _) fun taken =>
        closed.bind (closed.ofExcept _) fun argument =>
          closed.bind (closed.ofExcept _) fun filled => ?_
      cases argument with
      | value tree => exact closed.bind (closed.ofExcept _) fun _ => closed.ends _
      | object object => exact closed.bind (inserted object _) fun _ => closed.ends _
      | int number => exact closed.bind (closed.ofExcept _) fun _ => closed.ends _
      | text content => exact closed.bind (closed.ofExcept _) fun _ => closed.ends _

theorem compileWith {Object : Type} {insertion : Format.Insertion Object}
    (inserted : ∀ object specifier, family (insertion.chunks object specifier))
    (arguments : Format.Arguments Object) (template : String) :
    family (Format.compileWith insertion arguments template) := by
  refine closed.bind (closed.ofExcept _) fun pieces => closed.bind ?_ fun _ =>
    closed.bind (closed.ofExcept _) fun _ => closed.ends _
  exact closed.foldlM pieces (fun _ piece =>
    closed.bind (closed.compilePiece inserted arguments _ piece) fun _ => closed.ends _) _

theorem ofValues (template : String) (values : List Value) :
    family (Format.ofValues template values) :=
  closed.compileWith (fun object => nomatch object) _ template

theorem labelFormat (value : Value) (variants : List (Int × String)) :
    family (Printer.labelFormat value variants) :=
  closed.bind (closed.switchOn value _) fun _ => closed.ofValues _ _

mutual

theorem printer : (printer : Printer) → family printer.compile
  | .format _ => by
      rw [Printer.compile]
      exact closed.ends _
  | .labels value variants _ => by
      rw [Printer.compile]
      exact closed.labelFormat value variants
  | .fields _ named => by
      rw [Printer.compile]
      exact closed.bind (fieldChunks "" named) fun _ => closed.ends _
  | .elements _ printers => by
      rw [Printer.compile]
      exact closed.bind (elementChunks "" printers) fun _ => closed.ends _

theorem fieldChunks (separator : String) :
    (named : List (String × Printer)) → family (Printer.fieldChunks separator named)
  | [] => by
      rw [Printer.fieldChunks]
      exact closed.ends _
  | (_, first) :: rest => by
      rw [Printer.fieldChunks]
      exact closed.bind (printer first) fun _ =>
        closed.bind (fieldChunks ", " rest) fun _ => closed.ends _

theorem elementChunks (separator : String) :
    (printers : List Printer) → family (Printer.elementChunks separator printers)
  | [] => by
      rw [Printer.elementChunks]
      exact closed.ends _
  | first :: rest => by
      rw [Printer.elementChunks]
      exact closed.bind (printer first) fun _ =>
        closed.bind (elementChunks ", " rest) fun _ => closed.ends _

end

theorem ofCustomShape (shape : Custom) (operand : Operand) (specifier : String) :
    family (Format.ofCustomShape shape operand specifier) := by
  refine closed.bind closed.reads fun design => ?_
  split
  · exact closed.fails _
  · exact closed.bind (closed.ofExcept _) fun _ =>
      closed.bind (closed.cast operand) fun _ => closed.ofValues _ _

theorem insertChunks (object : Insert) (specifier : String) :
    family (Format.insertChunks object specifier) := by
  cases object with
  | printer inserted =>
      unfold Format.insertChunks
      exact closed.guarded fun _ => closed.bind (closed.printer inserted) fun _ => closed.ends _
  | operand inserted =>
      unfold Format.insertChunks
      refine closed.bind closed.reads fun design => closed.bind (closed.ofExcept _) fun spec => ?_
      split
      · exact closed.bind (closed.ofCustomShape _ inserted specifier) fun _ => closed.ends _
      · exact closed.bind (closed.cast inserted) fun _ =>
          closed.bind (closed.ofExcept _) fun _ => closed.ends _

theorem compile (template : String) (arguments : Format.Arguments Insert) :
    family (Format.compile template arguments) :=
  closed.bind closed.reads fun _ => closed.compileWith closed.insertChunks arguments template

end Compositional

/-! ## Steps that only remark -/

/-- A step that changes a session by its warnings only, and goes the same way whatever was heard
before. -/
def Remarking (step : Build α) : Prop :=
  ∀ session : Session, ∃ result emits, ∀ earlier,
    runIn (session.hearing earlier) step = (result, (session.hearing earlier).hearing emits)

theorem compositional_remarking : Compositional Remarking where
  ends value session := ⟨.ok value, [], fun _ => by rw [Session.hearing_nil]; rfl⟩
  fails fault session := ⟨.error fault, [], fun _ => by rw [Session.hearing_nil]; rfl⟩
  reads session := ⟨.ok session.design, [], fun _ => by rw [Session.hearing_nil]; rfl⟩
  warns code message session :=
    ⟨Program.answer session.enclosing ⟨code, message⟩, [⟨code, message⟩], fun earlier => by
      rw [runIn_warn, Session.enclosing_hearing]⟩
  bind first second session := by
    obtain ⟨outcome, emits, run⟩ := first session
    cases outcome with
    | error fault => exact ⟨.error fault, emits, fun earlier => runIn_bind_of_fault (run earlier)⟩
    | ok middle =>
        obtain ⟨result, more, later⟩ := second middle session
        refine ⟨result, emits ++ more, fun earlier => ?_⟩
        rw [runIn_bind, run earlier, Session.hearing_append, ← Session.hearing_append]
        exact later (earlier ++ emits)

variable {session after : Session} {step : Build α} {result : α}

theorem Remarking.gives_hearing (remarking : Remarking step) (earlier : List Program.Emit)
    (gives : Gives step session result after) :
    ∃ emits, after = session.hearing emits ∧
      Gives step (session.hearing earlier) result ((session.hearing earlier).hearing emits) := by
  obtain ⟨outcome, emits, run⟩ := remarking session
  have here := run []
  rw [Session.hearing_nil, gives] at here
  cases here
  exact ⟨emits, rfl, run earlier⟩

theorem Remarking.gives_of_hearing (remarking : Remarking step) {earlier : List Program.Emit}
    (gives : Gives step (session.hearing earlier) result after) :
    ∃ left, Gives step session result left := by
  obtain ⟨outcome, emits, run⟩ := remarking session
  have there := run earlier
  have here := run []
  rw [gives] at there
  rw [Session.hearing_nil] at here
  cases there
  exact ⟨_, here⟩

theorem Remarking.gives_mapM {step : α → Build β} (remarking : ∀ item, Remarking (step item))
    {items : List α} {results : List β} {after : Session}
    (gives : Gives (items.mapM step) session results after) :
    List.Forall₂ (fun item result => ∃ left, Gives (step item) session result left) items
      results := by
  induction items generalizing session results after with
  | nil =>
      rw [List.mapM_nil] at gives
      cases (gives_pure.mp gives).1
      exact .nil
  | cons item items ih =>
      rw [List.mapM_cons] at gives
      obtain ⟨result, _, itemRun, rest⟩ := gives_bind.mp gives
      obtain ⟨others, _, othersRun, last⟩ := gives_bind.mp rest
      cases (gives_pure.mp last).1
      obtain ⟨emits, rfl, _⟩ := (remarking item).gives_hearing [] itemRun
      refine .cons ⟨_, itemRun⟩ ((ih othersRun).imp fun other _ ⟨_, run⟩ => ?_)
      exact (remarking other).gives_of_hearing run

theorem Remarking.exists_gives_mapM_iff {step : α → Build β}
    (remarking : ∀ item, Remarking (step item)) (items : List α) (session : Session) :
    (∃ results after, Gives (items.mapM step) session results after) ↔
      ∀ item ∈ items, ∃ result after, Gives (step item) session result after := by
  constructor
  · rintro ⟨results, after, gives⟩ item listed
    obtain ⟨result, _, after, run⟩ :=
      exists_related (Remarking.gives_mapM remarking gives).flip listed
    exact ⟨result, after, run⟩
  · intro each
    induction items generalizing session with
    | nil => exact ⟨[], session, rfl⟩
    | cons item items ih =>
        obtain ⟨⟨result, _, itemRun⟩, later⟩ := List.forall_mem_cons.mp each
        obtain ⟨emits, rfl, _⟩ := (remarking item).gives_hearing [] itemRun
        obtain ⟨others, after, othersRun⟩ := ih (session.hearing emits) fun other listed => by
          obtain ⟨otherResult, _, otherRun⟩ := later other listed
          obtain ⟨_, _, run⟩ := (remarking other).gives_hearing emits otherRun
          exact ⟨otherResult, _, run⟩
        rw [List.mapM_cons]
        exact ⟨_, _, gives_bind.mpr ⟨_, _, itemRun, gives_bind.mpr ⟨_, _, othersRun,
          gives_pure.mpr ⟨rfl, rfl⟩⟩⟩⟩

end Build

end Gateware
