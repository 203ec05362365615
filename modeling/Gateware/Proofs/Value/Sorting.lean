import Gateware.Proofs.Diagnostic.Script
import Gateware.Proofs.Value.Matching

/-!
# Sorted patterns

Which patterns a shape keeps and under which keys, which it drops with a remark, and at which
one of them the pass over a list ends.  What becomes of a pattern is told by its text or by the
constant that it stands for; the pass is then shown to do just that, one pattern after the other.
-/

set_option autoImplicit false

namespace Gateware

open Build

/-- The innermost scope turns a warning of the code into an error. -/
def Session.Denies (session : Session) (code : Diagnostic.Code) : Prop :=
  ∃ filter, session.enclosing = some filter ∧ filter.Denies code

namespace Pattern

/-! ## What becomes of a pattern -/

def IsSymbol (symbol : Char) : Prop := symbol = '0' ∨ symbol = '1' ∨ symbol = '-'

instance : DecidablePred IsSymbol := fun symbol =>
  inferInstanceAs (Decidable (symbol = '0' ∨ symbol = '1' ∨ symbol = '-'))

/-- A pattern that some number of the shape may match, and its normal form. -/
inductive Kept (design : Design) (shape : Shape) : Pattern → Normal → Prop where
  | bits {text : String} (symbols : ∀ symbol ∈ bitsOf text, IsSymbol symbol)
      (width : (bitsOf text).length = shape.width) :
      Kept design shape (.bits text) (.bits (bitsOf text))
  | const {given : Operand} {constant : Const} (found : design.castConst given = .ok constant)
      (inside : constant.value ∈ shape) :
      Kept design shape (.operand given)
        (.const constant (Binary.digits constant.value shape.width))

def unmatchable (shape : Shape) (given : Operand) (constant : Const) : Program.Emit where
  code := .unmatchablePattern
  message := s!"Pattern '{given.render}' ({constant.width}'"
    ++ s!"{Binary.text constant.value constant.width}) is not representable in match "
    ++ s!"value shape ({shape.text}); comparison will never be true"

/-- A constant that lies outside the shape, and the remark on it. -/
inductive Dropped (design : Design) (shape : Shape) : Pattern → Program.Emit → Prop where
  | const {given : Operand} {constant : Const} (found : design.castConst given = .ok constant)
      (outside : constant.value ∉ shape) :
      Dropped design shape (.operand given) (unmatchable shape given constant)

/-- A text of other characters or of another length, or an operand of a kind that is no
constant, and the syntax error that it is. -/
inductive Malformed (design : Design) (shape : Shape) : Pattern → Fault → Prop where
  | alphabet {text : String} {symbol : Char} (listed : symbol ∈ bitsOf text)
      (foreign : ¬ IsSymbol symbol) : Malformed design shape (.bits text) (.patternAlphabet text)
  | width {text : String} (symbols : ∀ symbol ∈ bitsOf text, IsSymbol symbol)
      (other : (bitsOf text).length ≠ shape.width) :
      Malformed design shape (.bits text) (.patternWidth text shape.width)
  | kind {given : Operand} {fault : Fault} (found : design.castConst given = .error fault)
      (type : fault.kind = .type) :
      Malformed design shape (.operand given) (.patternKind given.render)

/-- An operand whose cast fails for another reason than its kind. -/
inductive Broken (design : Design) : Pattern → Fault → Prop where
  | cast {given : Operand} {fault : Fault} (found : design.castConst given = .error fault)
      (other : fault.kind ≠ .type) : Broken design (.operand given) fault

/-- Patterns sorted into those that a shape keeps, in normal form, and the remarks on those that
it drops, both in the order of the patterns. -/
inductive Sorted (design : Design) (shape : Shape) :
    List Pattern → List Normal → List Program.Emit → Prop where
  | nil : Sorted design shape [] [] []
  | kept {pattern : Pattern} {normal : Normal} {patterns : List Pattern} {normals : List Normal}
      {remarks : List Program.Emit} (here : Kept design shape pattern normal)
      (rest : Sorted design shape patterns normals remarks) :
      Sorted design shape (pattern :: patterns) (normal :: normals) remarks
  | dropped {pattern : Pattern} {remark : Program.Emit} {patterns : List Pattern}
      {normals : List Normal} {remarks : List Program.Emit}
      (here : Dropped design shape pattern remark)
      (rest : Sorted design shape patterns normals remarks) :
      Sorted design shape (pattern :: patterns) normals (remark :: remarks)

/-- Patterns that a session sorts without denying a remark on one of them. -/
structure Passes (session : Session) (shape : Shape) (patterns : List Pattern)
    (normals : List Normal) (remarks : List Program.Emit) : Prop where
  sorted : Sorted session.design shape patterns normals remarks
  granted : session.Denies .unmatchablePattern → remarks = []

/-- How a pattern ends the pass over a list, and what is said of it before. -/
inductive Ends (session : Session) (shape : Shape) : Pattern → Fault → List Program.Emit → Prop
    where
  | malformed {pattern : Pattern} {fault : Fault}
      (wrong : Malformed session.design shape pattern fault) : Ends session shape pattern fault []
  | broken {pattern : Pattern} {fault : Fault} (wrong : Broken session.design pattern fault) :
      Ends session shape pattern fault []
  | denied {pattern : Pattern} {remark : Program.Emit} {filter : Diagnostic.Filter}
      (dropped : Dropped session.design shape pattern remark)
      (enclosing : session.enclosing = some filter)
      (denies : filter.Denies .unmatchablePattern) :
      Ends session shape pattern (.denied (remark.reported filter.level)) [remark]

variable {session : Session} {design : Design} {shape : Shape} {pattern : Pattern}
  {normal : Normal} {remark : Program.Emit} {fault : Fault} {patterns : List Pattern}
  {normals : List Normal} {remarks : List Program.Emit}

theorem Dropped.code_eq (dropped : Dropped design shape pattern remark) :
    remark.code = .unmatchablePattern := by
  cases dropped
  rfl

theorem Malformed.kind_eq (malformed : Malformed design shape pattern fault) :
    fault.kind = .form := by
  cases malformed <;> rfl

/-! ## One pattern -/

theorem foreign_iff (text : String) :
    ((bitsOf text).any fun c => c != '0' && c != '1' && c != '-') = true ↔
      ¬ ∀ symbol ∈ bitsOf text, IsSymbol symbol := by
  simp [IsSymbol, and_assoc]

theorem normalize_bits (text : String) :
    normalize shape (.bits text) =
      if ((bitsOf text).any fun c => c != '0' && c != '1' && c != '-') = true then
        throw (.patternAlphabet text)
      else if ((bitsOf text).length != shape.width) = true then
        throw (.patternWidth text shape.width)
      else pure (some (.bits (bitsOf text))) := by
  unfold normalize
  dsimp only
  split
  · rfl
  · split <;> rfl

theorem runIn_normalize_const {given : Operand} {constant : Const} (valid : shape.Valid)
    (found : session.design.castConst given = .ok constant) :
    runIn session (normalize shape (.operand given)) =
      if constant.value ∈ shape then
        (.ok (some (.const constant (Binary.digits constant.value shape.width))), session)
      else ((Program.answer session.enclosing (unmatchable shape given constant)).map fun _ => none,
        session.hearing [unmatchable shape given constant]) := by
  unfold normalize
  rw [runIn_bind, runIn_design]
  simp only [found]
  by_cases inside : constant.value ∈ shape
  · have fitted : (Const.fit constant.value shape).value = constant.value :=
      (Shape.fit_eq_self_iff valid).mpr inside
    rw [if_pos inside]
    simp only [pure_bind, fitted, if_true]
    rfl
  · have fitted : ¬ (Const.fit constant.value shape).value = constant.value :=
      fun same => inside ((Shape.fit_eq_self_iff valid).mp same)
    rw [if_neg inside]
    simp only [pure_bind, if_neg fitted]
    rw [runIn_bind, runIn_warn]
    unfold unmatchable
    cases Program.answer session.enclosing _ <;> rfl

theorem runIn_normalize_fault {given : Operand}
    (found : session.design.castConst given = .error fault) :
    runIn session (normalize shape (.operand given)) =
      (.error (if fault.kind = .type then .patternKind given.render else fault), session) := by
  unfold normalize
  rw [runIn_bind, runIn_design]
  simp only [found]
  rfl

theorem Kept.runIn_normalize (valid : shape.Valid)
    (kept : Kept session.design shape pattern normal) :
    runIn session (normalize shape pattern) = (.ok (some normal), session) := by
  cases kept with
  | bits symbols width =>
      rw [normalize_bits, if_neg fun foreign => (foreign_iff _).mp foreign symbols,
        if_neg (by simpa using width)]
      rfl
  | const found inside => rw [runIn_normalize_const valid found, if_pos inside]

theorem Dropped.runIn_normalize (valid : shape.Valid)
    (dropped : Dropped session.design shape pattern remark) :
    runIn session (normalize shape pattern) =
      ((Program.answer session.enclosing remark).map fun _ => none, session.hearing [remark]) := by
  cases dropped with
  | const found outside => rw [runIn_normalize_const valid found, if_neg outside]

theorem Malformed.runIn_normalize (malformed : Malformed session.design shape pattern fault) :
    runIn session (normalize shape pattern) = (.error fault, session) := by
  cases malformed with
  | alphabet listed foreign =>
      rw [normalize_bits, if_pos ((foreign_iff _).mpr fun symbols => foreign (symbols _ listed))]
      rfl
  | width symbols other =>
      rw [normalize_bits, if_neg fun foreign => (foreign_iff _).mp foreign symbols,
        if_pos (by simpa using other)]
      rfl
  | kind found type => rw [runIn_normalize_fault found, if_pos type]

theorem Broken.runIn_normalize (broken : Broken session.design pattern fault) :
    runIn session (normalize shape pattern) = (.error fault, session) := by
  cases broken with
  | cast found other => rw [runIn_normalize_fault found, if_neg other]

theorem answer_of_not_denies {emit : Program.Emit} (granted : ¬ session.Denies emit.code) :
    Program.answer session.enclosing emit = .ok () := by
  cases enclosing : session.enclosing with
  | none => rfl
  | some filter =>
      apply Program.answer_granted
      intro denies
      exact granted ⟨filter, enclosing, denies⟩

theorem Ends.runIn_normalize (valid : shape.Valid)
    (ends : Ends session shape pattern fault remarks) :
    runIn session (normalize shape pattern) = (.error fault, session.hearing remarks) := by
  cases ends with
  | malformed wrong => rw [wrong.runIn_normalize, Session.hearing_nil]
  | broken wrong => rw [wrong.runIn_normalize, Session.hearing_nil]
  | denied dropped enclosing denies =>
      rw [← dropped.code_eq] at denies
      rw [dropped.runIn_normalize valid, enclosing, Program.answer_denied denies]
      rfl

theorem sorts (design : Design) (shape : Shape) (pattern : Pattern) :
    (∃ normal, Kept design shape pattern normal) ∨ (∃ remark, Dropped design shape pattern remark) ∨
      (∃ fault, Malformed design shape pattern fault) ∨ ∃ fault, Broken design pattern fault := by
  cases pattern with
  | bits text =>
      by_cases symbols : ∀ symbol ∈ bitsOf text, IsSymbol symbol
      · by_cases width : (bitsOf text).length = shape.width
        · exact Or.inl ⟨_, .bits symbols width⟩
        · exact Or.inr (Or.inr (Or.inl ⟨_, .width symbols width⟩))
      · obtain ⟨symbol, listed, other⟩ := not_forall₂.mp symbols
        exact Or.inr (Or.inr (Or.inl ⟨_, .alphabet listed other⟩))
  | operand given =>
      cases found : design.castConst given with
      | ok constant =>
          by_cases inside : constant.value ∈ shape
          · exact Or.inl ⟨_, .const found inside⟩
          · exact Or.inr (Or.inl ⟨_, .const found inside⟩)
      | error fault =>
          by_cases type : fault.kind = .type
          · exact Or.inr (Or.inr (Or.inl ⟨_, .kind found type⟩))
          · exact Or.inr (Or.inr (Or.inr ⟨_, .cast found type⟩))

/-! ## Lists of patterns -/

theorem normalizeAll_cons (pattern : Pattern) (patterns : List Pattern) :
    normalizeAll (pattern :: patterns) shape = (do
      let first ← normalize shape pattern
      let others ← normalizeAll patterns shape
      pure (first.toList ++ others)) := by
  simp only [normalizeAll, List.mapM_cons, bind_assoc, pure_bind]
  congr 1
  funext first
  congr 1
  funext others
  cases first <;> rfl

theorem denies_hearing {code : Diagnostic.Code} :
    (session.hearing remarks).Denies code ↔ session.Denies code := by
  rw [Session.Denies, Session.enclosing_hearing]
  rfl

theorem Ends.hearing (ends : Ends session shape pattern fault remarks)
    (earlier : List Program.Emit) : Ends (session.hearing earlier) shape pattern fault remarks := by
  cases ends with
  | malformed wrong => exact .malformed wrong
  | broken wrong => exact .broken wrong
  | denied dropped enclosing denies =>
      exact .denied dropped (Session.enclosing_hearing session earlier ▸ enclosing) denies

theorem Passes.runIn_append (valid : shape.Valid)
    (passes : Passes session shape patterns normals remarks) (rest : List Pattern) :
    runIn session (normalizeAll (patterns ++ rest) shape) =
      runIn (session.hearing remarks)
        (normalizeAll rest shape >>= fun others => pure (normals ++ others)) := by
  obtain ⟨sorted, granted⟩ := passes
  generalize designed : session.design = design at sorted
  induction sorted generalizing session with
  | nil =>
      rw [Session.hearing_nil]
      exact (congrArg (runIn session) (bind_pure _)).symm
  | kept here _ ih =>
      subst designed
      rw [List.cons_append, normalizeAll_cons, runIn_bind, here.runIn_normalize valid]
      dsimp only
      rw [runIn_bind, ih granted rfl, runIn_bind, runIn_bind]
      cases runIn _ (normalizeAll rest shape) with
      | mk outcome between => cases outcome <;> rfl
  | @dropped pattern remark _ _ remarks here _ ih =>
      subst designed
      have silent : ¬ session.Denies .unmatchablePattern :=
        fun denies => List.cons_ne_nil _ _ (granted denies)
      have later : (session.hearing [remark]).Denies .unmatchablePattern → remarks = [] :=
        fun denies => absurd (denies_hearing.mp denies) silent
      rw [← here.code_eq] at silent
      rw [List.cons_append, normalizeAll_cons, runIn_bind, here.runIn_normalize valid,
        answer_of_not_denies silent]
      dsimp only [Except.map]
      rw [runIn_bind, ih later rfl, ← Session.hearing_append, List.singleton_append, runIn_bind]
      cases runIn _ (normalizeAll rest shape) with
      | mk outcome between => cases outcome <;> rfl

theorem passes_or_ends (session : Session) (shape : Shape) (patterns : List Pattern) :
    (∃ normals remarks, Passes session shape patterns normals remarks) ∨
      ∃ before pattern rest normals remarks fault last, patterns = before ++ pattern :: rest ∧
        Passes session shape before normals remarks ∧ Ends session shape pattern fault last := by
  induction patterns with
  | nil => exact Or.inl ⟨[], [], .nil, fun _ => rfl⟩
  | cons pattern patterns ih =>
      rcases sorts session.design shape pattern with
        ⟨normal, kept⟩ | ⟨remark, dropped⟩ | ⟨fault, wrong⟩ | ⟨fault, wrong⟩
      · rcases ih with ⟨normals, remarks, passes⟩ |
          ⟨before, next, rest, normals, remarks, fault, last, rfl, passes, ends⟩
        · exact Or.inl ⟨_, _, .kept kept passes.sorted, passes.granted⟩
        · exact Or.inr ⟨pattern :: before, next, rest, _, _, fault, last, rfl,
            ⟨.kept kept passes.sorted, passes.granted⟩, ends⟩
      · by_cases denies : session.Denies .unmatchablePattern
        · obtain ⟨filter, enclosing, denied⟩ := denies
          exact Or.inr ⟨[], pattern, patterns, [], [], _, _, rfl, ⟨.nil, fun _ => rfl⟩,
            .denied dropped enclosing denied⟩
        · rcases ih with ⟨normals, remarks, passes⟩ |
            ⟨before, next, rest, normals, remarks, fault, last, rfl, passes, ends⟩
          · exact Or.inl ⟨_, _, .dropped dropped passes.sorted, fun holds => absurd holds denies⟩
          · exact Or.inr ⟨pattern :: before, next, rest, _, _, fault, last, rfl,
              ⟨.dropped dropped passes.sorted, fun holds => absurd holds denies⟩, ends⟩
      · exact Or.inr ⟨[], pattern, patterns, [], [], fault, [], rfl, ⟨.nil, fun _ => rfl⟩,
          .malformed wrong⟩
      · exact Or.inr ⟨[], pattern, patterns, [], [], fault, [], rfl, ⟨.nil, fun _ => rfl⟩,
          .broken wrong⟩

theorem Passes.runIn_normalizeAll (valid : shape.Valid)
    (passes : Passes session shape patterns normals remarks) :
    runIn session (normalizeAll patterns shape) = (.ok normals, session.hearing remarks) := by
  have run := passes.runIn_append valid []
  rw [List.append_nil] at run
  rw [run]
  show (Except.ok (normals ++ []), _) = _
  rw [List.append_nil]

theorem Ends.runIn_normalizeAll (valid : shape.Valid)
    (passes : Passes session shape patterns normals remarks) {last : List Program.Emit}
    (ends : Ends session shape pattern fault last) (rest : List Pattern) :
    runIn session (normalizeAll (patterns ++ pattern :: rest) shape) =
      (.error fault, session.hearing (remarks ++ last)) := by
  rw [passes.runIn_append valid, normalizeAll_cons, Session.hearing_append]
  exact runIn_bind_of_fault (runIn_bind_of_fault ((ends.hearing remarks).runIn_normalize valid))

/-! ## Keys -/

theorem runIn_keys :
    runIn session (keys patterns shape) =
      ((runIn session (normalizeAll patterns shape)).1.map fun normals => normals.map Normal.key,
        (runIn session (normalizeAll patterns shape)).2) := by
  unfold keys
  rw [runIn_bind]
  cases runIn session (normalizeAll patterns shape) with
  | mk outcome between => cases outcome <;> rfl

theorem gives_keys_iff (valid : shape.Valid) {texts : List String} {after : Session} :
    Gives (keys patterns shape) session texts after ↔
      ∃ normals remarks, Passes session shape patterns normals remarks ∧
        texts = normals.map Normal.key ∧ after = session.hearing remarks := by
  rw [Gives, runIn_keys]
  constructor
  · intro run
    rcases passes_or_ends session shape patterns with ⟨normals, remarks, passes⟩ |
      ⟨before, pattern, rest, _, _, fault, last, rfl, passes, ends⟩
    · rw [passes.runIn_normalizeAll valid] at run
      cases run
      exact ⟨normals, remarks, passes, rfl, rfl⟩
    · rw [ends.runIn_normalizeAll valid passes rest] at run
      cases run
  · rintro ⟨normals, remarks, passes, rfl, rfl⟩
    rw [passes.runIn_normalizeAll valid]
    rfl

theorem runIn_keys_error_iff (valid : shape.Valid) {after : Session} :
    runIn session (keys patterns shape) = (.error fault, after) ↔
      ∃ before pattern rest normals remarks last, patterns = before ++ pattern :: rest ∧
        Passes session shape before normals remarks ∧ Ends session shape pattern fault last ∧
        after = session.hearing (remarks ++ last) := by
  rw [runIn_keys]
  constructor
  · intro run
    rcases passes_or_ends session shape patterns with ⟨normals, remarks, passes⟩ |
      ⟨before, pattern, rest, normals, remarks, reported, last, rfl, passes, ends⟩
    · rw [passes.runIn_normalizeAll valid] at run
      cases run
    · rw [ends.runIn_normalizeAll valid passes rest] at run
      cases run
      exact ⟨before, pattern, rest, normals, remarks, last, rfl, passes, ends, rfl⟩
  · intro ⟨before, pattern, rest, normals, remarks, last, split, passes, ends, ended⟩
    rw [split, ends.runIn_normalizeAll valid passes rest, ended]
    rfl

theorem Kept.fits (valid : shape.Valid) (kept : Kept design shape pattern normal) :
    normal.Fits shape := by
  cases kept with
  | bits symbols width => exact ⟨width, symbols⟩
  | const found inside => exact ⟨(Shape.fit_eq_self_iff valid).mpr inside, rfl⟩

theorem Kept.key_bits {text : String} (kept : Kept design shape (.bits text) normal) :
    normal.key = String.ofList (bitsOf text) := by
  cases kept
  rfl

variable {given : Operand} {constant : Const}

theorem kept_iff_mem (found : design.castConst given = .ok constant) :
    (∃ normal, Kept design shape (.operand given) normal) ↔ constant.value ∈ shape := by
  constructor
  · intro ⟨_, kept⟩
    cases kept with
    | const other inside =>
        cases other.symm.trans found
        exact inside
  · intro inside
    exact ⟨_, .const found inside⟩

theorem dropped_iff_not_mem (found : design.castConst given = .ok constant) :
    (∃ remark, Dropped design shape (.operand given) remark) ↔ constant.value ∉ shape := by
  constructor
  · intro ⟨_, dropped⟩
    cases dropped with
    | const other outside =>
        cases other.symm.trans found
        exact outside
  · intro outside
    exact ⟨_, .const found outside⟩

/-- The key of a constant is its two's complement, and no other number of the shape matches. -/
theorem Kept.key_const (valid : shape.Valid) (found : design.castConst given = .ok constant)
    (kept : Kept design shape (.operand given) normal) :
    normal.key = Binary.text constant.value shape.width ∧
      ∀ number ∈ shape,
        (Keys.covers normal.key.toList (Binary.digits number shape.width) = true ↔
          number = constant.value) := by
  cases kept with
  | const other inside =>
      cases other.symm.trans found
      refine ⟨rfl, ?_⟩
      intro number numberInside
      rw [Normal.key, String.toList_ofList]
      exact Value.covers_digits_digits_iff valid inside numberInside

/-- What normalizing a list of patterns comes to.  It succeeds exactly if every pattern is kept,
or dropped with a remark that is not denied: the keys are those of the kept patterns in their
order, and what is recorded is one remark for each dropped pattern.  It fails exactly at the
first pattern that does not pass: with its own syntax error if that pattern is malformed, with
the error of its cast if that is of another kind, and with the denied remark if it is dropped. -/
theorem keys_sort_patterns (valid : shape.Valid) (session : Session) (patterns : List Pattern) :
    (∀ texts after, Gives (keys patterns shape) session texts after ↔
      ∃ normals remarks, Passes session shape patterns normals remarks ∧
        texts = normals.map Normal.key ∧ after = session.hearing remarks) ∧
    (∀ fault after, runIn session (keys patterns shape) = (.error fault, after) ↔
      ∃ before pattern rest normals remarks last, patterns = before ++ pattern :: rest ∧
        Passes session shape before normals remarks ∧ Ends session shape pattern fault last ∧
        after = session.hearing (remarks ++ last)) ∧
    (∀ pattern normal, Kept session.design shape pattern normal →
      normal.key.length = shape.width ∧ ∀ symbol ∈ normal.key.toList, IsSymbol symbol) ∧
    (∀ text normal, Kept session.design shape (.bits text) normal →
      normal.key = String.ofList (bitsOf text)) ∧
    (∀ given constant, session.design.castConst given = .ok constant →
      ((∃ normal, Kept session.design shape (.operand given) normal) ↔ constant.value ∈ shape) ∧
      ((∃ remark, Dropped session.design shape (.operand given) remark) ↔
        constant.value ∉ shape) ∧
      ∀ normal, Kept session.design shape (.operand given) normal →
        normal.key = Binary.text constant.value shape.width ∧
        ∀ number ∈ shape,
          (Keys.covers normal.key.toList (Binary.digits number shape.width) = true ↔
            number = constant.value)) ∧
    (∀ pattern remark, Dropped session.design shape pattern remark →
      remark.code = .unmatchablePattern) ∧
    ∀ pattern fault, Malformed session.design shape pattern fault → fault.kind = .form := by
  refine ⟨fun _ _ => gives_keys_iff valid, fun _ _ => runIn_keys_error_iff valid, ?_, ?_, ?_, ?_,
    ?_⟩
  · intro pattern normal kept
    exact (kept.fits valid).key
  · intro text normal kept
    exact kept.key_bits
  · intro given constant found
    exact ⟨kept_iff_mem found, dropped_iff_not_mem found, fun _ kept => kept.key_const valid found⟩
  · intro pattern remark dropped
    exact dropped.code_eq
  · intro pattern fault malformed
    exact malformed.kind_eq

def listening : Session := Session.openScope {} {}

theorem keys_sort_signedNibble :
    (⟨4, true⟩ : Shape).Valid ∧
      Gives (keys [.bits "1 -01", .operand (.int 9), .operand (.int (-3))] ⟨4, true⟩) listening
        ["1-01", "1101"] (listening.hearing [unmatchable ⟨4, true⟩ (.int 9) (Const.ofInt 9)]) := by
  have valid : (⟨4, true⟩ : Shape).Valid := by decide
  have granted : ¬ listening.Denies .unmatchablePattern := by
    intro ⟨filter, enclosing, denies⟩
    cases enclosing
    exact Diagnostic.Filter.not_denies_empty _ denies
  have symbols : ∀ symbol ∈ ['1', '-', '0', '1'], IsSymbol symbol := by
    simp [IsSymbol]
  have sorted : Sorted listening.design ⟨4, true⟩
      [.bits "1 -01", .operand (.int 9), .operand (.int (-3))]
      [.bits ['1', '-', '0', '1'], .const (Const.ofInt (-3)) ['1', '1', '0', '1']]
      [unmatchable ⟨4, true⟩ (.int 9) (Const.ofInt 9)] :=
    .kept (.bits symbols rfl)
      (.dropped (.const rfl (by decide)) (.kept (.const rfl (by decide)) .nil))
  refine ⟨valid, ?_⟩
  apply ((keys_sort_patterns valid listening _).1 _ _).mpr
  exact ⟨_, _, ⟨sorted, fun denies => absurd denies granted⟩, rfl, rfl⟩

def circular : Design :=
  { values := #[{ name := "c", declared := none, target := .ok (.custom ⟨0, "c"⟩) }] }

/-- The pass ends before a malformed pattern at one that is broken, and with another error than
a syntax error. -/
theorem keys_end_at_circular :
    Malformed circular (Shape.unsigned 1) (.bits "2") (.patternAlphabet "2") ∧
      (∀ fault, ¬ Malformed circular (Shape.unsigned 1) (.operand (.custom ⟨0, "c"⟩)) fault) ∧
      runIn ⟨circular, []⟩ (keys [.operand (.custom ⟨0, "c"⟩), .bits "2"] (Shape.unsigned 1)) =
        (.error (.valueCycle "c"), ⟨circular, []⟩) ∧
      (Fault.valueCycle "c").kind ≠ .form := by
  have found : circular.castConst (.custom ⟨0, "c"⟩) = .error (.valueCycle "c") := rfl
  have listed : '2' ∈ bitsOf "2" := by decide
  refine ⟨.alphabet listed (by decide), ?_, rfl, by decide⟩
  intro fault malformed
  cases malformed with
  | kind other type =>
      cases other.symm.trans found
      cases type

end Pattern

end Gateware
