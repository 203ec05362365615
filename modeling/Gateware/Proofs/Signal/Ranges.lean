import Gateware.Proofs.Concur
import Gateware.Proofs.Signal.Initial

/-!
# Signals of ranges

A signal of the shape of a range takes an integer as its initializer exactly if the integer is an
element of the range, and then without a warning.  Only what is written as an integer is checked:
another operand that resolves to the same constant is taken, also outside the range.
-/

set_option autoImplicit false

namespace Gateware

open Build (runIn Gives)

def Operand.isInteger : Operand → Bool
  | .int _ => true
  | _ => false

/-- No warning on an initializer is denied. -/
def Session.Lenient (session : Session) : Prop :=
  ∀ filter, session.enclosing = some filter →
    ∀ code, Signal.Plan.IsInitialCode code → ¬ filter.Denies code

namespace Signal.Plan

def ranged (plan : Plan) (range : Range) (init : Operand) : Plan :=
  { plan with spec := .range range }.initialized init

variable {plan : Plan} {design : Design} {session : Session} {range : Range} {value : Int}
  {shape : Shape} {init : Operand} {constant : Const}

/-! ## The check -/

theorem checkRange_int :
    checkRange (.range range) (some (.int value)) = .ok () ↔ value ∈ range := by
  rw [← Range.contains_iff_mem]
  unfold checkRange
  by_cases inside : range.contains value = true
  · simp [inside]
  · simp only [inside, if_false, Bool.false_eq_true, iff_false]
    split <;> nofun

theorem kind_of_checkRange {spec : ShapeSpec} {given : Option Operand} {fault : Fault}
    (refused : checkRange spec given = .error fault) : fault.kind = .form := by
  unfold checkRange at refused
  split at refused
  · split at refused
    · cases refused
    · split at refused <;> cases refused <;> rfl
  · cases refused

/-! ## Elements -/

theorem initialConst_ranged (found : design.castConst init = .ok constant) :
    (plan.ranged range init).initialConst design shape = .ok constant := by
  have given : design.castConst ((plan.ranged range init).init.getD (.int 0)) = .ok constant :=
    found
  unfold initialConst
  simp only [given]
  rfl

theorem exists_capture_of_mem (plan : Plan) (session : Session) (filter : Diagnostic.Filter)
    (member : value ∈ range) :
    ∃ declaration after,
      runIn session (Build.capture filter (plan.ranged range (.int value)).declare) =
        (.ok (.ok declaration, []), after) ∧
      declaration.init = value ∧ declaration.signal.shape = Shape.ofRange range := by
  have narrowest := Shape.narrowest_ofRange range
  have inside := narrowest.holds value member
  have quiet : (plan.ranged range (.int value)).warning (Const.ofInt value).shape
      (Shape.ofRange range) = pure () := warnInitial_of_mem narrowest.valid inside
  have run := capture_declare_of_quiet _ session filter rfl (initialConst_ranged rfl) quiet
    (checkRange_int.mpr member)
  exact ⟨_, _, run, Shape.fit_eq_self narrowest.valid inside, rfl⟩

theorem mem_of_capture {filter : Diagnostic.Filter} {declaration : Declaration}
    {recorded : List Diagnostic} {after : Session}
    (run : runIn session (Build.capture filter (plan.ranged range (.int value)).declare) =
      (.ok (.ok declaration, recorded), after)) : value ∈ range := by
  rw [Build.runIn_capture] at run
  cases ended : runIn (session.openScope filter) (plan.ranged range (.int value)).declare with
  | mk result last =>
      rw [ended] at run
      cases run
      obtain ⟨_, _, _, _, _, _, checked, _⟩ := gives_declare.mp ended
      exact checkRange_int.mp checked

/-- Whatever the filter, an integer is taken as the initializer of a signal of a range exactly if
it is an element of the range.  It then is the initial value, it lies in the narrowest shape of the
range, and nothing is recorded. -/
theorem takes_elements (plan : Plan) (session : Session) (filter : Diagnostic.Filter)
    (range : Range) (value : Int) :
    ((∃ declaration recorded after,
        runIn session (Build.capture filter (plan.ranged range (.int value)).declare) =
          (.ok (.ok declaration, recorded), after)) ↔ value ∈ range) ∧
    ∀ declaration recorded after,
      runIn session (Build.capture filter (plan.ranged range (.int value)).declare) =
        (.ok (.ok declaration, recorded), after) →
      declaration.init = value ∧ declaration.signal.shape = Shape.ofRange range ∧
        value ∈ Shape.ofRange range ∧ recorded = [] := by
  refine ⟨⟨?_, ?_⟩, ?_⟩
  · intro taken
    obtain ⟨declaration, recorded, after, run⟩ := taken
    exact mem_of_capture run
  · intro member
    obtain ⟨declaration, after, run, _⟩ := exists_capture_of_mem plan session filter member
    exact ⟨declaration, [], after, run⟩
  · intro declaration recorded after run
    have member := mem_of_capture run
    obtain ⟨_, _, expected, init, shape⟩ := exists_capture_of_mem plan session filter member
    cases expected.symm.trans run
    exact ⟨init, shape, (Shape.narrowest_ofRange range).holds value member, rfl⟩

/-- A countdown by fours under a filter that denies everything. -/
theorem takes_elements_countdown :
    (-6 : Int) ∈ (⟨6, -9, -4⟩ : Range) ∧ (∃ declaration recorded after,
      runIn {} (Build.capture { default := .deny }
        (({ spec := .width 0 } : Plan).ranged ⟨6, -9, -4⟩ (.int (-6))).declare) =
          (.ok (.ok declaration, recorded), after) ∧
      declaration.init = -6 ∧ declaration.signal.shape = ⟨4, true⟩ ∧ recorded = []) := by
  have member : (-6 : Int) ∈ (⟨6, -9, -4⟩ : Range) :=
    Range.mem_iff_exists_index.mpr ⟨3, by decide, by decide⟩
  obtain ⟨taken, exact⟩ := takes_elements { spec := .width 0 } {} { default := .deny }
    ⟨6, -9, -4⟩ (-6)
  obtain ⟨declaration, recorded, after, run⟩ := taken.mpr member
  obtain ⟨init, shape, _, silent⟩ := exact declaration recorded after run
  exact ⟨member, declaration, recorded, after, run, init, shape, silent⟩

/-! ## Operands of one constant -/

theorem exists_emits_of_lenient (plan : Plan) (given shape : Shape) (lenient : session.Lenient) :
    ∃ emits, runIn session (plan.warning given shape) = (.ok (), session.hearing emits) := by
  rcases plan.warning_cases given shape with quiet | ⟨code, message, initial, raises⟩
  · exact ⟨[], by rw [quiet, Build.runIn_pure, Session.hearing_nil]⟩
  · have granted : Program.answer session.enclosing ⟨code, message⟩ = .ok () := by
      cases innermost : session.enclosing with
      | none => rfl
      | some filter => exact Program.answer_granted (lenient filter innermost code initial)
    exact ⟨[⟨code, message⟩], by rw [raises, Build.runIn_warn, granted]⟩

theorem outcome_ranged (lenient : session.Lenient)
    (found : session.design.castConst init = .ok constant) :
    (runIn session (plan.ranged range init).declare).1 =
      (checkRange (.range range) (some init)).map fun _ =>
        (plan.ranged range init).declaration session.design (Shape.ofRange range) constant := by
  obtain ⟨emits, warned⟩ := exists_emits_of_lenient (plan.ranged range init) constant.shape
    (Shape.ofRange range) lenient
  have shaped : session.design.castShape (plan.ranged range init).spec = .ok (Shape.ofRange range) :=
    rfl
  rw [runIn_declare shaped, initialConst_ranged found]
  dsimp only
  rw [Build.runIn_bind, warned]
  dsimp only
  rw [Build.runIn_bind, Build.runIn_ofExcept]
  have checked : checkRange (plan.ranged range init).spec (plan.ranged range init).init =
      checkRange (.range range) (some init) := rfl
  rw [checked]
  cases checkRange (.range range) (some init) <;> rfl

/-- An operand of a value is taken by a range that holds the value, or if it is not written as an
integer. -/
def Takes (range : Range) (init : Operand) (value : Int) : Prop :=
  value ∈ range ∨ init.isInteger = false

theorem takes_agree_iff {first second : Operand} :
    (Takes range first value ↔ Takes range second value) ↔
      value ∈ range ∨ first.isInteger = second.isInteger := by
  unfold Takes
  by_cases member : value ∈ range
  · simp [member]
  · cases first.isInteger <;> cases second.isInteger <;> simp [member]

theorem checkRange_eq_ok_iff (found : design.castConst init = .ok constant) :
    checkRange (.range range) (some init) = .ok () ↔ Takes range init constant.value := by
  cases init with
  | int number =>
      cases found
      simpa [Takes, Operand.isInteger, Const.ofInt] using checkRange_int
  | _ => exact iff_of_true rfl (Or.inr rfl)

theorem outcome_cases (plan : Plan) (range : Range) (lenient : session.Lenient)
    (found : session.design.castConst init = .ok constant) :
    (Takes range init constant.value ∧
        ∃ declaration, (runIn session (plan.ranged range init).declare).1 = .ok declaration ∧
          declaration.init = (Shape.ofRange range).fit constant.value) ∨
      ¬ Takes range init constant.value ∧
        ∃ fault, (runIn session (plan.ranged range init).declare).1 = .error fault ∧
          fault.kind = .form := by
  rw [outcome_ranged lenient found, ← checkRange_eq_ok_iff found]
  cases checked : checkRange (.range range) (some init) with
  | ok passed => exact Or.inl ⟨rfl, _, rfl, rfl⟩
  | error fault => exact Or.inr ⟨nofun, fault, rfl, kind_of_checkRange checked⟩

/-- Two operands that resolve to one integer declare signals of a range with the same initial
value, or are refused alike, exactly if the integer is an element of the range or if both or none
of them are written as integers.  Outside the range all is taken but what is written as an
integer. -/
theorem spellings_concur_iff {first second : Operand} {firstConst secondConst : Const}
    (plan : Plan) (range : Range) (lenient : session.Lenient)
    (firstFound : session.design.castConst first = .ok firstConst)
    (secondFound : session.design.castConst second = .ok secondConst)
    (same : firstConst.value = secondConst.value) :
    (Concur (fun one other : Declaration => one.init = other.init)
        (runIn session (plan.ranged range first).declare).1
        (runIn session (plan.ranged range second).declare).1 ↔
      firstConst.value ∈ range ∨ first.isInteger = second.isInteger) ∧
    ((∃ declaration, (runIn session (plan.ranged range first).declare).1 = .ok declaration) ↔
      firstConst.value ∈ range ∨ first.isInteger = false) := by
  have secondCases := outcome_cases plan range lenient secondFound
  rw [← same] at secondCases
  rw [← takes_agree_iff]
  obtain ⟨firstTaken, one, firstRun, firstInit⟩ | ⟨firstRefused, fault, firstRun, firstKind⟩ :=
    outcome_cases plan range lenient firstFound
  · refine ⟨?_, iff_of_true ⟨one, firstRun⟩ firstTaken⟩
    obtain ⟨secondTaken, other, secondRun, secondInit⟩ | ⟨secondRefused, _, secondRun, _⟩ :=
      secondCases
    · rw [firstRun, secondRun]
      exact iff_of_true (.ok (firstInit.trans secondInit.symm)) (iff_of_true firstTaken secondTaken)
    · rw [firstRun, secondRun]
      exact iff_of_false nofun fun agree => secondRefused (agree.mp firstTaken)
  · refine ⟨?_, iff_of_false (by simp [firstRun]) firstRefused⟩
    obtain ⟨secondTaken, _, secondRun, _⟩ | ⟨secondRefused, _, secondRun, secondKind⟩ :=
      secondCases
    · rw [firstRun, secondRun]
      exact iff_of_false nofun fun agree => firstRefused (agree.mpr secondTaken)
    · rw [firstRun, secondRun]
      exact iff_of_true (.fault (firstKind.trans secondKind.symm))
        (iff_of_false firstRefused secondRefused)

def digit : Plan := { spec := .width 0 }

/-- Nine written as an integer and as a constant, where nine is the last digit. -/
theorem spellings_concur_nine :
    Concur (fun one other : Declaration => one.init = other.init)
      (runIn {} (digit.ranged ⟨0, 10, 1⟩ (.int 9)).declare).1
      (runIn {} (digit.ranged ⟨0, 10, 1⟩ (.value (.const ⟨9, ⟨4, false⟩⟩))).declare).1 := by
  have lenient : ({} : Session).Lenient := nofun
  have member : (9 : Int) ∈ (⟨0, 10, 1⟩ : Range) :=
    Range.mem_iff_exists_index.mpr ⟨9, by decide, by decide⟩
  exact (spellings_concur_iff digit ⟨0, 10, 1⟩ lenient rfl rfl rfl).1.mpr (Or.inl member)

/-- Ten ends the range: as an integer it is refused, as a constant it is taken. -/
theorem ten_spelled_apart :
    Design.castConst {} (.int 10) = Design.castConst {} (.value (.const (.ofInt 10))) ∧
      (runIn {} (digit.ranged ⟨0, 10, 1⟩ (.int 10)).declare).1 =
        .error (.initialAtEnd 10 "range(0, 10)") ∧
      ∃ declaration,
        (runIn {} (digit.ranged ⟨0, 10, 1⟩ (.value (.const (.ofInt 10)))).declare).1 =
          .ok declaration ∧
        declaration.init = 10 ∧ (10 : Int) ∉ (⟨0, 10, 1⟩ : Range) := by
  have outside : (10 : Int) ∉ (⟨0, 10, 1⟩ : Range) := by
    rw [← Range.contains_iff_mem]
    decide
  exact ⟨rfl, rfl, _, rfl, rfl, outside⟩

end Signal.Plan

end Gateware
