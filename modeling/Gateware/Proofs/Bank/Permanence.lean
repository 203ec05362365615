import Gateware.Proofs.Bank.History
import Gateware.Proofs.Bank.Mirror

/-!
# What a lookup keeps describing

A path from a lookup that was selected at an index not known beforehand leads to the same
value after further actions, as long as none of them edits a bank that the path looks into.
The bank itself is frozen; the banks behind its elements need not be.
-/

set_option autoImplicit false

namespace Gateware

open Build (runIn Gives)

/-! ## Steps that agree -/

/-- Two outcomes in step: related results, or faults of one kind.  Nothing is said where the
first step has no outcome. -/
inductive Mirror.Agree {α β : Type} (mirror : Mirror) (related : α → β → Prop) :
    Except Fault α × Session → Except Fault β × Session → Prop
  | endless {between : Session} {other : Except Fault β × Session} :
      Agree mirror related (.error .endlessBank, between) other
  | fault {left right : Fault} {between mirrored : Session} (same : left.kind = right.kind) :
      Agree mirror related (.error left, between) (.error right, mirrored)
  | ok {left : α} {right : β} {between mirrored : Session} (here : related left right)
      (twin : mirror.Twin between.design mirrored.design) :
      Agree mirror related (.ok left, between) (.ok right, mirrored)

namespace Mirror

variable {mirror : Mirror} {session mirrored : Session}

section Agree

variable {α β γ δ : Type} {related : α → β → Prop} {others : γ → δ → Prop}

theorem agree_of_concur {left : Except Fault α} {right : Except Fault β}
    (twin : mirror.Twin session.design mirrored.design) (concur : Concur related left right) :
    mirror.Agree related (left, session) (right, mirrored) := by
  cases concur with
  | fault same => exact .fault same
  | ok here => exact .ok here twin

theorem Agree.bind {step : Build α} {other : Build β} {next : α → Build γ} {onward : β → Build δ}
    (first : mirror.Agree related (runIn session step) (runIn mirrored other))
    (second : ∀ {item image} {between mirroredBetween : Session}, related item image →
      mirror.Twin between.design mirroredBetween.design →
      mirror.Agree others (runIn between (next item)) (runIn mirroredBetween (onward image))) :
    mirror.Agree others (runIn session (step >>= next)) (runIn mirrored (other >>= onward)) := by
  rw [Build.runIn_bind, Build.runIn_bind]
  generalize runIn session step = left at first ⊢
  generalize runIn mirrored other = right at first ⊢
  cases first with
  | endless => exact .endless
  | fault same => exact .fault same
  | ok here twin => exact second here twin

theorem Agree.mapM {given : List α} {images : List β} {run : α → Build γ} {other : β → Build δ}
    (twin : mirror.Twin session.design mirrored.design) (pairs : List.Forall₂ related given images)
    (step : ∀ {item image} {between mirroredBetween : Session}, related item image →
      mirror.Twin between.design mirroredBetween.design →
      mirror.Agree others (runIn between (run item)) (runIn mirroredBetween (other image))) :
    mirror.Agree (List.Forall₂ others) (runIn session (given.mapM run))
      (runIn mirrored (images.mapM other)) := by
  induction pairs generalizing session mirrored with
  | nil => exact .ok .nil twin
  | cons here _ ih =>
      rw [List.mapM_cons, List.mapM_cons]
      apply (step here twin).bind
      intro result image between mirroredBetween first twinBetween
      apply (ih twinBetween).bind
      intro results imagesRest last mirroredLast rest twinLast
      exact .ok (.cons first rest) twinLast

end Agree

/-! ## Steps on banks agree -/

def SameLookup (mirror : Mirror) (lookup image : Lookup) : Prop :=
  mirror.Same lookup.bank image.bank ∧ lookup.index = image.index

theorem agree_select {bank image : Nat} {index : Operand}
    (twin : mirror.Twin session.design mirrored.design) (same : mirror.Same bank image)
    (shared : ∀ other, index.Names mirror.values other → mirror.shared other) :
    mirror.Agree mirror.SameLookup (runIn session (Bank.select bank index))
      (runIn mirrored (Bank.select image index)) := by
  rw [Bank.runIn_select, Bank.runIn_select]
  have casts := twin.concur_cast shared
  generalize session.design.cast index = left at casts ⊢
  generalize mirrored.design.cast index = right at casts ⊢
  cases casts with
  | fault same => exact .fault same
  | @ok value _ here =>
      subst here
      dsimp only
      split
      · exact .ok ⟨same, rfl⟩ twin
      · exact .ok ⟨same, rfl⟩ twin.frozenAt_left.frozenAt_right

end Mirror

namespace Mirror

variable {mirror : Mirror} {session mirrored : Session} {access : Access}

private theorem concur_noField {text image name : String} :
    Concur (Element.Alike mirror.Same) (.error (.noField text name))
      (.error (.noField image name)) := by
  apply Concur.fault
  rw [Fault.kind, Fault.kind]

theorem concur_read {left right : Design} {element image : Element}
    (twin : mirror.Twin left right) (alike : element.Alike mirror.Same image)
    (shared : ∀ bank, access.Names mirror.values bank → mirror.shared bank) :
    Concur (Element.Alike mirror.Same) (access.read left element) (access.read right image) := by
  have picked {value other : Except Fault Value} (same : Concur Eq value other)
      (choose : Value → Except Fault Value) :
      Concur (Element.Alike mirror.Same)
        (do let value ← value; (choose value).map Element.value)
        (do let value ← other; (choose value).map Element.value) := by
    apply same.bind
    rintro value _ rfl
    apply concur_refl.map
    rintro value _ rfl
    exact .value value
  have direct (number : Int) : Concur (Element.Alike mirror.Same)
      (if number < Position.min ∨ Position.max < number then .error (.bankIndex number)
        else do
          let value ← left.elementValue element
          (value.index (.bit number)).map Element.value)
      (if number < Position.min ∨ Position.max < number then .error (.bankIndex number)
        else do
          let value ← right.elementValue image
          (value.index (.bit number)).map Element.value) := by
    split
    · exact .fault rfl
    · exact picked (twin.concur_elementValue alike) _
  cases access with
  | field name =>
      cases alike with
      | record recordName names inner =>
          have found := @Element.find?_alike _ _ _ name names inner
          rw [Access.read, Access.read, Element.field?, Element.field?]
          generalize Option.map Prod.snd (List.find? _ _) = one at found ⊢
          generalize Option.map Prod.snd (List.find? _ _) = other at found ⊢
          cases found with
          | none => exact concur_noField
          | some here => exact .ok here
      | _ => exact concur_noField
  | item index =>
      cases index with
      | int number =>
          cases alike with
          | bank here => exact concur_elementAt (twin.alike here)
          | record name names inner => exact Element.concur_fields inner
          | _ => exact direct number
      | _ =>
          apply (twin.concur_cast shared).bind
          rintro value _ rfl
          exact picked (twin.concur_elementValue alike) _

theorem agree_step {onLeft onRight : Lookup → Build Lookup} {element image : Element}
    (twin : mirror.Twin session.design mirrored.design) (alike : element.Alike mirror.Same image)
    (shared : ∀ bank, access.Names mirror.values bank → mirror.shared bank)
    (lookups : ∀ {lookup other}, mirror.SameLookup lookup other →
      mirror.Agree mirror.SameLookup (runIn session (onLeft lookup))
        (runIn mirrored (onRight other))) :
    mirror.Agree (Element.Alike mirror.Same) (runIn session (access.step onLeft element))
      (runIn mirrored (access.step onRight image)) := by
  have wrapped {step other : Build Lookup}
      (agree : mirror.Agree mirror.SameLookup (runIn session step) (runIn mirrored other)) :
      mirror.Agree (Element.Alike mirror.Same)
        (runIn session (do return Element.lookup (← step)))
        (runIn mirrored (do return Element.lookup (← other))) := by
    apply agree.bind
    rintro ⟨bank, index⟩ ⟨image, _⟩ between mirroredBetween ⟨same, rfl⟩ twinBetween
    exact .ok (.lookup index same) twinBetween
  rcases access.step_cases element with ⟨source, rfl⟩ | ⟨index, id, rfl, rfl, selects⟩ | plain
  · cases alike with
    | lookup index here =>
        rw [Access.runIn_step_lookup, Access.runIn_step_lookup]
        exact wrapped (lookups ⟨here, rfl⟩)
  · cases alike with
    | @bank _ other here =>
        have selectsToo : (Access.item index).Selects (.bank other) := by
          cases index <;> exact selects
        rw [Access.runIn_step_select selects, Access.runIn_step_select selectsToo]
        exact wrapped (agree_select twin here shared)
  · have selects : access.Selects image → access.Selects element := by
      cases access with
      | field name => exact id
      | item index => cases index <;> cases alike <;> exact id
    have notLookup : ∀ source, image ≠ .lookup source := by
      rintro source rfl
      cases alike
      exact absurd rfl (plain.1 _)
    rw [Access.runIn_step_read plain.1 plain.2,
      Access.runIn_step_read notLookup fun image => plain.2 (selects image)]
    exact agree_of_concur twin (concur_read twin alike shared)

theorem agree_mapWithin {levels more : Nat} {lookup image : Lookup}
    (twin : mirror.Twin session.design mirrored.design) (same : mirror.SameLookup lookup image)
    (shared : ∀ bank, access.Names mirror.values bank → mirror.shared bank)
    (enough : levels ≤ more) :
    mirror.Agree mirror.SameLookup (runIn session (lookup.mapWithin access.step levels))
      (runIn mirrored (image.mapWithin access.step more)) := by
  -- The first side has no more levels than the second, so it is the first to run out.
  induction levels generalizing session mirrored lookup image more with
  | zero => exact .endless
  | succ levels ih =>
      obtain ⟨more, rfl⟩ := Nat.exists_eq_add_one_of_ne_zero (Nat.ne_zero_of_lt enough)
      rw [Lookup.mapWithin_succ, Lookup.mapWithin_succ]
      apply (Agree.mapM twin (twin.alike same.1) fun alike twinBetween =>
        agree_step twinBetween alike shared fun below =>
          ih twinBetween below (Nat.le_of_succ_le_succ enough)).bind
      intro made images between mirroredBetween alike twinBetween
      rw [Lookup.runIn_derive, Lookup.runIn_derive]
      exact .ok ⟨twinBetween.same_size, same.2⟩ (twinBetween.withBank alike)

theorem agree_take {lookup image : Lookup} (twin : mirror.Twin session.design mirrored.design)
    (same : mirror.SameLookup lookup image)
    (shared : ∀ bank, access.Names mirror.values bank → mirror.shared bank) :
    mirror.Agree mirror.SameLookup (runIn session (access.take lookup))
      (runIn mirrored (access.take image)) := by
  rw [Access.runIn_take, Access.runIn_take]
  exact agree_mapWithin twin same shared (Nat.succ_le_succ twin.size_le)

/-- A path from corresponding lookups leads to the same value. -/
theorem agree_path {path : List Access} {lookup image : Lookup}
    (twin : mirror.Twin session.design mirrored.design) (same : mirror.SameLookup lookup image)
    (shared : ∀ access ∈ path, ∀ bank, access.Names mirror.values bank → mirror.shared bank) :
    mirror.Agree Eq (runIn session (lookup.read path)) (runIn mirrored (image.read path)) := by
  induction path generalizing session mirrored lookup image with
  | nil =>
      obtain ⟨bank, index⟩ := lookup
      obtain ⟨other, _⟩ := image
      obtain ⟨here, rfl⟩ := same
      rw [Lookup.read, Lookup.read, Build.runIn_bind, Build.runIn_bind, Build.runIn_design,
        Build.runIn_design]
      dsimp only
      rw [Build.runIn_ofExcept, Build.runIn_ofExcept]
      exact agree_of_concur twin (twin.concur_lookupValue here)
  | cons access rest ih =>
      rw [Lookup.read, Lookup.read]
      apply (agree_take twin same (shared access List.mem_cons_self)).bind
      intro below belowImage between mirroredBetween sameBelow twinBetween
      exact ih twinBetween sameBelow fun access later =>
        shared access (List.mem_cons_of_mem _ later)

end Mirror

/-! ## What is looked into -/

/-- The banks behind a bank: itself, and those that elements on the way name. -/
inductive Design.Reaches (design : Design) (root : Nat) : Nat → Prop
  | refl : Reaches design root root
  | step {bank inner : Nat} {element : Element} (reached : Reaches design root bank)
      (listed : element ∈ design.elements bank) (mentioned : element.Mentions inner) :
      Reaches design root inner

theorem Design.Closed.lt_of_reaches {design : Design} {root bank : Nat} (closed : design.Closed)
    (stored : root < design.banks.size) (reached : design.Reaches root bank) :
    bank < design.banks.size := by
  cases reached with
  | refl => exact stored
  | step _ listed mentioned => exact closed _ _ listed _ mentioned

/-- The banks that a path from a lookup looks into. -/
def Lookup.Consults (lookup : Lookup) (path : List Access) (design : Design) (bank : Nat) : Prop :=
  ∃ root, (root = lookup.bank ∨ ∃ access ∈ path, access.Names design.values root) ∧
    design.Reaches root bank

namespace Action

variable {session : Session} {bank : Nat}

/-- The bank is frozen whenever one of the actions edits it, so that the edit is refused. -/
def Spares (actions : List Action) (session : Session) (bank : Nat) : Prop :=
  ∀ earlier change later, actions = earlier ++ .edit bank change :: later →
    (runAll earlier session).design.isFrozen bank = true

theorem elements_runAll_of_spares {actions : List Action} (closed : session.design.Closed)
    (grounded : Grounded actions session) (stored : bank < session.design.banks.size)
    (spared : Spares actions session bank) :
    (runAll actions session).design.elements bank = session.design.elements bank := by
  induction actions generalizing session with
  | nil => rfl
  | cons action rest ih =>
      have here := kept closed grounded.1
      have unchanged : (action.after session).design.elements bank =
          session.design.elements bank := by
        cases frozen : session.design.isFrozen bank with
        | true => exact here.follows.settled frozen
        | false =>
            rw [here.elements stored frozen]
            cases action with
            | edit target change =>
                have different : target ≠ bank := by
                  rintro rfl
                  have refused := spared [] change rest rfl
                  rw [runAll, frozen] at refused
                  cases refused
                rw [onList, if_neg different]
            | _ => rfl
      have sparedRest : Spares rest (action.after session) bank := by
        rintro earlier change later rfl
        exact spared (action :: earlier) change later rfl
      rw [runAll, ih here.closed grounded.2 (Nat.lt_of_lt_of_le stored here.follows.size)
        sparedRest, unchanged]

end Action

/-! ## Lookups after further actions -/

namespace Lookup

variable {before first : Session} {bank : Nat} {index : Operand} {lookup : Lookup}

theorem frozen_of_selected (selected : Gives (Bank.select bank index) before lookup first)
    (unknown : lookup.index.isConstant = false) :
    lookup.bank = bank ∧ first.design = before.design.frozenAt bank := by
  rw [Gives, Bank.runIn_select] at selected
  cases cast : before.design.cast index with
  | error fault =>
      rw [cast] at selected
      cases selected
  | ok value =>
      rw [cast] at selected
      simp only [Prod.mk.injEq, Except.ok.injEq] at selected
      obtain ⟨rfl, rfl⟩ := selected
      dsimp only at unknown ⊢
      rw [unknown]
      exact ⟨rfl, rfl⟩

/-- The value at the end of a path from a lookup at an unknown index stays what it is through
actions that spare the other banks that the path looks into. -/
theorem read_runAll {actions : List Action} {path : List Access} (closed : before.design.Closed)
    (stored : bank < before.design.banks.size)
    (selected : Gives (Bank.select bank index) before lookup first)
    (unknown : lookup.index.isConstant = false) (grounded : Action.Grounded actions first)
    (rooted : ∀ access ∈ path, ∀ root, access.Names first.design.values root →
      root < first.design.banks.size)
    (spared : ∀ other, lookup.Consults path first.design other → other ≠ bank →
      Action.Spares actions first other)
    (finished : Finished (runIn first (lookup.read path)).1) :
    (runIn (Action.runAll actions first) (lookup.read path)).1.mapError Fault.kind =
      (runIn first (lookup.read path)).1.mapError Fault.kind := by
  obtain ⟨rfl, frozen⟩ := frozen_of_selected selected unknown
  have closedFirst : first.design.Closed := frozen ▸ closed.frozenAt
  have storedFirst : lookup.bank < first.design.banks.size := by
    rw [frozen, Design.size_frozenAt]
    exact stored
  have frozenFirst : first.design.isFrozen lookup.bank = true := by
    rw [frozen, Design.isFrozen_frozenAt stored]
    exact Or.inr rfl
  have follows := (Action.runAll_kept closedFirst grounded).2
  have below {other : Nat} (here : lookup.Consults path first.design other) :
      other < first.design.banks.size := by
    obtain ⟨root, rfl | ⟨access, listed, named⟩, reached⟩ := here
    · exact closedFirst.lt_of_reaches storedFirst reached
    · exact closedFirst.lt_of_reaches (rooted access listed root named) reached
  have same (other : Nat) (here : lookup.Consults path first.design other) :
      (Action.runAll actions first).design.elements other = first.design.elements other := by
    by_cases isBank : other = lookup.bank
    · rw [isBank]
      exact follows.settled frozenFirst
    · exact Action.elements_runAll_of_spares closedFirst grounded (below here)
        (spared other here isBank)
  have twin : (Mirror.between first.design (Action.runAll actions first).design
      (lookup.Consults path first.design) below follows.size).Twin first.design
        (Action.runAll actions first).design := by
    apply Mirror.twin_between follows.values same
    rintro other ⟨root, isRoot, reached⟩ element listed inner named
    exact ⟨root, isRoot, reached.step listed named⟩
  have agree := Mirror.agree_path twin
    ⟨Or.inl ⟨rfl, lookup.bank, Or.inl rfl, .refl⟩, rfl⟩
    fun access listed root named => ⟨root, Or.inr ⟨access, listed, named⟩, .refl⟩
  generalize runIn first (lookup.read path) = left at agree finished ⊢
  generalize runIn (Action.runAll actions first) (lookup.read path) = right at agree ⊢
  cases agree with
  | endless => exact absurd rfl finished
  | fault same => exact congrArg Except.error same.symm
  | ok here => rw [here]

/-! ## A bank behind an element -/

def unknownBit : Value := .signal ⟨0, "i", Shape.unsigned 1⟩

/-- Two numbers, a bank of them twice, and a bank of the first of them. -/
def behind : Session where
  design := { banks := #[{ elements := [.int 1, .int 2] }, { elements := [.bank 0, .bank 0] },
    { elements := [.lookup ⟨0, Value.ofInt 0⟩] }] }

def selectedFrom (bank : Nat) : Session :=
  (runIn behind (Bank.select bank (.value unknownBit))).2

/-- The numbers are frozen before they are edited, so what was read of them stays. -/
theorem read_runAll_behind :
    Finished (runIn (selectedFrom 1) (read ⟨1, unknownBit⟩ [.item (.value unknownBit)])).1 ∧
      (runIn (Action.runAll [.select 0 (.value unknownBit), .edit 0 (.set 0 (.int 7))]
          (selectedFrom 1)) (read ⟨1, unknownBit⟩ [.item (.value unknownBit)])).1.mapError
            Fault.kind =
        (runIn (selectedFrom 1) (read ⟨1, unknownBit⟩ [.item (.value unknownBit)])).1.mapError
            Fault.kind := by
  have finished :
      Finished (runIn (selectedFrom 1) (read ⟨1, unknownBit⟩ [.item (.value unknownBit)])).1 := by
    decide
  refine ⟨finished, ?_⟩
  apply @read_runAll behind (selectedFrom 1) 1 (.value unknownBit) ⟨1, unknownBit⟩
  case closed => exact Design.closed_of_banks (by simp [behind])
  case stored => decide
  case selected => rfl
  case unknown => rfl
  case grounded =>
    refine ⟨?_, ?_, trivial⟩
    · rintro bank rfl
      exact Nat.zero_lt_succ 2
    · rintro bank (rfl | mentioned)
      · exact Nat.zero_lt_succ 2
      · cases mentioned
  case rooted =>
    intro access listed root named
    rw [List.mem_singleton.mp listed] at named
    cases named
  case spared =>
    rintro other - - earlier change later split
    cases earlier with
    | nil => cases split
    | cons first rest =>
        cases rest with
        | nil =>
            cases split
            rfl
        | cons second others => cases others <;> cases split
  case finished => exact finished

/-- The numbers are edited before anything freezes them: the lookup that was selected before has
two bits, and three bits afterwards. -/
theorem read_runAll_ne_behind :
    Gives (Bank.select 2 (.value unknownBit)) behind ⟨2, unknownBit⟩ (selectedFrom 2) ∧
      unknownBit.isConstant = false ∧
      (runIn (selectedFrom 2) (read ⟨2, unknownBit⟩ [])).1.map Value.shape = .ok ⟨2, false⟩ ∧
      (runIn (Action.runAll [.edit 0 (.set 0 (.int 7))] (selectedFrom 2))
        (read ⟨2, unknownBit⟩ [])).1.map Value.shape = .ok ⟨3, false⟩ := by
  refine ⟨?_, ?_, ?_, ?_⟩ <;> rfl

end Lookup

end Gateware
