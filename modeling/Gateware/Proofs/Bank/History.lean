import Gateware.Proofs.Bank.Steps

/-!
# Histories of banks

Sequences of actions on banks, each in the session that the one before leaves.  A frozen
bank keeps its elements for good, and one that is not frozen is edited as a list is.
-/

set_option autoImplicit false

namespace Gateware

open Build (runIn Gives)

/-! ## Edits -/

inductive Edit where
  | set (index : Nat) (element : Element)
  | remove (index : Nat)
  | insert (index : Nat) (element : Element)
  | push (element : Element)

namespace Edit

/-- Edits a bank, and hands out the element that a removal takes from it. -/
def perform (bank : Nat) : Edit → Build (Option Element)
  | .set index element => do
      Bank.set bank index element
      return none
  | .remove index => do return some (← Bank.remove bank index)
  | .insert index element => do
      Bank.insert bank index element
      return none
  | .push element => do
      Bank.push bank element
      return none

/-- What the edit makes of an ordinary list.  An element is inserted at the end if its place
lies past it. -/
def onList : Edit → List Element → Except Fault (List Element)
  | .set index element, list =>
      if index < list.length then .ok (list.set index element) else .error (.bankIndex index)
  | .remove index, list =>
      if index < list.length then .ok (list.eraseIdx index) else .error (.bankIndex index)
  | .insert index element, list => .ok (list.insertIdx (min index list.length) element)
  | .push element, list => .ok (list ++ [element])

/-- The element that the edit takes from a list. -/
def taken : Edit → List Element → Option Element
  | .remove index, list => list[index]?
  | _, _ => none

/-- The banks that a new element names. -/
def Mentions (bank : Nat) : Edit → Prop
  | .set _ element | .insert _ element | .push element => element.Mentions bank
  | .remove _ => False

variable {session : Session} {bank : Nat} {edit : Edit}

theorem runIn_perform_of_frozen (frozen : session.design.isFrozen bank = true) :
    runIn session (edit.perform bank) = (.error .frozenBank, session) := by
  cases edit <;> exact Build.runIn_bind_of_fault (Bank.runIn_change_of_frozen frozen)

private theorem insertIdx_min (list : List Element) (index : Nat) (element : Element) :
    list.insertIdx (min index list.length) element =
      list.take index ++ element :: list.drop index := by
  induction list generalizing index with
  | nil => simp
  | cons first rest ih =>
      cases index with
      | zero => simp
      | succ index =>
          rw [List.length_cons, Nat.succ_min_succ, List.insertIdx_succ_cons, ih]
          rfl

theorem runIn_perform (mutable : session.design.isFrozen bank = false) :
    runIn session (edit.perform bank) =
      match edit.onList (session.design.elements bank) with
      | .error fault => (.error fault, session)
      | .ok elements =>
          (.ok (edit.taken (session.design.elements bank)),
            { session with design := session.design.refilled bank elements }) := by
  cases edit with
  | set index element =>
      rw [perform, Build.runIn_bind, Bank.set, Bank.runIn_change mutable, onList]
      by_cases inside : index < (session.design.elements bank).length
      · simp only [inside, if_true]
        rfl
      · simp only [inside, if_false]
  | remove index =>
      rw [perform, Build.runIn_bind, Bank.remove, Bank.runIn_change mutable, onList]
      by_cases inside : index < (session.design.elements bank).length
      · simp only [List.getElem?_eq_getElem inside, inside, if_true, taken]
        rfl
      · simp only [List.getElem?_eq_none (Nat.le_of_not_lt inside), inside, if_false]
  | insert index element =>
      rw [perform, Build.runIn_bind, Bank.insert, Bank.runIn_change mutable, onList,
        insertIdx_min]
      rfl
  | push element =>
      rw [perform, Build.runIn_bind, Bank.push, Bank.runIn_change mutable, onList]
      rfl

theorem within_of_onList {list changed : List Element} {count : Nat}
    (made : edit.onList list = .ok changed) (inside : ∀ element ∈ list, element.Within count)
    (mentions : ∀ other, edit.Mentions other → other < count) :
    ∀ element ∈ changed, element.Within count := by
  cases edit with
  | set index element =>
      rw [onList] at made
      split at made
      · cases made
        intro other listed
        rcases List.mem_or_eq_of_mem_set listed with old | rfl
        · exact inside other old
        · exact mentions
      · cases made
  | remove index =>
      rw [onList] at made
      split at made
      · cases made
        intro other listed
        exact inside other (List.mem_of_mem_eraseIdx listed)
      · cases made
  | insert index element =>
      cases made
      intro other listed
      rcases (List.mem_insertIdx (Nat.min_le_right _ _)).mp listed with rfl | old
      · exact mentions
      · exact inside other old
  | push element =>
      cases made
      intro other listed
      rcases List.mem_append.mp listed with old | new
      · exact inside other old
      · rw [List.mem_singleton.mp new]
        exact mentions

end Edit

/-! ## Actions -/

/-- What is done with banks: a new one is made, one is edited or selected from, or a way is
taken from a lookup. -/
inductive Action where
  | new (elements : List Element)
  | edit (bank : Nat) (change : Edit)
  | select (bank : Nat) (index : Operand)
  | take (access : Access) (lookup : Lookup)

namespace Action

def perform : Action → Build Unit
  | .new elements => do let _ ← Build.newBank elements false
  | .edit bank change => do let _ ← change.perform bank
  | .select bank index => do let _ ← Bank.select bank index
  | .take access lookup => do let _ ← access.take lookup

def after (action : Action) (session : Session) : Session := (runIn session action.perform).2

def runAll : List Action → Session → Session
  | [], session => session
  | action :: rest, session => runAll rest (action.after session)

/-- The banks that an action names; those of an index do not count. -/
def Mentions (bank : Nat) : Action → Prop
  | .new elements => ∃ element ∈ elements, element.Mentions bank
  | .edit target change => bank = target ∨ change.Mentions bank
  | .select target _ => bank = target
  | .take _ lookup => bank = lookup.bank

/-- Every action names only banks that exist by then. -/
def Grounded : List Action → Session → Prop
  | [], _ => True
  | action :: rest, session =>
      (∀ bank, action.Mentions bank → bank < session.design.banks.size) ∧
        Grounded rest (action.after session)

def onList (bank : Nat) : Action → List Element → List Element
  | .edit target change, list =>
      if target = bank then
        match change.onList list with
        | .ok changed => changed
        | .error _ => list
      else list
  | _, list => list

variable {session : Session} {action : Action} {bank : Nat}

theorem runAll_append (earlier later : List Action) (session : Session) :
    runAll (earlier ++ later) session = runAll later (runAll earlier session) := by
  induction earlier generalizing session with
  | nil => rfl
  | cons action rest ih => exact ih (action.after session)

theorem grounded_append {earlier later : List Action} :
    Grounded (earlier ++ later) session ↔
      Grounded earlier session ∧ Grounded later (runAll earlier session) := by
  induction earlier generalizing session with
  | nil => simp [Grounded, runAll]
  | cons action rest ih =>
      rw [List.cons_append, Grounded, Grounded, ih, and_assoc]
      rfl

theorem after_new {elements : List Element} :
    (new elements).after session =
      { session with design := session.design.withBank elements false } := rfl

theorem after_edit {change : Edit} :
    (edit bank change).after session = (runIn session (change.perform bank)).2 :=
  Build.snd_runIn_bind_pure

theorem after_select {index : Operand} :
    (select bank index).after session = (runIn session (Bank.select bank index)).2 :=
  Build.snd_runIn_bind_pure

theorem after_take {access : Access} {lookup : Lookup} :
    (take access lookup).after session = (runIn session (access.take lookup)).2 :=
  Build.snd_runIn_bind_pure

end Action

/-! ## What an action leaves as it was -/

/-- A design after actions: no bank is lost or thawed, and frozen banks keep their elements. -/
structure Design.Follows (later earlier : Design) : Prop where
  values : later.values = earlier.values
  size : earlier.banks.size ≤ later.banks.size
  frozen {bank : Nat} (frozen : earlier.isFrozen bank = true) : later.isFrozen bank = true
  settled {bank : Nat} (frozen : earlier.isFrozen bank = true) :
    later.elements bank = earlier.elements bank

namespace Design

theorem Follows.refl (design : Design) : design.Follows design :=
  ⟨rfl, Nat.le_refl _, fun frozen => frozen, fun _ => rfl⟩

theorem Follows.trans {last middle first : Design} (left : last.Follows middle)
    (right : middle.Follows first) : last.Follows first where
  values := left.values.trans right.values
  size := Nat.le_trans right.size left.size
  frozen frozen := left.frozen (right.frozen frozen)
  settled frozen := (left.settled (right.frozen frozen)).trans (right.settled frozen)

theorem Extends.follows {later earlier : Design} (grows : later.Extends earlier) :
    later.Follows earlier where
  values := grows.values
  size := grows.size
  frozen := grows.frozen
  settled frozen := grows.elements (lt_size_of_isFrozen frozen)

end Design

namespace Action

variable {session : Session} {action : Action} {bank : Nat}

structure Kept (action : Action) (session : Session) : Prop where
  closed : (action.after session).design.Closed
  follows : (action.after session).design.Follows session.design
  elements {bank : Nat} (stored : bank < session.design.banks.size)
    (mutable : session.design.isFrozen bank = false) :
    (action.after session).design.elements bank =
      action.onList bank (session.design.elements bank)

private theorem kept_of_extends (closed : (action.after session).design.Closed)
    (grows : (action.after session).design.Extends session.design)
    (noEdit : ∀ bank list, action.onList bank list = list) : action.Kept session where
  closed := closed
  follows := grows.follows
  elements stored _ := by rw [noEdit, grows.elements stored]

private theorem kept_edit {change : Edit} (closed : session.design.Closed)
    (stored : bank < session.design.banks.size)
    (inside : ∀ other, change.Mentions other → other < session.design.banks.size) :
    (edit bank change).Kept session := by
  cases frozen : session.design.isFrozen bank with
  | true =>
      have same : (edit bank change).after session = session := by
        rw [after_edit, Edit.runIn_perform_of_frozen frozen]
      refine ⟨by rwa [same], by rw [same]; exact .refl _, ?_⟩
      intro other _ mutable
      have different : bank ≠ other := by
        rintro rfl
        rw [frozen] at mutable
        cases mutable
      rw [same, onList, if_neg different]
  | false =>
      have run : (edit bank change).after session = _ := after_edit
      rw [Edit.runIn_perform frozen] at run
      cases made : change.onList (session.design.elements bank) with
      | error fault =>
          rw [made] at run
          dsimp only at run
          refine ⟨by rwa [run], by rw [run]; exact .refl _, ?_⟩
          intro other _ _
          rw [run, onList]
          by_cases same : bank = other
          · rw [if_pos same, ← same, made]
          · rw [if_neg same]
      | ok changed =>
          rw [made] at run
          dsimp only at run
          have within := Edit.within_of_onList made (closed bank) inside
          refine ⟨by rw [run]; exact closed.refilled stored within, ?_, ?_⟩
          · rw [run]
            refine ⟨rfl, by simp, by simp, ?_⟩
            intro other otherFrozen
            have different : other ≠ bank := by
              rintro rfl
              rw [frozen] at otherFrozen
              cases otherFrozen
            exact Design.elements_refilled_other different
          · intro other _ _
            rw [run, onList]
            by_cases same : bank = other
            · rw [if_pos same, ← same, made]
              exact Design.elements_refilled_self stored
            · rw [if_neg same]
              exact Design.elements_refilled_other (Ne.symm same)

theorem kept (closed : session.design.Closed)
    (inside : ∀ bank, action.Mentions bank → bank < session.design.banks.size) :
    action.Kept session := by
  cases action with
  | new elements =>
      have within : ∀ element ∈ elements, element.Within session.design.banks.size := by
        intro element listed bank mentioned
        exact inside bank ⟨element, listed, mentioned⟩
      refine kept_of_extends ?_ ?_ fun _ _ => rfl
      · rw [after_new]
        exact closed.withBank within
      · rw [after_new]
        exact Design.extends_withBank _ _
  | edit bank change =>
      exact kept_edit closed (inside bank (Or.inl rfl)) fun other named =>
        inside other (Or.inr named)
  | select bank index =>
      have orderly := @Bank.orderly_select session bank index closed (inside bank rfl)
      refine kept_of_extends ?_ ?_ fun _ _ => rfl
      · rw [after_select]
        exact orderly.closed
      · rw [after_select]
        exact orderly.grows
  | take access lookup =>
      have orderly := @Access.orderly_take session access lookup closed (inside lookup.bank rfl)
      refine kept_of_extends ?_ ?_ fun _ _ => rfl
      · rw [after_take]
        exact orderly.closed
      · rw [after_take]
        exact orderly.grows

/-! ## What a history leaves as it was -/

theorem runAll_kept {actions : List Action} (closed : session.design.Closed)
    (grounded : Grounded actions session) :
    (runAll actions session).design.Closed ∧
      (runAll actions session).design.Follows session.design := by
  induction actions generalizing session with
  | nil => exact ⟨closed, .refl _⟩
  | cons action rest ih =>
      have here := kept closed grounded.1
      obtain ⟨done, follows⟩ := ih here.closed grounded.2
      exact ⟨done, follows.trans here.follows⟩

theorem elements_runAll {actions : List Action} (closed : session.design.Closed)
    (grounded : Grounded actions session) (stored : bank < session.design.banks.size)
    (mutable : (runAll actions session).design.isFrozen bank = false) :
    (runAll actions session).design.elements bank =
      actions.foldl (fun list action => action.onList bank list)
        (session.design.elements bank) := by
  induction actions generalizing session with
  | nil => rfl
  | cons action rest ih =>
      have here := kept closed grounded.1
      have follows := (runAll_kept closed grounded).2
      have mutableHere : session.design.isFrozen bank = false := by
        rw [Bool.eq_false_iff] at mutable ⊢
        exact fun frozen => mutable (follows.frozen frozen)
      have storedNext := Nat.lt_of_lt_of_le stored here.follows.size
      rw [List.foldl_cons, ← here.elements stored mutableHere]
      exact ih here.closed grounded.2 storedNext mutable

end Action

end Gateware
