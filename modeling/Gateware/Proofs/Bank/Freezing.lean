import Gateware.Proofs.Bank.History
import Gateware.Proofs.Bank.Mirror

/-!
# Freezing

Which actions freeze which banks.  A bank is frozen by a selection from it at an index that is
not known beforehand, and a bank that is made for a lookup in a frozen bank is frozen from the
start.  Nothing else freezes a bank, nothing thaws one, and until it is frozen a bank is an
ordinary list.
-/

set_option autoImplicit false

namespace Gateware

open Build (runIn Gives)

/-! ## Unknown indices -/

/-- The operand casts to a value that does not fold to a constant. -/
def Design.Unknown (design : Design) (index : Operand) : Prop :=
  ∃ value, design.cast index = .ok value ∧ value.isConstant = false

/-- The way goes on at an unknown index. -/
def Access.Unknown (design : Design) : Access → Prop
  | .item index => design.Unknown index
  | .field _ => False

theorem Design.not_unknown_int (design : Design) (number : Int) :
    ¬ design.Unknown (.int number) := by
  rintro ⟨value, found, unknown⟩
  cases found
  cases unknown

theorem Access.selects_of_unknown {design : Design} {index : Operand} {id : Nat}
    (unknown : design.Unknown index) : (Access.item index).Selects (.bank id) := by
  cases index with
  | int number => exact absurd unknown (design.not_unknown_int number)
  | _ => trivial

theorem Access.not_unknown_of_extends {access : Access} {earlier later : Design}
    (grows : later.Extends earlier) (closed : earlier.Closed)
    (rooted : ∀ root, access.Names earlier.values root → root < earlier.banks.size)
    (known : ¬ access.Unknown earlier) : ¬ access.Unknown later := by
  cases access with
  | field name => exact id
  | item index =>
      rintro ⟨value, found, unknown⟩
      have same := grows.concur_cast closed rooted
      rw [found] at same
      apply known
      cases cast : earlier.cast index with
      | error fault =>
          rw [cast] at same
          cases same
      | ok other =>
          rw [cast] at same
          cases same with
          | ok here => exact ⟨other, cast, here ▸ unknown⟩

/-! ## Events in a list of steps -/

/-- Something happens to an item of a list in the session in which its turn comes. -/
inductive Build.Occurs {α β : Type} (run : α → Build β) (event : α → Session → Prop) :
    List α → Session → Prop
  | here {item : α} {rest : List α} {session : Session} (now : event item session) :
      Occurs run event (item :: rest) session
  | later {item : α} {rest : List α} {session between : Session} {result : β}
      (first : Gives (run item) session result between)
      (others : Occurs run event rest between) : Occurs run event (item :: rest) session

namespace Build

variable {α β : Type} {run : α → Build β} {event : α → Session → Prop} {session : Session}

theorem not_occurs_nil : ¬ Occurs run event [] session := by
  intro occurs
  cases occurs

theorem occurs_cons_of_fault {first : α} {rest : List α} {fault : Fault} {between : Session}
    (ran : runIn session (run first) = (.error fault, between)) :
    Occurs run event (first :: rest) session ↔ event first session := by
  constructor
  · intro occurs
    cases occurs with
    | here now => exact now
    | later gives _ =>
        rw [Gives, ran] at gives
        cases gives
  · exact .here

theorem occurs_cons_of_gives {first : α} {rest : List α} {result : β} {between : Session}
    (ran : Gives (run first) session result between) :
    Occurs run event (first :: rest) session ↔
      event first session ∨ Occurs run event rest between := by
  constructor
  · intro occurs
    cases occurs with
    | here now => exact Or.inl now
    | later gives others =>
        rw [Gives, ran] at gives
        cases gives
        exact Or.inr others
  · rintro (now | others)
    · exact .here now
    · exact .later ran others

/-- What each step brings about by an event only, the whole list does so too. -/
theorem held_mapM {held keeps : Session → Prop} {given : List α} (start : keeps session)
    (step : ∀ item ∈ given, ∀ moment, keeps moment →
      keeps (runIn moment (run item)).2 ∧
        (held (runIn moment (run item)).2 ↔ held moment ∨ event item moment)) :
    held (runIn session (given.mapM run)).2 ↔ held session ∨ Occurs run event given session := by
  induction given generalizing session with
  | nil =>
      rw [List.mapM_nil, runIn_pure]
      simp [not_occurs_nil]
  | cons first rest ih =>
      obtain ⟨kept, here⟩ := step first List.mem_cons_self session start
      rw [List.mapM_cons, runIn_bind]
      cases ran : runIn session (run first) with
      | mk outcome between =>
          rw [ran] at kept here
          cases outcome with
          | error fault =>
              rw [occurs_cons_of_fault ran]
              exact here
          | ok result =>
              have tail := ih kept fun item later => step item (List.mem_cons_of_mem _ later)
              dsimp only
              rw [occurs_cons_of_gives ran, snd_runIn_bind_pure, tail, here, or_assoc]

theorem Occurs.exists_moment {keeps : Session → Prop} {given : List α}
    (occurs : Occurs run event given session) (start : keeps session)
    (step : ∀ item ∈ given, ∀ moment, keeps moment → keeps (runIn moment (run item)).2) :
    ∃ item ∈ given, ∃ moment, keeps moment ∧ event item moment := by
  induction occurs with
  | here now => exact ⟨_, List.mem_cons_self, _, start, now⟩
  | @later item rest session between result first others ih =>
      have kept := step item List.mem_cons_self session start
      rw [Gives] at first
      rw [first] at kept
      obtain ⟨found, listed, moment, there, now⟩ :=
        ih kept fun item below => step item (List.mem_cons_of_mem _ below)
      exact ⟨found, List.mem_cons_of_mem _ listed, moment, there, now⟩

end Build

/-! ## What freezes a bank -/

/-- Going into an element freezes a bank: the element is the bank, which is selected from at an
unknown index, or it is a lookup that is gone into in turn. -/
def Access.FreezesAt (access : Access) (bank : Nat) (below : Lookup → Session → Prop) :
    Element → Session → Prop
  | .bank id, session => bank = id ∧ access.Unknown session.design
  | .lookup source, session => below source session
  | _, _ => False

/-- Going into the elements of a lookup freezes a bank: going into one of them does, or the bank
is the one that is made for a lookup in a bank that is frozen by then. -/
def Access.FreezesWithin (access : Access) (bank : Nat) : Nat → Lookup → Session → Prop
  | 0, _, _ => False
  | levels + 1, lookup, session =>
      Build.Occurs (access.step (Lookup.mapWithin access.step levels))
          (access.FreezesAt bank (access.FreezesWithin bank levels))
          (session.design.elements lookup.bank) session ∨
        ∃ made between,
          Gives ((session.design.elements lookup.bank).mapM
              (access.step (Lookup.mapWithin access.step levels))) session made between ∧
            bank = between.design.banks.size ∧ between.design.isFrozen lookup.bank = true

/-- The action freezes a bank, or makes a frozen one. -/
def Action.Freezes (bank : Nat) : Action → Session → Prop
  | .select target index, session => bank = target ∧ session.design.Unknown index
  | .take access lookup, session =>
      access.FreezesWithin bank session.design.depth lookup session
  | .new _, _ | .edit _ _, _ => False

section Steps

variable {session : Session} {bank : Nat}

theorem Bank.isFrozen_select {target : Nat} {index : Operand}
    (stored : target < session.design.banks.size) :
    (runIn session (Bank.select target index)).2.design.isFrozen bank = true ↔
      session.design.isFrozen bank = true ∨ bank = target ∧ session.design.Unknown index := by
  rw [runIn_select]
  cases cast : session.design.cast index with
  | error fault =>
      have known : ¬ session.design.Unknown index := by
        rintro ⟨value, found, _⟩
        rw [cast] at found
        cases found
      simp [known]
  | ok value =>
      have unknown : session.design.Unknown index ↔ value.isConstant = false := by
        simp [Design.Unknown, cast]
      rw [unknown]
      cases constant : value.isConstant with
      | true => simp [constant]
      | false => simpa [constant] using Design.isFrozen_frozenAt stored

end Steps

namespace Access

variable {session : Session} {access : Access} {bank : Nat}

theorem isFrozen_step {onLookup : Lookup → Build Lookup} {element : Element}
    {below : Lookup → Session → Prop} (inside : element.Within session.design.banks.size)
    (lookups : ∀ source : Lookup, source.bank < session.design.banks.size →
      ((runIn session (onLookup source)).2.design.isFrozen bank = true ↔
        session.design.isFrozen bank = true ∨ below source session)) :
    (runIn session (access.step onLookup element)).2.design.isFrozen bank = true ↔
      session.design.isFrozen bank = true ∨ access.FreezesAt bank below element session := by
  rcases access.step_cases element with ⟨source, rfl⟩ | ⟨index, id, rfl, rfl, selects⟩ | plain
  · rw [runIn_step_lookup, Build.snd_runIn_bind_pure]
    exact lookups source (Element.within_lookup.mp inside)
  · rw [runIn_step_select selects, Build.snd_runIn_bind_pure]
    exact Bank.isFrozen_select (Element.within_bank.mp inside)
  · rw [runIn_step_read plain.1 plain.2]
    cases element with
    | bank id =>
        have known : ¬ access.Unknown session.design := by
          intro unknown
          cases access with
          | item index => exact plain.2 (selects_of_unknown unknown)
          | field name => exact unknown
        simp [FreezesAt, known]
    | lookup source => exact absurd rfl (plain.1 source)
    | _ => simp [FreezesAt]

private theorem kept_listed {levels : Nat} {moment : Session} {target : Nat} {element : Element}
    (closed : session.design.Closed) (listed : element ∈ session.design.elements target)
    (kept : moment.design.Closed ∧ moment.design.Extends session.design) :
    (runIn moment (access.step (Lookup.mapWithin access.step levels) element)).2.design.Closed ∧
      (runIn moment (access.step (Lookup.mapWithin access.step levels) element)).2.design.Extends
        session.design := by
  have orderly := @orderly_listed session access levels target moment element closed listed
    kept.1 kept.2
  exact ⟨orderly.closed, orderly.grows.trans kept.2⟩

theorem isFrozen_mapWithin {levels : Nat} {lookup : Lookup} (closed : session.design.Closed)
    (stored : lookup.bank < session.design.banks.size) :
    (runIn session (lookup.mapWithin access.step levels)).2.design.isFrozen bank = true ↔
      session.design.isFrozen bank = true ∨
        access.FreezesWithin bank levels lookup session := by
  induction levels generalizing session lookup with
  | zero =>
      rw [show lookup.mapWithin access.step 0 = throw .endlessBank from rfl,
        Build.runIn_throw]
      simp [FreezesWithin]
  | succ levels ih =>
      have elements : (runIn session ((session.design.elements lookup.bank).mapM
            (access.step (Lookup.mapWithin access.step levels)))).2.design.isFrozen bank = true ↔
          session.design.isFrozen bank = true ∨
            Build.Occurs (access.step (Lookup.mapWithin access.step levels))
              (access.FreezesAt bank (access.FreezesWithin bank levels))
              (session.design.elements lookup.bank) session := by
        apply @Build.held_mapM _ _ _ _ _ (fun moment => moment.design.isFrozen bank = true)
          (fun moment => moment.design.Closed ∧ moment.design.Extends session.design)
        · exact ⟨closed, .refl _⟩
        · intro element listed moment kept
          refine ⟨kept_listed closed listed kept, ?_⟩
          exact isFrozen_step ((closed lookup.bank element listed).mono kept.2.size)
            fun source sourceStored => ih kept.1 sourceStored
      rw [Lookup.mapWithin_succ, Build.runIn_bind, FreezesWithin, ← or_assoc, ← elements]
      cases ran : runIn session ((session.design.elements lookup.bank).mapM
          (access.step (Lookup.mapWithin access.step levels))) with
      | mk outcome between =>
          cases outcome with
          | error fault =>
              simp [Gives, ran]
          | ok made =>
              dsimp only
              rw [Lookup.runIn_derive]
              simp [Gives, ran, Design.isFrozen_withBank]

theorem isFrozen_take {lookup : Lookup} (closed : session.design.Closed)
    (stored : lookup.bank < session.design.banks.size) :
    (runIn session (access.take lookup)).2.design.isFrozen bank = true ↔
      session.design.isFrozen bank = true ∨
        access.FreezesWithin bank session.design.depth lookup session := by
  rw [runIn_take]
  exact isFrozen_mapWithin closed stored

theorem not_freezesWithin_of_known {levels : Nat} {lookup : Lookup}
    (closed : session.design.Closed) (stored : bank < session.design.banks.size)
    (known : ∀ later : Design, later.Extends session.design → ¬ access.Unknown later) :
    ¬ access.FreezesWithin bank levels lookup session := by
  induction levels generalizing session lookup with
  | zero => exact id
  | succ levels ih =>
      rw [FreezesWithin]
      rintro (occurs | ⟨made, between, gives, rfl, _⟩)
      · obtain ⟨element, _, moment, ⟨momentClosed, grows⟩, now⟩ :=
          @Build.Occurs.exists_moment _ _ _ _ _ (fun moment => moment.design.Closed ∧
            moment.design.Extends session.design) _ occurs ⟨closed, .refl _⟩
            fun element listed moment kept => kept_listed closed listed kept
        cases element with
        | bank id => exact known moment.design grows now.2
        | lookup source =>
            exact ih momentClosed (Nat.lt_of_lt_of_le stored grows.size)
              (fun later extended => known later (extended.trans grows)) now
        | _ => exact now
      · have grows := (@orderly_elements session access (Lookup.mapWithin access.step levels)
          lookup.bank closed fun _ _ momentClosed inside =>
            orderly_mapWithin momentClosed inside).grows
        rw [Gives] at gives
        rw [gives] at grows
        exact absurd stored (Nat.not_lt_of_le grows.size)

end Access

namespace Action

variable {session : Session} {bank : Nat}

theorem isFrozen_after {action : Action} (closed : session.design.Closed)
    (inside : ∀ bank, action.Mentions bank → bank < session.design.banks.size) :
    (action.after session).design.isFrozen bank = true ↔
      session.design.isFrozen bank = true ∨ action.Freezes bank session := by
  cases action with
  | new elements =>
      rw [after_new, Freezes, Design.isFrozen_withBank]
      simp
  | edit target change =>
      rw [after_edit, Freezes, or_false]
      cases frozen : session.design.isFrozen target with
      | true => rw [Edit.runIn_perform_of_frozen frozen]
      | false =>
          rw [Edit.runIn_perform frozen]
          cases change.onList (session.design.elements target) with
          | error fault => exact Iff.rfl
          | ok changed => simp
  | select target index =>
      rw [after_select]
      exact Bank.isFrozen_select (inside target rfl)
  | take access lookup =>
      rw [after_take]
      exact Access.isFrozen_take closed (inside lookup.bank rfl)

private theorem exists_split_cons {first : Action} {rest : List Action}
    {claim : List Action → Action → Prop} :
    (∃ earlier action later, first :: rest = earlier ++ action :: later ∧ claim earlier action) ↔
      claim [] first ∨
        ∃ earlier action later, rest = earlier ++ action :: later ∧
          claim (first :: earlier) action := by
  constructor
  · rintro ⟨earlier, action, later, split, holds⟩
    cases earlier with
    | nil =>
        cases split
        exact Or.inl holds
    | cons start others =>
        cases split
        exact Or.inr ⟨others, action, later, rfl, holds⟩
  · rintro (holds | ⟨earlier, action, later, rfl, holds⟩)
    · exact ⟨[], first, rest, rfl, holds⟩
    · exact ⟨first :: earlier, action, later, rfl, holds⟩

theorem isFrozen_runAll {actions : List Action} (closed : session.design.Closed)
    (grounded : Grounded actions session) :
    (runAll actions session).design.isFrozen bank = true ↔
      session.design.isFrozen bank = true ∨
        ∃ earlier action later, actions = earlier ++ action :: later ∧
          action.Freezes bank (runAll earlier session) := by
  induction actions generalizing session with
  | nil => simp [runAll]
  | cons action rest ih =>
      rw [exists_split_cons, ← or_assoc]
      exact (ih (kept closed grounded.1).closed grounded.2).trans
        (or_congr (isFrozen_after closed grounded.1) Iff.rfl)

/-! ## The course of a history -/

/-- What becomes of banks by actions: which of them freeze, that those stay frozen and refuse
edits, and that the others are edited as lists are. -/
structure Freezing (actions : List Action) (start : Session) : Prop where
  frozen_iff (bank : Nat) : (runAll actions start).design.isFrozen bank = true ↔
    ∃ earlier action later, actions = earlier ++ action :: later ∧
      action.Freezes bank (runAll earlier start)
  select_known {index : Operand} (known : ¬ (runAll actions start).design.Unknown index)
    (target bank : Nat) :
    ((select target index).after (runAll actions start)).design.isFrozen bank =
      (runAll actions start).design.isFrozen bank
  take_known {access : Access} (known : ¬ access.Unknown (runAll actions start).design)
    (rooted : ∀ root, access.Names (runAll actions start).design.values root →
      root < (runAll actions start).design.banks.size)
    {lookup : Lookup} (grounded : lookup.bank < (runAll actions start).design.banks.size)
    {bank : Nat} (stored : bank < (runAll actions start).design.banks.size) :
    ((take access lookup).after (runAll actions start)).design.isFrozen bank =
      (runAll actions start).design.isFrozen bank
  permanent {earlier later : List Action} (split : actions = earlier ++ later) {bank : Nat}
    (frozen : (runAll earlier start).design.isFrozen bank = true) :
    (runAll actions start).design.isFrozen bank = true ∧
      (runAll actions start).design.elements bank = (runAll earlier start).design.elements bank
  refused {bank : Nat} (frozen : (runAll actions start).design.isFrozen bank = true)
    (change : Edit) :
    runIn (runAll actions start) (change.perform bank) =
        (.error .frozenBank, runAll actions start) ∧ Fault.frozenBank.kind = .value
  edited {bank : Nat} (mutable : (runAll actions start).design.isFrozen bank = false)
    (change : Edit) :
    runIn (runAll actions start) (change.perform bank) =
      match change.onList ((runAll actions start).design.elements bank) with
      | .error fault => (.error fault, runAll actions start)
      | .ok elements =>
          (.ok (change.taken ((runAll actions start).design.elements bank)),
            { runAll actions start with
              design := (runAll actions start).design.refilled bank elements })
  listed {earlier later : List Action} (split : actions = earlier ++ later) {bank : Nat}
    (stored : bank < (runAll earlier start).design.banks.size)
    (mutable : (runAll actions start).design.isFrozen bank = false) :
    (runAll actions start).design.elements bank =
      later.foldl (fun list action => action.onList bank list)
        ((runAll earlier start).design.elements bank)
  new {earlier later : List Action} {elements : List Element}
    (split : actions = earlier ++ .new elements :: later)
    (mutable : (runAll actions start).design.isFrozen
      (runAll earlier start).design.banks.size = false) :
    (runAll actions start).design.elements (runAll earlier start).design.banks.size =
      later.foldl
        (fun list action => action.onList (runAll earlier start).design.banks.size list) elements

private theorem closed_of_empty (empty : session.design.banks = #[]) : session.design.Closed := by
  intro bank element listed
  have stored := Design.lt_size_of_mem listed
  simp [empty] at stored

/-- Banks freeze exactly when they are selected from at an unknown index, or made for a lookup in
a frozen bank.  They stay frozen, and are ordinary lists until then. -/
theorem freezing_runAll {actions : List Action} (empty : session.design.banks = #[])
    (grounded : Grounded actions session) : Freezing actions session where
  frozen_iff bank := by
    have unfrozen : session.design.isFrozen bank = false := by
      simp [Design.isFrozen, empty]
    rw [isFrozen_runAll (closed_of_empty empty) grounded, unfrozen]
    simp
  select_known := by
    intro index known target bank
    rw [after_select, Bank.runIn_select]
    cases cast : (runAll actions session).design.cast index with
    | error fault => rfl
    | ok value =>
        have constant : value.isConstant = true := by
          rw [← Bool.not_eq_false]
          exact fun unknown => known ⟨value, cast, unknown⟩
        simp only [constant, if_true]
  take_known := by
    intro access known rooted lookup inside bank stored
    have closed := (runAll_kept (closed_of_empty empty) grounded).1
    rw [Bool.eq_iff_iff, after_take, Access.isFrozen_take closed inside]
    exact or_iff_left (Access.not_freezesWithin_of_known closed stored fun later grows =>
      Access.not_unknown_of_extends grows closed rooted known)
  permanent := by
    rintro earlier later rfl bank frozen
    obtain ⟨before, after⟩ := grounded_append.mp grounded
    have closed := (runAll_kept (closed_of_empty empty) before).1
    have follows := (runAll_kept closed after).2
    rw [runAll_append]
    exact ⟨follows.frozen frozen, follows.settled frozen⟩
  refused := fun frozen _ => ⟨Edit.runIn_perform_of_frozen frozen, rfl⟩
  edited := fun mutable _ => Edit.runIn_perform mutable
  listed := by
    rintro earlier later rfl bank stored mutable
    obtain ⟨before, after⟩ := grounded_append.mp grounded
    rw [runAll_append] at mutable ⊢
    exact elements_runAll (runAll_kept (closed_of_empty empty) before).1 after stored mutable
  new := by
    rintro earlier later elements rfl mutable
    obtain ⟨before, here, after⟩ := grounded_append.mp grounded
    have closed := (runAll_kept (closed_of_empty empty) before).1
    rw [runAll_append] at mutable ⊢
    rw [runAll] at mutable ⊢
    rw [elements_runAll (kept closed here).closed after _ mutable, after_new,
      Design.elements_withBank_new]
    rw [after_new, Design.size_withBank]
    exact Nat.lt_succ_self _

/-- A bank inside a bank is selected from through a lookup at a constant, and pushed to. -/
def throughLookup : List Action :=
  [.new [.int 1, .int 2], .new [.bank 0], .select 1 (.int 0),
    .take (.item (.value (.signal ⟨0, "i", Shape.unsigned 1⟩))) ⟨1, Value.ofInt 0⟩,
    .edit 0 (.push (.int 3))]

/-- The inner bank is frozen and keeps its two elements, the outer one can still be edited. -/
theorem freezing_throughLookup :
    (({} : Session).design.banks = #[] ∧ Grounded throughLookup {}) ∧
      (∃ earlier action later, throughLookup = earlier ++ action :: later ∧
        action.Freezes 0 (runAll earlier {})) ∧
      (runAll throughLookup {}).design.elements 0 = [.int 1, .int 2] ∧
      ¬ (∃ earlier action later, throughLookup = earlier ++ action :: later ∧
        action.Freezes 1 (runAll earlier {})) := by
  have grounded : Grounded throughLookup {} := by
    refine ⟨?_, ?_, ?_, ?_, ?_, trivial⟩
    · rintro bank ⟨element, listed, mentioned⟩
      simp only [List.mem_cons, List.not_mem_nil, or_false] at listed
      rcases listed with rfl | rfl <;> cases mentioned
    · rintro bank ⟨element, listed, mentioned⟩
      rw [List.mem_singleton.mp listed] at mentioned
      cases mentioned
      exact Nat.zero_lt_one
    · rintro bank rfl
      exact Nat.lt_succ_self 1
    · rintro bank rfl
      exact Nat.lt_succ_self 1
    · rintro bank (rfl | mentioned)
      · exact Nat.zero_lt_succ 2
      · cases mentioned
  have course := @freezing_runAll {} throughLookup rfl grounded
  have inner : (runAll throughLookup {}).design.isFrozen 0 = true := by rfl
  have outer : (runAll throughLookup {}).design.isFrozen 1 = false := by rfl
  refine ⟨⟨rfl, grounded⟩, (course.frozen_iff 0).mp inner, ?_, ?_⟩
  · rfl
  · rw [← course.frozen_iff 1, outer]
    simp

end Action

end Gateware
