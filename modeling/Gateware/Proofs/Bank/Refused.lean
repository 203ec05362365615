import Gateware.Proofs.Bank.Freezing
import Gateware.Proofs.Bank.Nesting

/-!
# Refused accesses

What a failed access to the elements of a lookup leaves behind.  No bank gets other elements and
none thaws.  An access at an unknown index selects from one bank after the other, and those that
it has met before the element at which it fails stay frozen; all other accesses leave every bank
as it was.
-/

set_option autoImplicit false

namespace Gateware

open Build (runIn Gives)

/-! ## Lists of steps -/

namespace Build

variable {α β : Type} {run : α → Build β} {event : α → Session → Prop} {session : Session}
  {keeps : Session → Prop} {passes happens : α → Prop}

/-- The step gives a result, whatever it leaves. -/
def Succeeds (step : Build β) (session : Session) : Prop :=
  ∃ result, (runIn session step).1 = .ok result

theorem succeeds_iff_gives {step : Build β} :
    Succeeds step session ↔ ∃ result after, Gives step session result after := by
  constructor
  · intro ⟨result, gives⟩
    exact ⟨result, (runIn session step).2, Prod.ext gives rfl⟩
  · intro ⟨result, after, gives⟩
    exact ⟨result, congrArg Prod.fst gives⟩

theorem succeeds_congr {step other : Build β} (same : runIn session step = runIn session other) :
    Succeeds step session ↔ Succeeds other session := by
  rw [Succeeds, Succeeds, same]

theorem succeeds_bind_iff {step : Build α} {next : α → Build β}
    (goes : ∀ middle between, Succeeds (next middle) between) :
    Succeeds (step >>= next) session ↔ Succeeds step session := by
  rw [Succeeds, runIn_bind, Succeeds]
  cases runIn session step with
  | mk outcome between =>
      cases outcome with
      | error fault => exact ⟨nofun, nofun⟩
      | ok middle => exact ⟨fun _ => ⟨middle, rfl⟩, fun _ => goes middle between⟩

theorem succeeds_mapM_iff {given : List α} (start : keeps session)
    (step : ∀ item ∈ given, ∀ moment, keeps moment →
      keeps (runIn moment (run item)).2 ∧ (Succeeds (run item) moment ↔ passes item)) :
    Succeeds (given.mapM run) session ↔ ∀ item ∈ given, passes item := by
  induction given generalizing session with
  | nil =>
      rw [List.mapM_nil]
      exact ⟨fun _ => nofun, fun _ => ⟨[], rfl⟩⟩
  | cons first rest ih =>
      obtain ⟨kept, here⟩ := step first List.mem_cons_self session start
      have later := fun item below => step item (List.mem_cons_of_mem _ below)
      rw [List.mapM_cons, List.forall_mem_cons, ← here]
      cases ran : runIn session (run first) with
      | mk outcome between =>
          rw [ran] at kept
          cases outcome with
          | error fault =>
              rw [Succeeds, runIn_bind_of_fault ran, Succeeds, ran]
              simp
          | ok result =>
              rw [← ih kept later]
              have gives : Gives (run first) session result between := ran
              rw [Succeeds, gives.runIn_bind, runIn_bind, Succeeds, ran, Succeeds]
              cases runIn between (rest.mapM run) with
              | mk outcome last => cases outcome <;> simp

theorem occurs_iff {given : List α} (start : keeps session)
    (step : ∀ item ∈ given, ∀ moment, keeps moment →
      keeps (runIn moment (run item)).2 ∧ (Succeeds (run item) moment ↔ passes item) ∧
        (event item moment ↔ happens item)) :
    Occurs run event given session ↔ ∃ before item rest, given = before ++ item :: rest ∧
      (∀ earlier ∈ before, passes earlier) ∧ happens item := by
  constructor
  · intro occurs
    induction occurs with
    | here now =>
        obtain ⟨_, _, same⟩ := step _ List.mem_cons_self _ start
        exact ⟨[], _, _, rfl, nofun, same.mp now⟩
    | @later item rest session between result first _ ih =>
        obtain ⟨kept, succeeds, _⟩ := step item List.mem_cons_self session start
        rw [Gives] at first
        rw [first] at kept
        have passed := succeeds.mp ⟨result, congrArg Prod.fst first⟩
        obtain ⟨before, found, others, rfl, all, holds⟩ :=
          ih kept fun item below => step item (List.mem_cons_of_mem _ below)
        exact ⟨item :: before, found, others, rfl, List.forall_mem_cons.mpr ⟨passed, all⟩, holds⟩
  · intro found
    obtain ⟨before, item, rest, split, all, holds⟩ := found
    induction before generalizing session given with
    | nil =>
        subst split
        exact .here ((step item List.mem_cons_self session start).2.2.mpr holds)
    | cons first before ih =>
        subst split
        obtain ⟨passed, later⟩ := List.forall_mem_cons.mp all
        obtain ⟨kept, succeeds, _⟩ := step first List.mem_cons_self session start
        obtain ⟨result, between, gives⟩ := succeeds_iff_gives.mp (succeeds.mpr passed)
        rw [Gives] at gives
        rw [gives] at kept
        exact .later gives (ih kept (fun item below => step item (List.mem_cons_of_mem _ below))
          rfl later)

end Build

/-! ## Selected banks -/

namespace Design

/-- An item at an unknown index can be taken of the element: it is a bank, or a lookup whose
elements are such elements, through so many levels. -/
def Selectable (design : Design) : Nat → Element → Prop
  | _, .bank _ => True
  | levels + 1, .lookup source =>
      ∀ element ∈ design.elements source.bank, design.Selectable levels element
  | _, _ => False

/-- An item at an unknown index of the element selects from the bank: the element is that bank,
or a lookup with such an element, before which all others can be selected from. -/
def Selects (design : Design) (bank : Nat) : Nat → Element → Prop
  | _, .bank id => bank = id
  | levels + 1, .lookup source => ∃ before element rest,
      design.elements source.bank = before ++ element :: rest ∧
        (∀ earlier ∈ before, design.Selectable levels earlier) ∧
          design.Selects bank levels element
  | _, _ => False

theorem Unknown.extends {earlier later : Design} {index : Operand}
    (unknown : earlier.Unknown index) (grows : later.Extends earlier) (closed : earlier.Closed)
    (rooted : ∀ root, index.Names earlier.values root → root < earlier.banks.size) :
    later.Unknown index := by
  obtain ⟨value, found, varies⟩ := unknown
  have same := grows.concur_cast closed rooted
  rw [found] at same
  cases cast : later.cast index with
  | error fault =>
      rw [cast] at same
      cases same
  | ok other =>
      rw [cast] at same
      cases same with
      | ok here => exact ⟨other, cast, here ▸ varies⟩

end Design

namespace Access

variable {origin : Design} {access : Access} {index : Operand} {bank levels : Nat}
  {element : Element} {moment : Session}

theorem exists_fault_of_unknown {design : Design} (unknown : design.Unknown index)
    (notBank : ∀ id, element ≠ .bank id) :
    ∃ fault, (Access.item index).read design element = .error fault := by
  have failed {value : Except Fault Value} :
      ∃ fault, (do
        let index ← design.cast index
        let value ← value
        (value.index (.value index)).map Element.value) = .error fault := by
    obtain ⟨position, found, _⟩ := unknown
    rw [found]
    cases value with
    | error fault => exact ⟨fault, rfl⟩
    | ok value => exact ⟨_, rfl⟩
  cases index with
  | int number => exact absurd unknown (design.not_unknown_int number)
  | _ =>
      cases element with
      | bank id => exact absurd rfl (notBank id)
      | _ => exact failed

theorem kept_step (kept : moment.design.Closed ∧ moment.design.Extends origin)
    (inside : element.Within origin.banks.size) :
    (runIn moment (access.step (Lookup.mapWithin access.step levels) element)).2.design.Closed ∧
      (runIn moment (access.step (Lookup.mapWithin access.step levels) element)).2.design.Extends
        origin := by
  have orderly : Build.Orderly moment (access.step (Lookup.mapWithin access.step levels) element)
      Element.Within :=
    orderly_step kept.1 (inside.mono kept.2.size) fun _ stored => orderly_mapWithin kept.1 stored
  exact ⟨orderly.closed, orderly.grows.trans kept.2⟩

theorem succeeds_step_iff {onLookup : Lookup → Build Lookup} (unknown : moment.design.Unknown index)
    (lookups : ∀ source, element = .lookup source →
      (Build.Succeeds (onLookup source) moment ↔ origin.Selectable levels (.lookup source))) :
    Build.Succeeds ((item index).step onLookup element) moment ↔
      origin.Selectable levels element := by
  rcases (item index).step_cases element with
    ⟨source, rfl⟩ | ⟨_, id, same, rfl, selects⟩ | ⟨notLookup, notSelect⟩
  · rw [Build.succeeds_congr runIn_step_lookup, ← lookups source rfl]
    exact Build.succeeds_bind_iff fun _ _ => ⟨_, rfl⟩
  · cases same
    obtain ⟨position, found, _⟩ := unknown
    have selected : Build.Succeeds (Bank.select id index) moment :=
      ⟨⟨id, position⟩, by rw [Bank.runIn_select, found]⟩
    have always : origin.Selectable levels (.bank id) := by cases levels <;> trivial
    rw [Build.succeeds_congr (runIn_step_select selects), iff_true_right always]
    exact (Build.succeeds_bind_iff fun _ _ => ⟨_, rfl⟩).mpr selected
  · have notBank : ∀ id, element ≠ .bank id := by
      intro id isBank
      subst isBank
      exact notSelect (selects_of_unknown unknown)
    obtain ⟨fault, refused⟩ := exists_fault_of_unknown unknown notBank
    have never : ¬ origin.Selectable levels element := by
      cases element with
      | bank id => exact absurd rfl (notBank id)
      | lookup source => exact absurd rfl (notLookup source)
      | _ => cases levels <;> exact id
    rw [Build.Succeeds, runIn_step_read notLookup notSelect, refused]
    simp [never]

theorem freezesAt_iff {below : Lookup → Session → Prop} (unknown : moment.design.Unknown index)
    (lookups : ∀ source, element = .lookup source →
      (below source moment ↔ origin.Selects bank levels (.lookup source))) :
    (item index).FreezesAt bank below element moment ↔ origin.Selects bank levels element := by
  cases element with
  | bank id =>
      have here : origin.Selects bank levels (.bank id) ↔ bank = id := by cases levels <;> rfl
      rw [here]
      exact and_iff_left unknown
  | lookup source => exact lookups source rfl
  | _ => cases levels <;> rfl

section Unknown

variable (closed : origin.Closed) (unknown : origin.Unknown index)
  (rooted : ∀ root, index.Names origin.values root → root < origin.banks.size)

include closed unknown rooted

/-- An item of a lookup at an unknown index succeeds if all elements can be selected from, and
freezes, of the banks that there were, those that it selects from. -/
theorem mapWithin_iff {source : Lookup}
    (kept : moment.design.Closed ∧ moment.design.Extends origin)
    (stored : source.bank < origin.banks.size) (bankStored : bank < origin.banks.size) :
    (Build.Succeeds (source.mapWithin (item index).step levels) moment ↔
        origin.Selectable levels (.lookup source)) ∧
      ((item index).FreezesWithin bank levels source moment ↔
        origin.Selects bank levels (.lookup source)) := by
  induction levels generalizing source moment with
  | zero =>
      refine ⟨⟨?_, False.elim⟩, Iff.rfl⟩
      intro given
      obtain ⟨result, gives⟩ := given
      cases gives
  | succ levels ih =>
      have step : ∀ element ∈ origin.elements source.bank, ∀ moment : Session,
          moment.design.Closed ∧ moment.design.Extends origin →
          ((runIn moment ((item index).step (Lookup.mapWithin (item index).step levels)
              element)).2.design.Closed ∧
            (runIn moment ((item index).step (Lookup.mapWithin (item index).step levels)
              element)).2.design.Extends origin) ∧
          (Build.Succeeds ((item index).step (Lookup.mapWithin (item index).step levels) element)
            moment ↔ origin.Selectable levels element) ∧
          ((item index).FreezesAt bank ((item index).FreezesWithin bank levels) element moment ↔
            origin.Selects bank levels element) := by
        intro element listed moment kept
        have inside := closed source.bank element listed
        have now := unknown.extends kept.2 closed rooted
        have below : ∀ inner, element = .lookup inner → _ :=
          fun inner isLookup => ih kept (Element.within_lookup.mp (isLookup ▸ inside))
        exact ⟨kept_step kept inside,
          succeeds_step_iff now fun inner isLookup => (below inner isLookup).1,
          freezesAt_iff now fun inner isLookup => (below inner isLookup).2⟩
      have elements := kept.2.elements stored
      constructor
      · rw [Build.succeeds_congr Lookup.mapWithin_succ, Design.Selectable,
          Build.succeeds_bind_iff fun _ _ => ⟨_, congrArg Prod.fst Lookup.runIn_derive⟩, elements]
        exact Build.succeeds_mapM_iff kept fun element listed moment kept =>
          ⟨(step element listed moment kept).1, (step element listed moment kept).2.1⟩
      · rw [FreezesWithin, Design.Selects, ← Build.occurs_iff kept step, elements]
        apply or_iff_left
        -- The bank that is made for the result is a new one.
        intro derived
        obtain ⟨made, between, gives, same, _⟩ := derived
        rw [← elements] at gives
        have leads := Build.Orderly.leads (orderly_elements kept.1 fun _ _ closed inside =>
          orderly_mapWithin closed inside) gives
        have wider := Nat.le_trans kept.2.size leads.grows.size
        omega

end Unknown

/-! ## Failed accesses -/

theorem not_unknown_field (design : Design) (name : String) :
    ¬ (Access.field name).Unknown design := id

/-- A failed access to the elements of a lookup changes the elements of no bank and thaws none.
It leaves every bank as it was, unless it is an item at an unknown index: then some element cannot
be selected from, and of the banks that there were just those are frozen that were before or that
are selected from before that element.  Fields and items at integers are never of this kind. -/
theorem refused_take {session after : Session} {access : Access} {lookup : Lookup} {fault : Fault}
    (closed : session.design.Closed) (stored : lookup.bank < session.design.banks.size)
    (rooted : ∀ root, access.Names session.design.values root → root < session.design.banks.size)
    (failed : runIn session (access.take lookup) = (.error fault, after)) :
    (∀ bank < session.design.banks.size,
      after.design.elements bank = session.design.elements bank ∧
        (session.design.isFrozen bank = true → after.design.isFrozen bank = true)) ∧
    (¬ access.Unknown session.design → ∀ bank < session.design.banks.size,
      after.design.isFrozen bank = session.design.isFrozen bank) ∧
    (access.Unknown session.design →
      ¬ session.design.Selectable session.design.depth (.lookup lookup) ∧
      ∀ bank < session.design.banks.size, (after.design.isFrozen bank = true ↔
        session.design.isFrozen bank = true ∨
          session.design.Selects bank session.design.depth (.lookup lookup))) ∧
    (∀ name, ¬ (field name).Unknown session.design) ∧
    ∀ number, ¬ (item (.int number)).Unknown session.design := by
  have grows : after.design.Extends session.design := by
    have orderly := @orderly_take session access lookup closed stored
    have left := orderly.grows
    rwa [failed] at left
  have frozen (bank : Nat) : after.design.isFrozen bank = true ↔
      session.design.isFrozen bank = true ∨
        access.FreezesWithin bank session.design.depth lookup session := by
    have taken := @isFrozen_take session access bank lookup closed stored
    rwa [failed] at taken
  refine ⟨?_, ?known, ?unknown, not_unknown_field _, session.design.not_unknown_int⟩
  · intro bank inside
    exact ⟨grows.elements inside, grows.frozen⟩
  case known =>
    intro known bank inside
    rw [Bool.eq_iff_iff, frozen bank]
    exact or_iff_left (not_freezesWithin_of_known closed inside fun later wider =>
      not_unknown_of_extends wider closed rooted known)
  case unknown =>
    intro unknown
    cases access with
    | field name => exact unknown.elim
    | item index =>
        have here {bank : Nat} (inside : bank < session.design.banks.size) :=
          @mapWithin_iff session.design index bank session.design.depth session closed unknown
            rooted lookup ⟨closed, .refl _⟩ stored inside
        constructor
        · rw [← (here stored).1, ← Build.succeeds_congr runIn_take, Build.Succeeds, failed]
          exact nofun
        · intro bank inside
          rw [frozen bank, (here inside).2]

/-- A bank of two numbers, and one of that bank, a number and another bank. -/
def mixed : Session where
  design := { banks := #[{ elements := [.int 1, .int 2] },
    { elements := [.bank 0, .int 5, .bank 2] }, { elements := [.int 3] }] }

def mixedLookup : Lookup := ⟨1, .signal Bank.row⟩

def columnItem : Access := .item (.value (.signal Bank.column))

/-- The number refuses an item at a signal. -/
theorem refused_take_mixed :
    ∃ fault after, runIn mixed (columnItem.take mixedLookup) = (.error fault, after) ∧
      after.design.elements 0 = [.int 1, .int 2] ∧ after.design.isFrozen 0 = true ∧
      after.design.isFrozen 2 = false := by
  have closed : mixed.design.Closed := Design.closed_of_banks (by simp [mixed])
  have failed : runIn mixed (columnItem.take mixedLookup) = (.error _, _) := rfl
  have rooted : ∀ root, columnItem.Names mixed.design.values root →
      root < mixed.design.banks.size := nofun
  have unknown : columnItem.Unknown mixed.design := ⟨_, rfl, rfl⟩
  obtain ⟨kept, _, frozen, _⟩ := refused_take closed (by decide) rooted failed
  obtain ⟨_, frozen⟩ := frozen unknown
  refine ⟨_, _, failed, (kept 0 (by decide)).1, ?_, ?_⟩
  · exact (frozen 0 (by decide)).mpr (Or.inr ⟨[], .bank 0, _, rfl, nofun, rfl⟩)
  · rfl

/-- The bank before the number is frozen by the access that fails. -/
theorem frozen_by_refused_take :
    mixed.design.isFrozen 0 = false ∧
      ∃ fault after, runIn mixed (columnItem.take mixedLookup) = (.error fault, after) ∧
        after.design.isFrozen 0 = true :=
  ⟨rfl, _, _, rfl, rfl⟩

end Access

end Gateware
