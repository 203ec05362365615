import Gateware.Bank.Lookup
import Gateware.Proofs.Bank.Updates
import Gateware.Proofs.Session

/-!
# Steps on banks

What editing, selecting and taking items and fields come to in a session.  Items and
fields are two ways to go into the elements of a lookup; both only add banks and freeze
them, and never lead out of the banks that exist.
-/

set_option autoImplicit false

namespace Gateware

open Build (runIn Gives)

variable {session : Session}

/-! ## Single banks -/

namespace Bank

variable {bank : Nat}

theorem mem_of_elementAt {α : Type} {elements : List α} {index : Int} {element : α}
    (found : elementAt elements index = .ok element) : element ∈ elements := by
  obtain ⟨position, _, rest⟩ := bind_eq_ok.mp found
  split at rest
  · rename_i picked stored
    cases rest
    exact List.mem_of_getElem? stored
  · cases rest

theorem runIn_change_of_frozen {α : Type} {edit : List Element → Except Fault (List Element × α)}
    (frozen : session.design.isFrozen bank = true) :
    runIn session (change bank edit) = (.error .frozenBank, session) := by
  rw [change, Build.runIn_bind, Build.runIn_design]
  simp only [frozen, if_true]
  rfl

theorem runIn_change {α : Type} {edit : List Element → Except Fault (List Element × α)}
    (mutable : session.design.isFrozen bank = false) :
    runIn session (change bank edit) =
      match edit (session.design.elements bank) with
      | .error fault => (.error fault, session)
      | .ok (elements, result) =>
          (.ok result, { session with design := session.design.refilled bank elements }) := by
  rw [change, Build.runIn_bind, Build.runIn_design]
  simp only [mutable, Bool.false_eq_true, if_false]
  rw [Build.runIn_bind, Build.runIn_ofExcept]
  cases edit (session.design.elements bank) <;> rfl

theorem runIn_select {index : Operand} :
    runIn session (select bank index) =
      match session.design.cast index with
      | .error fault => (.error fault, session)
      | .ok value =>
          (.ok ⟨bank, value⟩,
            if value.isConstant then session
            else { session with design := session.design.frozenAt bank }) := by
  rw [select, Build.runIn_bind, Build.runIn_cast]
  cases session.design.cast index with
  | error fault => rfl
  | ok value =>
      cases constant : value.isConstant with
      | false =>
          simp only [constant, Bool.not_false, Bool.false_eq_true, if_true, if_false]
          rfl
      | true =>
          simp only [constant, Bool.not_true, Bool.false_eq_true, if_true, if_false]
          rfl

end Bank

/-! ## Ways into the elements of a lookup -/

/-- A way from a lookup into its elements: their items at an index, or their fields of a name. -/
inductive Access where
  | item (index : Operand)
  | field (name : String)

namespace Access

def step : Access → (Lookup → Build Lookup) → Element → Build Element
  | .item index, onLookup, element => element.itemWith onLookup index
  | .field name, onLookup, element => element.fieldWith onLookup name

def take : Access → Lookup → Build Lookup
  | .item index, lookup => lookup.item index
  | .field name, lookup => lookup.field name

def read (design : Design) : Access → Element → Except Fault Element
  | .item (.int number), .bank id => Bank.elementAt (design.elements id) number
  | .item (.int number), .record _ fields => (Bank.elementAt fields number).map Prod.snd
  | .item (.int number), element =>
      if number < Position.min ∨ Position.max < number then .error (.bankIndex number)
      else do
        let value ← design.elementValue element
        (value.index (.bit number)).map Element.value
  | .item index, element => do
      let index ← design.cast index
      let value ← design.elementValue element
      (value.index (.value index)).map Element.value
  | .field name, element =>
      match element.field? name with
      | some found => .ok found
      | none => .error (.noField (design.elementText element) name)

/-- An item of a bank at anything but an integer. -/
def Selects : Access → Element → Prop
  | .item (.int _), _ => False
  | .item _, .bank _ => True
  | _, _ => False

variable {access : Access} {onLookup : Lookup → Build Lookup}

theorem runIn_step_lookup {source : Lookup} :
    runIn session (access.step onLookup (.lookup source)) =
      runIn session (do return .lookup (← onLookup source)) := by
  cases access <;> rfl

theorem runIn_step_select {index : Operand} {id : Nat} (selects : (item index).Selects (.bank id)) :
    runIn session ((item index).step onLookup (.bank id)) =
      runIn session (do return .lookup (← Bank.select id index)) := by
  cases index with
  | int number => exact selects.elim
  | _ => rfl

theorem runIn_step_read {element : Element} (notLookup : ∀ source, element ≠ .lookup source)
    (notSelect : ¬ access.Selects element) :
    runIn session (access.step onLookup element) =
      (access.read session.design element, session) := by
  cases access with
  | field name =>
      cases element with
      | lookup source => exact absurd rfl (notLookup source)
      | record recordName fields =>
          simp only [step, Element.fieldWith, read]
          cases (Element.record recordName fields).field? name <;> rfl
      | _ => rfl
  | item index =>
      cases index with
      | int number =>
          cases element with
          | lookup source => exact absurd rfl (notLookup source)
          | bank id =>
              simp only [step, Element.itemWith, Build.runIn_bind, Build.runIn_design,
                Build.runIn_ofExcept, read]
          | record name fields =>
              simp only [step, Element.itemWith, Build.runIn_ofExcept, read]
          | _ =>
              simp only [step, Element.itemWith, read]
              split
              · rfl
              · rw [Build.runIn_bind, Build.runIn_design]
                exact Build.runIn_bind_of_unchanged Build.runIn_ofExcept fun _ =>
                  Build.runIn_ofExcept
      | _ =>
          cases element with
          | lookup source => exact absurd rfl (notLookup source)
          | bank id => exact absurd trivial notSelect
          | _ =>
              apply Build.runIn_bind_of_unchanged Build.runIn_cast
              intro index
              rw [Build.runIn_bind, Build.runIn_design]
              exact Build.runIn_bind_of_unchanged Build.runIn_ofExcept fun _ =>
                Build.runIn_ofExcept

/-- Every element is a lookup, a bank that is selected from, or is read as it is. -/
theorem step_cases (access : Access) (element : Element) :
    (∃ source, element = .lookup source) ∨
      (∃ index id, access = .item index ∧ element = .bank id ∧
        (item index).Selects (.bank id)) ∨
      (∀ source, element ≠ .lookup source) ∧ ¬ access.Selects element := by
  by_cases selects : access.Selects element
  · cases access with
    | field name => exact selects.elim
    | item index =>
        cases element with
        | bank id => exact Or.inr (Or.inl ⟨index, id, rfl, rfl, selects⟩)
        | _ => cases index <;> exact selects.elim
  · by_cases isLookup : ∃ source, element = .lookup source
    · exact Or.inl isLookup
    · exact Or.inr (Or.inr ⟨not_exists.mp isLookup, selects⟩)

theorem read_within {design : Design} {element result : Element} (closed : design.Closed)
    (inside : element.Within design.banks.size)
    (found : access.read design element = .ok result) : result.Within design.banks.size := by
  have picked {index : Except Fault Value} (made : index.map Element.value = .ok result) :
      result.Within design.banks.size := by
    obtain ⟨value, _, rfl⟩ := map_eq_ok.mp made
    exact Element.within_value value
  cases access with
  | field name =>
      rw [read] at found
      split at found
      · rename_i other known
        cases found
        cases element with
        | record recordName fields =>
            obtain ⟨field, search, rfl⟩ := Option.map_eq_some_iff.mp known
            exact inside.field (List.mem_of_find?_eq_some search)
        | _ => cases known
      · cases found
  | item index =>
      cases index with
      | int number =>
          cases element with
          | bank id =>
              rw [read] at found
              exact closed id result (Bank.mem_of_elementAt found)
          | record name fields =>
              rw [read] at found
              obtain ⟨field, search, rfl⟩ := map_eq_ok.mp found
              exact inside.field (Bank.mem_of_elementAt search)
          | _ =>
              rw [read] at found
              split at found
              · cases found
              · obtain ⟨value, _, made⟩ := bind_eq_ok.mp found
                exact picked made
              all_goals simp
      | _ =>
          rw [read] at found
          · obtain ⟨_, _, rest⟩ := bind_eq_ok.mp found
            obtain ⟨value, _, made⟩ := bind_eq_ok.mp rest
            exact picked made
          all_goals simp

end Access

/-! ## Steps that only add and freeze -/

/-- A step that only adds banks and freezes them, with a result that leads to banks. -/
structure Build.Orderly {α : Type} (session : Session) (step : Build α)
    (within : α → Nat → Prop) : Prop where
  closed : (runIn session step).2.design.Closed
  grows : (runIn session step).2.design.Extends session.design
  result {value : α} (gives : (runIn session step).1 = .ok value) :
    within value (runIn session step).2.design.banks.size

namespace Build

variable {α β : Type} {step : Build α} {within : α → Nat → Prop}

theorem orderly_of_eq {outcome : Except Fault α} {after : Session}
    (run : runIn session step = (outcome, after)) (closed : after.design.Closed)
    (grows : after.design.Extends session.design)
    (result : ∀ value, outcome = .ok value → within value after.design.banks.size) :
    Orderly session step within where
  closed := by rwa [run]
  grows := by rwa [run]
  result gives := by
    rw [run] at gives ⊢
    exact result _ gives

theorem orderly_congr {other : Build α} (same : runIn session step = runIn session other) :
    Orderly session step within ↔ Orderly session other within := by
  constructor
  · rintro ⟨closed, grows, result⟩
    rw [same] at closed grows result
    exact ⟨closed, grows, result⟩
  · rintro ⟨closed, grows, result⟩
    rw [← same] at closed grows result
    exact ⟨closed, grows, result⟩

theorem Orderly.bind {next : α → Build β} {others : β → Nat → Prop}
    (first : Orderly session step within)
    (second : ∀ middle between, between.design.Closed →
      between.design.Extends session.design → within middle between.design.banks.size →
      Orderly between (next middle) others) :
    Orderly session (step >>= next) others := by
  cases run : runIn session step with
  | mk outcome between =>
      have closed := first.closed
      have grows := first.grows
      rw [run] at closed grows
      cases outcome with
      | error fault =>
          apply orderly_of_eq (runIn_bind_of_fault run) closed grows
          intro value same
          cases same
      | ok middle =>
          have inside := first.result (by rw [run])
          rw [run] at inside
          have rest := second middle between closed grows inside
          have same : runIn session (step >>= next) = runIn between (next middle) :=
            Gives.runIn_bind run
          refine ⟨?_, ?_, ?_⟩
          · rw [same]
            exact rest.closed
          · rw [same]
            exact rest.grows.trans grows
          · rw [same]
            exact rest.result

theorem Orderly.mapM {run : α → Build β} {given : List α} {within : β → Nat → Prop}
    (mono : ∀ {result count more}, count ≤ more → within result count → within result more)
    (closed : session.design.Closed)
    (step : ∀ item ∈ given, ∀ moment : Session, moment.design.Closed →
      moment.design.Extends session.design → Orderly moment (run item) within) :
    Orderly session (given.mapM run) fun results count =>
      ∀ result ∈ results, within result count := by
  induction given generalizing session with
  | nil =>
      rw [List.mapM_nil]
      apply orderly_of_eq runIn_pure closed (.refl _)
      rintro value same result listed
      cases same
      cases listed
  | cons first rest ih =>
      rw [List.mapM_cons]
      apply (step first List.mem_cons_self session closed (.refl _)).bind
      intro result between betweenClosed grows inside
      have tail := ih betweenClosed fun item later moment momentClosed extended =>
        step item (List.mem_cons_of_mem _ later) moment momentClosed (extended.trans grows)
      apply tail.bind
      intro results last lastClosed more others
      apply orderly_of_eq runIn_pure lastClosed (.refl _)
      rintro value same other listed
      cases same
      rcases List.mem_cons.mp listed with rfl | later
      · exact mono more.size inside
      · exact others other later

end Build

theorem Bank.orderly_select {bank : Nat} {index : Operand} (closed : session.design.Closed)
    (stored : bank < session.design.banks.size) :
    Build.Orderly session (Bank.select bank index) fun lookup count => lookup.bank < count := by
  cases cast : session.design.cast index with
  | error fault =>
      have run : runIn session (Bank.select bank index) = (.error fault, session) := by
        rw [runIn_select, cast]
      apply Build.orderly_of_eq run closed (.refl _)
      intro lookup same
      cases same
  | ok value =>
      have run := @runIn_select session bank index
      rw [cast] at run
      dsimp only at run
      split at run
      · apply Build.orderly_of_eq run closed (.refl _)
        rintro lookup same
        cases same
        exact stored
      · apply Build.orderly_of_eq run closed.frozenAt (Design.extends_frozenAt stored)
        rintro lookup same
        cases same
        rw [Design.size_frozenAt]
        exact stored

namespace Lookup

theorem runIn_derive {lookup : Lookup} {elements : List Element} :
    runIn session (lookup.derive elements) =
      (.ok { lookup with bank := session.design.banks.size },
        { session with
          design := session.design.withBank elements (session.design.isFrozen lookup.bank) }) :=
  rfl

theorem mapWithin_succ {step : (Lookup → Build Lookup) → Element → Build Element} {levels : Nat}
    {lookup : Lookup} :
    runIn session (lookup.mapWithin step (levels + 1)) =
      runIn session ((session.design.elements lookup.bank).mapM (step (mapWithin step levels))
        >>= lookup.derive) := rfl

end Lookup

namespace Access

variable {access : Access}

theorem orderly_step {onLookup : Lookup → Build Lookup} {element : Element}
    (closed : session.design.Closed) (inside : element.Within session.design.banks.size)
    (lookups : ∀ source : Lookup, source.bank < session.design.banks.size →
      Build.Orderly session (onLookup source) fun lookup count => lookup.bank < count) :
    Build.Orderly session (access.step onLookup element) Element.Within := by
  have wrapped {step : Build Lookup}
      (orderly : Build.Orderly session step fun lookup count => lookup.bank < count) :
      Build.Orderly session (do return Element.lookup (← step)) Element.Within := by
    apply orderly.bind
    intro lookup between betweenClosed _ stored
    apply Build.orderly_of_eq Build.runIn_pure betweenClosed (.refl _)
    rintro value same
    cases same
    exact Element.within_lookup.mpr stored
  rcases access.step_cases element with ⟨source, rfl⟩ | ⟨index, id, rfl, rfl, selects⟩ | plain
  · rw [Build.orderly_congr runIn_step_lookup]
    exact wrapped (lookups source (Element.within_lookup.mp inside))
  · rw [Build.orderly_congr (runIn_step_select selects)]
    exact wrapped (Bank.orderly_select closed (Element.within_bank.mp inside))
  · apply Build.orderly_of_eq (runIn_step_read plain.1 plain.2) closed (.refl _)
    intro value found
    exact read_within closed inside found

theorem orderly_elements {onLookup : Lookup → Build Lookup} {bank : Nat}
    (closed : session.design.Closed)
    (lookups : ∀ (moment : Session) (source : Lookup), moment.design.Closed →
      source.bank < moment.design.banks.size →
      Build.Orderly moment (onLookup source) fun lookup count => lookup.bank < count) :
    Build.Orderly session ((session.design.elements bank).mapM (access.step onLookup))
      fun made count => ∀ element ∈ made, element.Within count := by
  apply Build.Orderly.mapM (fun wider inside => inside.mono wider) closed
  intro element listed moment momentClosed grows
  apply orderly_step momentClosed ((closed bank element listed).mono grows.size)
  intro source inside
  exact lookups moment source momentClosed inside

theorem orderly_mapWithin {levels : Nat} {lookup : Lookup} (closed : session.design.Closed)
    (stored : lookup.bank < session.design.banks.size) :
    Build.Orderly session (lookup.mapWithin access.step levels) fun lookup count =>
      lookup.bank < count := by
  induction levels generalizing session lookup with
  | zero =>
      apply Build.orderly_of_eq Build.runIn_throw closed (.refl _)
      intro value same
      cases same
  | succ levels ih =>
      rw [Build.orderly_congr Lookup.mapWithin_succ]
      apply (orderly_elements closed fun _ _ momentClosed inside => ih momentClosed inside).bind
      intro made between betweenClosed grows inside
      apply Build.orderly_of_eq Lookup.runIn_derive (betweenClosed.withBank inside)
        (Design.extends_withBank _ _)
      rintro value same
      cases same
      rw [Design.size_withBank]
      exact Nat.lt_succ_self _

theorem orderly_listed {levels bank : Nat} {moment : Session} {element : Element}
    (closed : session.design.Closed) (listed : element ∈ session.design.elements bank)
    (momentClosed : moment.design.Closed) (grows : moment.design.Extends session.design) :
    Build.Orderly moment (access.step (Lookup.mapWithin access.step levels) element)
      Element.Within :=
  orderly_step momentClosed ((closed bank element listed).mono grows.size) fun _ stored =>
    orderly_mapWithin momentClosed stored

theorem runIn_take {lookup : Lookup} :
    runIn session (access.take lookup) =
      runIn session (lookup.mapWithin access.step session.design.depth) := by
  cases access with
  | item index =>
      have same : (item index).step = fun items => Element.itemWith items index := rfl
      rw [take, Lookup.item, Build.runIn_bind, Build.runIn_design, same]
  | field name =>
      have same : (field name).step = fun fields => Element.fieldWith fields name := rfl
      rw [take, Lookup.field, Build.runIn_bind, Build.runIn_design, same]

theorem orderly_take {lookup : Lookup} (closed : session.design.Closed)
    (stored : lookup.bank < session.design.banks.size) :
    Build.Orderly session (access.take lookup) fun lookup count => lookup.bank < count := by
  rw [Build.orderly_congr runIn_take]
  exact orderly_mapWithin closed stored

end Access

/-- The value at the end of a path into the elements of a lookup. -/
def Lookup.read (lookup : Lookup) : List Access → Build Value
  | [] => do Build.ofExcept ((← Build.design).lookupValue lookup)
  | access :: path => do (← access.take lookup).read path

theorem Lookup.gives_read_nil {lookup : Lookup} {value : Value}
    (stands : session.design.lookupValue lookup = .ok value) :
    Gives (lookup.read []) session value session := by
  rw [Gives, read, Build.runIn_bind, Build.runIn_design]
  dsimp only
  rw [Build.runIn_ofExcept, stands]

end Gateware
