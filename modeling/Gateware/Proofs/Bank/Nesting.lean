import Gateware.Proofs.Bank.Choice
import Gateware.Proofs.Bank.Mirror

/-!
# Nested banks

A lookup in nested banks, selected at one value and followed through items at others, stands for
a tree of switches.  In an environment in which every index is a position at its level, the tree
evaluates to the leaf at those positions, and its shape holds what the shape of the leaf holds.
That shape is found in words if every leaf leaves room for a sign, and overflows at worst.
-/

set_option autoImplicit false

namespace Gateware

open Build (runIn Gives)

namespace Design

/-! ## Leaves of nested banks -/

/-- A bank nested to a depth, with leaves that cast to values of some kind.  The elements above
the leaves are banks, and a word counts those of each bank. -/
def Nested (design : Design) (kind : Value → Prop) : Nat → Nat → Prop
  | 0, bank => (design.elements bank).length ≤ Width.max ∧
      ∀ element ∈ design.elements bank,
        ∃ leaf, design.elementValue element = .ok leaf ∧ kind leaf
  | depth + 1, bank => (design.elements bank).length ≤ Width.max ∧
      ∀ element ∈ design.elements bank, ∃ id, element = .bank id ∧ design.Nested kind depth id

/-- The leaf of nested banks at the positions of one index for each level. -/
def Picked (design : Design) (environment : Environment) :
    Value → List Value → Nat → Value → Prop
  | index, [], bank, leaf => ∃ element,
      (design.elements bank)[environment.position index]? = some element ∧
        design.elementValue element = .ok leaf
  | index, next :: rest, bank, leaf => ∃ id,
      (design.elements bank)[environment.position index]? = some (.bank id) ∧
        design.Picked environment next rest id leaf

/-- A value that chooses among the leaves of nested banks by one index for each level. -/
structure Multiplexes (design : Design) (index : Value) (rest : List Value) (bank : Nat)
    (value : Value) : Prop where
  eval {environment : Environment} {leaf : Value}
    (picked : design.Picked environment index rest bank leaf) :
    value.eval environment = leaf.eval environment
  holds {environment : Environment} {leaf : Value}
    (picked : design.Picked environment index rest bank leaf) :
    ∀ number ∈ leaf.shape, number ∈ value.shape
  roomy (room : design.Nested Value.Roomy rest.length bank) : value.Roomy

variable {design : Design} {index next value : Value} {rest : List Value} {root : Nat}

theorem multiplexes_leaves
    (chooses : Chooses (fun element leaf => design.elementValue element = .ok leaf)
      (design.elements root) index value) : design.Multiplexes index [] root value := by
  refine ⟨?_, ?_, fun room => chooses.roomy fun element listed leaf found => ?_⟩
  · rintro environment leaf ⟨element, here, found⟩
    obtain ⟨chosen, cast, same, _⟩ := chooses.eval here
    rw [found] at cast
    cases cast
    exact same
  · rintro environment leaf ⟨element, here, found⟩
    obtain ⟨chosen, cast, _, holds⟩ := chooses.eval here
    rw [found] at cast
    cases cast
    exact holds
  · obtain ⟨other, cast, roomy⟩ := room.2 element listed
    rw [found] at cast
    cases cast
    exact roomy

theorem multiplexes_banks
    (chooses : Chooses (fun element inner => ∃ id, element = .bank id ∧
      design.Multiplexes next rest id inner) (design.elements root) index value) :
    design.Multiplexes index (next :: rest) root value := by
  refine ⟨?_, ?_, fun room => chooses.roomy ?_⟩
  · rintro environment leaf ⟨id, here, picked⟩
    obtain ⟨inner, ⟨_, same, multiplexes⟩, equal, _⟩ := chooses.eval here
    cases same
    rw [equal]
    exact multiplexes.eval picked
  · rintro environment leaf ⟨id, here, picked⟩ number inside
    obtain ⟨inner, ⟨_, same, multiplexes⟩, _, holds⟩ := chooses.eval here
    cases same
    exact holds number (multiplexes.holds picked number inside)
  · rintro _ listed inner ⟨id, rfl, multiplexes⟩
    obtain ⟨_, same, idRoom⟩ := room.2 _ listed
    cases same
    exact multiplexes.roomy idRoom

end Design

/-! ## Steps that lead somewhere -/

/-- A step that gives a result, and only adds banks and freezes them on the way. -/
structure Build.Leads {α : Type} (step : Build α) (session : Session) (result : α)
    (after : Session) : Prop where
  gives : Gives step session result after
  closed : after.design.Closed
  grows : after.design.Extends session.design

namespace Build

variable {α β γ : Type} {session after : Session}

theorem Orderly.leads {step : Build α} {within : α → Nat → Prop} {result : α}
    (orderly : Orderly session step within) (gives : Gives step session result after) :
    Leads step session result after := by
  obtain ⟨closed, grows, _⟩ := orderly
  rw [Gives] at gives
  rw [gives] at closed grows
  exact ⟨gives, closed, grows⟩

/-- Where every step of a list leads somewhere from any later session, so does the list. -/
theorem exists_leads_mapM {origins : List γ} {images : List α} {run : α → Build β}
    {before : γ → α → Prop} {related : Design → γ → β → Prop}
    (stable : ∀ earlier later origin result, Design.Extends later earlier →
      related earlier origin result → related later origin result)
    (pairs : List.Forall₂ before origins images) (closed : session.design.Closed)
    (step : ∀ {origin image} (moment : Session), image ∈ images → before origin image →
      moment.design.Closed → moment.design.Extends session.design →
      ∃ result after, Leads (run image) moment result after ∧
        related after.design origin result) :
    ∃ results last, Leads (images.mapM run) session results last ∧
      List.Forall₂ (related last.design) origins results := by
  induction pairs generalizing session with
  | nil =>
      rw [List.mapM_nil]
      exact ⟨[], session, ⟨rfl, closed, .refl _⟩, .nil⟩
  | @cons origin image origins images here _ ih =>
      obtain ⟨result, between, first, holds⟩ :=
        step session List.mem_cons_self here closed (.refl _)
      obtain ⟨results, last, rest, others⟩ := ih first.closed
        fun moment listed pair momentClosed grows =>
          step moment (List.mem_cons_of_mem _ listed) pair momentClosed (grows.trans first.grows)
      refine ⟨result :: results, last, ⟨?_, rest.closed, rest.grows.trans first.grows⟩,
        .cons (stable _ _ _ _ rest.grows holds) others⟩
      rw [List.mapM_cons]
      exact gives_bind.mpr ⟨result, between, first.gives,
        gives_bind.mpr ⟨results, last, rest.gives, rfl⟩⟩

end Build

theorem Bank.gives_select_value {session : Session} (bank : Nat) (index : Value) :
    ∃ after, Gives (Bank.select bank (.value index)) session ⟨bank, index⟩ after := by
  rw [exists_congr fun after => by rw [Gives, runIn_select, Design.cast_value]]
  exact ⟨_, rfl⟩

theorem Access.leads_step_lookup {access : Access} {onLookup : Lookup → Build Lookup}
    {source made : Lookup} {session after : Session}
    (leads : Build.Leads (onLookup source) session made after) :
    Build.Leads (access.step onLookup (.lookup source)) session (.lookup made) after := by
  refine ⟨?_, leads.closed, leads.grows⟩
  rw [Gives, runIn_step_lookup]
  exact Build.gives_bind.mpr ⟨made, after, leads.gives, rfl⟩

/-! ## Towers of lookups -/

/-- An element that is a bank, and the lookup that has taken its place. -/
def Element.Over (related : Nat → Lookup → Prop) (element image : Element) : Prop :=
  ∃ id source, element = .bank id ∧ image = .lookup source ∧ related id source

theorem Element.Over.imp {related others : Nat → Lookup → Prop} {element image : Element}
    (placed : Element.Over related element image)
    (change : ∀ {id source}, related id source → others id source) :
    Element.Over others element image := by
  obtain ⟨id, source, isBank, isLookup, inner⟩ := placed
  exact ⟨id, source, isBank, isLookup, change inner⟩

/-- What nested banks have become after items at some indices: lookups at the first index over
lookups at the next, down to lookups in banks as they were. -/
def Tower (origin design : Design) : Value → List Value → Nat → Lookup → Prop
  | index, [], root, lookup => lookup = ⟨root, index⟩
  | index, next :: rest, root, lookup =>
      lookup.index = index ∧ lookup.bank < design.banks.size ∧
        List.Forall₂ (Element.Over (Tower origin design next rest)) (origin.elements root)
          (design.elements lookup.bank)

namespace Tower

variable {origin design : Design} {index : Value} {rest : List Value} {root : Nat}
  {lookup : Lookup}

theorem stable {later : Design} (tower : Tower origin design index rest root lookup)
    (grows : later.Extends design) : Tower origin later index rest root lookup := by
  induction rest generalizing index root lookup with
  | nil => exact tower
  | cons next rest ih =>
      obtain ⟨same, stored, pairs⟩ := tower
      refine ⟨same, Nat.lt_of_lt_of_le stored grows.size, ?_⟩
      rw [grows.elements stored]
      exact pairs.imp fun _ _ placed => placed.imp ih

theorem bank_of_nested {kind : Value → Prop} {depth : Nat} {element : Element}
    (closed : origin.Closed) (nested : origin.Nested kind (depth + 1) root)
    (listed : element ∈ origin.elements root) :
    ∃ id, element = .bank id ∧ id < origin.banks.size ∧ origin.Nested kind depth id := by
  obtain ⟨id, rfl, inner⟩ := nested.2 element listed
  exact ⟨id, rfl, Element.within_bank.mp (closed root _ listed), inner⟩

theorem exists_multiplexes (grows : design.Extends origin) (closed : origin.Closed)
    (stored : root < origin.banks.size) (tower : Tower origin design index rest root lookup)
    (nested : origin.Nested (fun _ => True) rest.length root) :
    ∃ value, design.lookupValue lookup = .ok value ∧
      origin.Multiplexes index rest root value := by
  induction rest generalizing index root lookup with
  | nil =>
      cases tower
      have pairs : List.Forall₂ (fun element image => ∃ leaf,
          design.elementValue image = .ok leaf ∧ origin.elementValue element = .ok leaf)
          (origin.elements root) (design.elements root) := by
        rw [grows.elements stored]
        apply List.forall₂_same.mpr
        intro element listed
        obtain ⟨leaf, found, _⟩ := nested.2 element listed
        exact ⟨leaf, grows.elementValue_ok closed (closed root element listed) found, found⟩
      obtain ⟨value, stands, chooses⟩ :=
        @Design.exists_chooses design ⟨root, index⟩ _ _ nested.1 pairs
      exact ⟨value, stands, Design.multiplexes_leaves chooses⟩
  | cons next rest ih =>
      obtain ⟨rfl, _, pairs⟩ := tower
      have listedPairs := (List.forall₂_and_left _ _).mpr
        ⟨fun element (listed : element ∈ origin.elements root) => listed, pairs⟩
      have casts : List.Forall₂ (fun element image => ∃ inner,
          design.elementValue image = .ok inner ∧
            ∃ id, element = .bank id ∧ origin.Multiplexes next rest id inner)
          (origin.elements root) (design.elements lookup.bank) := by
        apply listedPairs.imp
        rintro _ _ ⟨listed, id, source, rfl, rfl, below⟩
        obtain ⟨_, same, idStored, idNested⟩ := bank_of_nested closed nested listed
        cases same
        obtain ⟨inner, stands, multiplexes⟩ := ih idStored below idNested
        exact ⟨inner, stands, id, rfl, multiplexes⟩
      obtain ⟨value, stands, chooses⟩ := Design.exists_chooses nested.1 casts
      exact ⟨value, stands, Design.multiplexes_banks chooses⟩

/-! ## Items of towers -/

variable {session : Session} {next : Value}

theorem exists_higher {before : Element → Element → Prop} {levels : Nat}
    (closed : session.design.Closed) (stored : lookup.bank < session.design.banks.size)
    (pairs : List.Forall₂ before (origin.elements root) (session.design.elements lookup.bank))
    (step : ∀ {element image} (moment : Session), image ∈ session.design.elements lookup.bank →
      before element image → moment.design.Closed → moment.design.Extends session.design →
      ∃ result after, Build.Leads ((Access.item (.value next)).step
          (Lookup.mapWithin (Access.item (.value next)).step levels) image) moment result after ∧
        Element.Over (Tower origin after.design index rest) element result) :
    ∃ result after,
      Build.Leads (lookup.mapWithin (Access.item (.value next)).step (levels + 1)) session result
        after ∧
        Tower origin after.design lookup.index (index :: rest) root result ∧
        session.design.banks.size < after.design.banks.size := by
  obtain ⟨made, between, mapped, placed⟩ := @Build.exists_leads_mapM _ _ _ session _ _ _ before
    (fun design => Element.Over (Tower origin design index rest))
    (fun _ _ _ _ grows placed => placed.imp fun inner => inner.stable grows) pairs closed step
  have gives : Gives (lookup.mapWithin (Access.item (.value next)).step (levels + 1)) session
      { lookup with bank := between.design.banks.size }
      { between with
        design := between.design.withBank made (between.design.isFrozen lookup.bank) } := by
    rw [Gives, Lookup.mapWithin_succ, mapped.gives.runIn_bind, Lookup.runIn_derive]
  refine ⟨_, _, (Access.orderly_mapWithin closed stored).leads gives, ⟨rfl, ?_, ?_⟩, ?_⟩
  · rw [Design.size_withBank]
    exact Nat.lt_succ_self _
  · rw [Design.elements_withBank_new]
    exact placed.imp fun _ _ here => here.imp fun inner =>
      inner.stable (Design.extends_withBank _ _)
  · rw [Design.size_withBank]
    exact Nat.lt_succ_of_le mapped.grows.size

/-- An item at a value makes a tower one level higher. -/
theorem exists_item {kind : Value → Prop} {levels depth : Nat} (closedOrigin : origin.Closed)
    (closed : session.design.Closed) (grows : session.design.Extends origin)
    (stored : root < origin.banks.size)
    (tower : Tower origin session.design index rest root lookup)
    (nested : origin.Nested kind depth root) (deeper : rest.length < depth)
    (enough : rest.length < levels) :
    ∃ made after,
      Build.Leads (lookup.mapWithin (Access.item (.value next)).step levels) session made after ∧
        Tower origin after.design index (rest ++ [next]) root made ∧
        session.design.banks.size < after.design.banks.size := by
  -- Only the lowest lookups of the tower meet banks; all others pass the item on.
  induction rest generalizing index root lookup session levels depth with
  | nil =>
      obtain ⟨depth, rfl⟩ := Nat.exists_eq_add_one_of_ne_zero (Nat.ne_zero_of_lt deeper)
      obtain ⟨levels, rfl⟩ := Nat.exists_eq_add_one_of_ne_zero (Nat.ne_zero_of_lt enough)
      cases tower
      have elements : session.design.elements root = origin.elements root := grows.elements stored
      have pairs : List.Forall₂ (fun element image => image = element) (origin.elements root)
          (session.design.elements root) := by
        rw [elements]
        exact List.forall₂_same.mpr fun _ _ => rfl
      apply exists_higher closed (Nat.lt_of_lt_of_le stored grows.size) pairs
      rintro element _ moment listed rfl momentClosed momentGrows
      obtain ⟨id, rfl, _⟩ := bank_of_nested closedOrigin nested (elements ▸ listed)
      obtain ⟨after, selected⟩ := @Bank.gives_select_value moment id next
      refine ⟨.lookup ⟨id, next⟩, after, ?_, id, ⟨id, next⟩, rfl, rfl, rfl⟩
      apply (Access.orderly_listed closed listed momentClosed momentGrows).leads
      have selects : (Access.item (.value next)).Selects (.bank id) := trivial
      rw [Gives, Access.runIn_step_select selects]
      exact Build.gives_bind.mpr ⟨_, after, selected, rfl⟩
  | cons first rest ih =>
      obtain ⟨depth, rfl⟩ := Nat.exists_eq_add_one_of_ne_zero (Nat.ne_zero_of_lt deeper)
      obtain ⟨levels, rfl⟩ := Nat.exists_eq_add_one_of_ne_zero (Nat.ne_zero_of_lt enough)
      obtain ⟨rfl, lookupStored, pairs⟩ := tower
      have listedPairs := (List.forall₂_and_left _ _).mpr
        ⟨fun element (listed : element ∈ origin.elements root) => listed, pairs⟩
      apply exists_higher closed lookupStored listedPairs
      rintro element image moment _ ⟨originListed, id, source, rfl, rfl, inner⟩ momentClosed
        momentGrows
      obtain ⟨_, same, idStored, idNested⟩ := bank_of_nested closedOrigin nested originListed
      cases same
      obtain ⟨made, after, leads, higher, _⟩ := ih momentClosed (momentGrows.trans grows) idStored
        (inner.stable momentGrows) idNested (Nat.lt_of_succ_lt_succ deeper)
        (Nat.lt_of_succ_lt_succ enough)
      exact ⟨.lookup made, after, Access.leads_step_lookup leads, id, made, rfl, rfl, higher⟩

theorem exists_read {more : List Value} (closedOrigin : origin.Closed)
    (closed : session.design.Closed) (grows : session.design.Extends origin)
    (stored : root < origin.banks.size)
    (tower : Tower origin session.design index rest root lookup)
    (nested : origin.Nested (fun _ => True) (rest.length + more.length) root)
    (enough : rest.length ≤ session.design.banks.size) :
    ∃ value after,
      Gives (lookup.read (more.map fun index => .item (.value index))) session value after ∧
        origin.Multiplexes index (rest ++ more) root value := by
  induction more generalizing rest lookup session with
  | nil =>
      obtain ⟨value, stands, multiplexes⟩ :=
        tower.exists_multiplexes grows closedOrigin stored nested
      refine ⟨value, session, ?_, (List.append_nil rest).symm ▸ multiplexes⟩
      rw [Gives, List.map_nil, Lookup.read, Build.runIn_bind, Build.runIn_design]
      dsimp only
      rw [Build.runIn_ofExcept, stands]
  | cons next more ih =>
      have length :
          (rest ++ [next]).length + more.length = rest.length + (next :: more).length := by
        simp only [List.length_append, List.length_cons, List.length_nil]
        omega
      obtain ⟨made, between, leads, higher, larger⟩ := @exists_item _ _ _ _ _ session next _
        session.design.depth _ closedOrigin closed grows stored tower nested
        (Nat.lt_add_of_pos_right (Nat.succ_pos _)) (Nat.lt_succ_of_le enough)
      have taken : Gives ((Access.item (.value next)).take lookup) session made between := by
        rw [Gives, Access.runIn_take]
        exact leads.gives
      have stillEnough : (rest ++ [next]).length ≤ between.design.banks.size := by
        rw [List.length_append]
        exact Nat.succ_le_of_lt (Nat.lt_of_le_of_lt enough larger)
      obtain ⟨value, after, below, multiplexes⟩ := ih leads.closed (leads.grows.trans grows) higher
        (length ▸ nested) stillEnough
      refine ⟨value, after, ?_, ?_⟩
      · rw [List.map_cons, Lookup.read]
        exact Build.gives_bind.mpr ⟨made, between, taken, below⟩
      · rwa [List.append_cons]

end Tower

namespace Bank

/-! ## Selecting from nested banks -/

/-- A selection at one value and items at others give a value that chooses among the leaves.  The
shape that it is found to have, if any is found, is the one that holds what they hold. -/
theorem exists_read_select {session : Session} {bank : Nat} {first : Value} {rest : List Value}
    (closed : session.design.Closed) (stored : bank < session.design.banks.size)
    (nested : session.design.Nested (fun _ => True) rest.length bank) :
    ∃ value after,
      Gives (do (← select bank (.value first)).read (rest.map fun index => .item (.value index)))
        session value after ∧
        session.design.Multiplexes first rest bank value ∧
        ∀ found, value.shape? = .ok found → found = value.shape := by
  obtain ⟨between, selected⟩ := @gives_select_value session bank first
  have leads := (orderly_select closed stored).leads selected
  have tower : Tower session.design between.design first [] bank ⟨bank, first⟩ := rfl
  obtain ⟨value, after, gives, multiplexes⟩ := tower.exists_read closed leads.closed leads.grows
    stored ((Nat.zero_add rest.length).symm ▸ nested) (Nat.zero_le _)
  exact ⟨value, after, Build.gives_bind.mpr ⟨_, between, selected, gives⟩, multiplexes,
    fun _ run => Value.eq_shape_of_shape? run⟩

def row : Signal := ⟨0, "i", Shape.unsigned 1⟩

def column : Signal := ⟨1, "j", Shape.unsigned 3⟩

/-- A bank of two rows, the first of two numbers and the second of a signal. -/
def table : Session where
  design := { banks := #[{ elements := [.bank 1, .bank 2] }, { elements := [.int 5, .int (-3)] },
    { elements := [.value (.signal ⟨2, "s", ⟨4, true⟩⟩)] }] }

theorem nested_table {kind : Value → Prop} (five : kind (Value.ofInt 5))
    (minusThree : kind (Value.ofInt (-3))) (leaf : kind (.signal ⟨2, "s", ⟨4, true⟩⟩)) :
    table.design.Nested kind 1 0 := by
  refine ⟨by decide, fun element listed => ?_⟩
  have rows : element ∈ [Element.bank 1, .bank 2] := listed
  simp only [List.mem_cons, List.not_mem_nil, or_false] at rows
  rcases rows with rfl | rfl
  · refine ⟨1, rfl, by decide, fun element listed => ?_⟩
    have numbers : element ∈ [Element.int 5, .int (-3)] := listed
    simp only [List.mem_cons, List.not_mem_nil, or_false] at numbers
    rcases numbers with rfl | rfl
    · exact ⟨_, rfl, five⟩
    · exact ⟨_, rfl, minusThree⟩
  · refine ⟨2, rfl, by decide, fun element listed => ?_⟩
    rw [List.mem_singleton.mp listed]
    exact ⟨_, rfl, leaf⟩

/-- The second number of the first row. -/
theorem exists_read_select_table :
    ∃ value after,
      Gives (do (← select 0 (.value (.signal row))).read [.item (.value (.signal column))]) table
        value after ∧
      (∀ environment : Environment, environment.signal row = 0 →
        environment.signal column = 1 → value.eval environment = -3) ∧
      ∃ found, value.shape? = .ok found ∧
        ∀ number ∈ (Value.ofInt (-3)).shape, number ∈ found := by
  have closed : table.design.Closed := Design.closed_of_banks (by simp [table])
  obtain ⟨value, after, gives, multiplexes, _⟩ :=
    @exists_read_select table 0 (.signal row) [.signal column] closed (by decide)
      (nested_table trivial trivial trivial)
  have picked {environment : Environment} (rowZero : environment.signal row = 0)
      (columnOne : environment.signal column = 1) :
      table.design.Picked environment (.signal row) [.signal column] 0 (Value.ofInt (-3)) := by
    have first : environment.position (.signal row) = 0 := by
      rw [Environment.position, Value.eval, rowZero]
      rfl
    have second : environment.position (.signal column) = 1 := by
      rw [Environment.position, Value.eval, columnOne]
      rfl
    refine ⟨1, ?_, .int (-3), ?_, rfl⟩
    · rw [first]
      rfl
    · rw [second]
      rfl
  refine ⟨value, after, gives, ?_, ?_⟩
  · intro environment rowZero columnOne
    rw [multiplexes.eval (picked rowZero columnOne)]
    rfl
  · have secondColumn : (1 : Int) ∈ Shape.unsigned 3 := by decide
    have room : table.design.Nested Value.Roomy 1 0 :=
      nested_table ⟨rfl, fun _ => by decide⟩ ⟨rfl, fun _ => by decide⟩ ⟨rfl, fun _ => by decide⟩
    have here := @picked (Environment.zero.withSignal column 1 secondColumn) rfl rfl
    exact ⟨value.shape, (multiplexes.roomy room).held, multiplexes.holds here⟩

def shifted : Value :=
  .binary .shiftLeft (.signal ⟨0, "a", Shape.unsigned 4⟩) (.signal ⟨1, "n", Shape.unsigned 64⟩)

/-- A number shifted by up to `2 ^ 64 - 1` places, beside a signed one. -/
def wideBank : Session where
  design := { banks := #[{ elements := [.value shifted, .value (.signal ⟨2, "s", ⟨1, true⟩⟩)] }] }

def shiftedOne : Environment :=
  Environment.zero.withSignal ⟨0, "a", Shape.unsigned 4⟩ 1 (by decide)

/-- The shape of the switch overflows, since the leaf leaves no room for the sign beside it. -/
theorem overflows_wideBank :
    ∃ value after, Gives (do (← select 0 (.value (.signal row))).read []) wideBank value after ∧
      wideBank.design.Picked shiftedOne (.signal row) [] 0 shifted ∧
      shifted.eval shiftedOne = 1 ∧ value.eval shiftedOne = 1 ∧
      value.shape = ⟨2 ^ 64, true⟩ ∧ value.shape? = .error .overflow := by
  have picked : wideBank.design.Picked shiftedOne (.signal row) [] 0 shifted := ⟨_, rfl, rfl⟩
  refine ⟨_, _, rfl, picked, ?_, ?_, rfl, rfl⟩
  · decide
  · decide

end Bank

end Gateware
