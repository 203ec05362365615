import Gateware.Proofs.Bank.Nesting
import Gateware.Proofs.Shape.Integers

/-!
# Integers as positions

An integer picks an element of a bank in two ways: as an item of a bank inside of another one,
where it counts from the end if it is negative, and as an index that is selected at, where the
bits of the narrowest constant of that integer are looked up.  The two agree on every position
that is not negative, and on a negative one only in a bank of as many elements as these bits can
count.
-/

set_option autoImplicit false

namespace Gateware

open Build (runIn Gives)

namespace Bank

/-! ## Places -/

/-- The position that the bits of an integer write in its narrowest shape. -/
def bitPlace (index : Int) : Nat := Binary.residue index (Binary.bitsFor index false)

theorem position_ofInt (environment : Environment) (index : Int) :
    environment.position (Value.ofInt index) = bitPlace index := rfl

theorem bitPlace_of_nonneg {index : Int} (notNegative : 0 ≤ index) :
    (bitPlace index : Int) = index := by
  have below := Shape.lt_of_mem (Shape.valid_ofInt index) (Shape.mem_ofInt index)
  rw [bitPlace, Binary.natCast_residue]
  exact Int.emod_eq_of_lt notNegative below

theorem bitPlace_of_neg {index : Int} (negative : index < 0) :
    (bitPlace index : Int) = index + 2 ^ Binary.bitsFor index false := by
  have positive := Binary.two_pow_pos (Binary.bitsFor index false)
  have notPositive : index ≤ 0 := Int.le_of_lt negative
  -- The number of bits leaves room for the sign.
  have low : -(2 ^ Binary.bitsFor index false) ≤ index := by
    have enough : (-index - 1).toNat < 2 ^ Binary.length (-index - 1).toNat :=
      Binary.length_le_iff.mp (Nat.le_refl _)
    have cast := Binary.natCast_two_pow (Binary.length (-index - 1).toNat)
    rw [Binary.bitsFor_of_nonpos notPositive, pow_succ]
    omega
  rw [bitPlace, Binary.natCast_residue, ← Int.add_emod_right]
  exact Int.emod_eq_of_lt (by omega) (by omega)

theorem place_eq_ok {index : Int} {length place : Nat} :
    Bank.place index length = .ok place ↔
      (if index < 0 then index + length else index) = place ∧ place < length := by
  unfold Bank.place
  generalize (if index < 0 then index + length else index) = resolved
  by_cases inside : 0 ≤ resolved ∧ resolved < length
  · rw [if_pos inside, Except.ok.injEq]
    omega
  · rw [if_neg inside]
    constructor
    · intro found
      cases found
    · intro ⟨same, low⟩
      omega

theorem exists_place {index : Int} {length : Nat} (low : -length ≤ index)
    (high : index < length) : ∃ place, Bank.place index length = .ok place := by
  refine ⟨(if index < 0 then index + length else index).toNat, place_eq_ok.mpr ?_⟩
  split <;> omega

theorem elementAt_eq_ok {α : Type} {elements : List α} {index : Int} {element : α} :
    elementAt elements index = .ok element ↔
      ∃ place, Bank.place index elements.length = .ok place ∧ elements[place]? = some element := by
  rw [elementAt, bind_eq_ok]
  apply exists_congr
  intro place
  apply and_congr_right
  intro _
  cases elements[place]? <;> simp

/-- Both places of an integer are the same one exactly if it is not negative, or the elements
are as many as its bits can count. -/
theorem bitPlace_eq_place_iff {index : Int} {length place : Nat}
    (found : Bank.place index length = .ok place) :
    bitPlace index = place ↔ 0 ≤ index ∨ length = 2 ^ Binary.bitsFor index false := by
  obtain ⟨same, _⟩ := place_eq_ok.mp found
  have cast := Binary.natCast_two_pow (Binary.bitsFor index false)
  by_cases negative : index < 0
  · have bits := bitPlace_of_neg negative
    rw [if_pos negative] at same
    omega
  · have bits := bitPlace_of_nonneg (Int.not_lt.mp negative)
    rw [if_neg negative] at same
    omega

/-! ## Items at an integer -/

variable {session : Session} {bank : Nat} {index : Int}

theorem runIn_step_int {onLookup : Lookup → Build Lookup} {id : Nat} :
    runIn session ((Access.item (.int index)).step onLookup (.bank id)) =
      (elementAt (session.design.elements id) index, session) :=
  Access.runIn_step_read nofun fun selects => selects

theorem runIn_item_int {lookup : Lookup} :
    runIn session (lookup.item (.int index)) =
      runIn session ((session.design.elements lookup.bank).mapM ((Access.item (.int index)).step
        (Lookup.mapWithin (Access.item (.int index)).step session.design.banks.size))
          >>= lookup.derive) := by
  show runIn session ((Access.item (.int index)).take lookup) = _
  rw [Access.runIn_take, Design.depth, Lookup.mapWithin_succ]

theorem exists_elementAt_of_item {lookup made : Lookup} {after : Session} {place : Nat}
    (closed : session.design.Closed)
    (gives : Gives (lookup.item (.int index)) session made after)
    (here : (session.design.elements lookup.bank)[place]? = some (.bank bank)) :
    ∃ element, elementAt (session.design.elements bank) index = .ok element ∧
      (after.design.elements made.bank)[place]? = some element := by
  rw [Gives, runIn_item_int] at gives
  obtain ⟨results, between, mapped, derived⟩ := Build.gives_bind.mp gives
  have step : ∀ image ∈ session.design.elements lookup.bank, ∀ {before middle : Session}
      {result : Element}, before.design.Closed ∧ before.design.Extends session.design →
      Gives ((Access.item (.int index)).step (Lookup.mapWithin (Access.item (.int index)).step
        session.design.banks.size) image) before result middle →
      (middle.design.Closed ∧ middle.design.Extends session.design) ∧
        ∀ id, image = .bank id → elementAt (session.design.elements id) index = .ok result := by
    intro image listed before middle result kept run
    have leads := (Access.orderly_listed closed listed kept.1 kept.2).leads run
    refine ⟨⟨leads.closed, leads.grows.trans kept.2⟩, ?_⟩
    intro id isBank
    subst isBank
    rw [Gives, runIn_step_int, kept.2.elements (Element.within_bank.mp (closed _ _ listed))] at run
    exact (Prod.mk.inj run).1
  obtain ⟨_, pairs⟩ := Build.Gives.mapM _ _ step ⟨closed, .refl _⟩ mapped
  obtain ⟨element, there, found⟩ := exists_getElem?_of_forall₂ pairs here
  rw [Gives, Lookup.runIn_derive] at derived
  cases derived
  exact ⟨element, found bank rfl, by rwa [Design.elements_withBank_new]⟩

theorem runIn_mapM_step_int {onLookup : Lookup → Build Lookup} {images : List Element}
    (picks : ∀ image ∈ images, ∃ id element, image = .bank id ∧
      elementAt (session.design.elements id) index = .ok element) :
    ∃ results, runIn session (images.mapM ((Access.item (.int index)).step onLookup)) =
      (.ok results, session) := by
  induction images with
  | nil => exact ⟨[], rfl⟩
  | cons image rest ih =>
      obtain ⟨id, element, isBank, found⟩ := picks image List.mem_cons_self
      obtain ⟨results, run⟩ := ih fun other later => picks other (List.mem_cons_of_mem _ later)
      refine ⟨element :: results, ?_⟩
      rw [List.mapM_cons, isBank, Build.runIn_bind, runIn_step_int, found]
      dsimp only
      rw [Build.runIn_bind, run]
      rfl

theorem exists_gives_item {lookup : Lookup}
    (picks : ∀ image ∈ session.design.elements lookup.bank, ∃ id, image = .bank id ∧
      -(session.design.elements id).length ≤ index ∧
        index < (session.design.elements id).length) :
    ∃ made after, Gives (lookup.item (.int index)) session made after := by
  have found : ∀ image ∈ session.design.elements lookup.bank, ∃ id element, image = .bank id ∧
      elementAt (session.design.elements id) index = .ok element := by
    intro image listed
    obtain ⟨id, isBank, low, high⟩ := picks image listed
    obtain ⟨place, placed⟩ := exists_place low high
    have inside := (place_eq_ok.mp placed).2
    exact ⟨id, _, isBank, elementAt_eq_ok.mpr ⟨place, placed, List.getElem?_eq_getElem inside⟩⟩
  obtain ⟨results, run⟩ := runIn_mapM_step_int found
  rw [exists_congr fun made => exists_congr fun after => by rw [Gives, runIn_item_int]]
  rw [Build.runIn_bind, run]
  exact ⟨_, _, rfl⟩

/-! ## Selecting at an integer -/

theorem runIn_select_int :
    runIn session (select bank (.int index)) = (.ok ⟨bank, Value.ofInt index⟩, session) :=
  runIn_select

theorem gives_read_select_int (castable : session.design.Nested (fun _ => True) 0 bank) :
    ∃ value, Gives (do (← select bank (.int index)).read []) session value session ∧
      (∀ element leaf, (session.design.elements bank)[bitPlace index]? = some element →
        session.design.elementValue element = .ok leaf →
        ∀ environment, value.eval environment = leaf.eval environment) ∧
      ((session.design.elements bank)[bitPlace index]? = none →
        ∀ environment, value.eval environment = 0) := by
  obtain ⟨short, casts⟩ := castable
  obtain ⟨values, related, _⟩ := exists_forall₂_of_exists (List.forall₂_same.mpr casts)
  have stands : session.design.lookupValue ⟨bank, Value.ofInt index⟩ = .ok _ :=
    session.design.lookupValue_eq_ok.mpr ⟨_, List.forall₂_take _ related, rfl⟩
  have shortValues : values.length ≤ Width.max := related.length_eq ▸ short
  have run : Gives (do (← select bank (.int index)).read []) session _ session :=
    Build.gives_bind.mpr ⟨_, _, runIn_select_int, Lookup.gives_read_nil stands⟩
  refine ⟨_, run, ?_, ?_⟩
  · intro element leaf here found environment
    obtain ⟨value, stored, cast⟩ := exists_getElem?_of_forall₂ related here
    rw [found] at cast
    cases cast
    rw [Value.eval_switch_reached environment shortValues, position_ofInt, stored]
    rfl
  · intro missing environment
    have beyond : values[bitPlace index]? = none := by
      rw [List.getElem?_eq_none_iff] at missing ⊢
      rwa [← related.length_eq]
    rw [Value.eval_switch_reached environment shortValues, position_ofInt, beyond]
    rfl

/-! ## Both ways -/

/-- What an integer picks from a bank as an item and as a selection. -/
structure Picks (session : Session) (bank : Nat) (index : Int) (place : Nat) (element : Element)
    (leaf value : Value) : Prop where
  counted : (place : Int) =
    if index < 0 then index + (session.design.elements bank).length else index
  stored : (session.design.elements bank)[place]? = some element
  casts : session.design.elementValue element = .ok leaf
  exists_item {lookup : Lookup}
    (inRange : ∀ image ∈ session.design.elements lookup.bank, ∃ id, image = .bank id ∧
      -(session.design.elements id).length ≤ index ∧
        index < (session.design.elements id).length) :
    ∃ made after, Gives (lookup.item (.int index)) session made after
  item {lookup made : Lookup} {after : Session} {nested : Nat}
    (gives : Gives (lookup.item (.int index)) session made after)
    (here : (session.design.elements lookup.bank)[nested]? = some (.bank bank)) :
    (after.design.elements made.bank)[nested]? = some element ∧
      after.design.elementValue element = .ok leaf
  selection : Gives (do (← select bank (.int index)).read []) session value session
  agree (counts : 0 ≤ index ∨
      (session.design.elements bank).length = 2 ^ Binary.bitsFor index false)
    (environment : Environment) : value.eval environment = leaf.eval environment
  /-- The bits of a negative integer are those of another position, counted from their end and
  not from that of the bank. -/
  shift (negative : index < 0) :
    ∃ shifted : Nat, (shifted : Int) = index + 2 ^ Binary.bitsFor index false ∧
      (shifted = place ↔
        (session.design.elements bank).length = 2 ^ Binary.bitsFor index false) ∧
      (∀ other chosen, (session.design.elements bank)[shifted]? = some other →
        session.design.elementValue other = .ok chosen →
        ∀ environment, value.eval environment = chosen.eval environment) ∧
      ((session.design.elements bank)[shifted]? = none →
        ∀ environment, value.eval environment = 0)

/-- An integer within range of a bank of elements that cast picks an element of it as an item,
from the end if it is negative.  A selection at the integer gives a value that is the same
element if the integer is not negative, or the elements are as many as its bits can count; any
other negative integer selects another element, or none. -/
theorem exists_picks (closed : session.design.Closed)
    (castable : session.design.Nested (fun _ => True) 0 bank)
    (low : -(session.design.elements bank).length ≤ index)
    (high : index < (session.design.elements bank).length) :
    ∃ place element leaf value, Picks session bank index place element leaf value := by
  obtain ⟨place, placed⟩ := exists_place low high
  obtain ⟨resolved, inside⟩ := place_eq_ok.mp placed
  have here := List.getElem?_eq_getElem inside
  have listed := List.getElem_mem inside
  generalize (session.design.elements bank)[place] = element at here listed
  obtain ⟨leaf, found, _⟩ := castable.2 element listed
  obtain ⟨value, run, hit, missed⟩ := @gives_read_select_int session bank index castable
  refine ⟨place, element, leaf, value, resolved.symm, here, found, exists_gives_item, ?item, run,
    ?agree, ?shift⟩
  case item =>
    intro lookup made after nested gives isBank
    obtain ⟨other, picked, there⟩ := exists_elementAt_of_item closed gives isBank
    obtain ⟨position, same, stored⟩ := elementAt_eq_ok.mp picked
    rw [placed] at same
    cases same
    rw [here] at stored
    cases stored
    have taken : Gives ((Access.item (.int index)).take lookup) session made after := gives
    have leads := (Access.orderly_take closed
      (Design.lt_size_of_mem (List.mem_of_getElem? isBank))).leads taken
    exact ⟨there, leads.grows.elementValue_ok closed (closed bank element listed) found⟩
  case agree =>
    intro counts environment
    rw [← bitPlace_eq_place_iff placed] at counts
    exact hit element leaf (counts ▸ here) found environment
  case shift =>
    intro negative
    refine ⟨bitPlace index, bitPlace_of_neg negative, ?_, hit, missed⟩
    rw [bitPlace_eq_place_iff placed]
    exact or_iff_right (Int.not_le.mpr negative)

theorem nested_of_ints {design : Design} {numbers : List Int}
    (given : design.elements bank = numbers.map .int) (short : numbers.length ≤ Width.max) :
    design.Nested (fun _ => True) 0 bank := by
  rw [Design.Nested, given, List.length_map]
  refine ⟨short, ?_⟩
  intro element listed
  obtain ⟨number, _, rfl⟩ := List.mem_map.mp listed
  exact ⟨_, rfl, trivial⟩

/-- A bank of two numbers inside of another one. -/
def pair : Session where
  design := { banks := #[{ elements := [.int 7, .int (-3)] }, { elements := [.bank 0] }] }

/-- Two elements are as many as the one bit of minus one counts. -/
theorem exists_picks_pair :
    (-2 : Int) ≤ -1 ∧ (-1 : Int) < 2 ∧
      ∃ value, Gives (do (← select 0 (.int (-1))).read []) pair value pair ∧
        ∀ environment, value.eval environment = -3 := by
  have closed : pair.design.Closed := Design.closed_of_banks (by simp [pair])
  have castable : pair.design.Nested (fun _ => True) 0 0 :=
    @nested_of_ints 0 pair.design [7, -3] rfl (by decide)
  have low : -((pair.design.elements 0).length : Int) ≤ -1 := by decide
  have high : (-1 : Int) < (pair.design.elements 0).length := by decide
  obtain ⟨place, element, leaf, value, picks⟩ := exists_picks closed castable low high
  have last : place = 1 := by
    have counted := picks.counted
    have length : (pair.design.elements 0).length = 2 := rfl
    rw [length] at counted
    omega
  refine ⟨by decide, by decide, value, picks.selection, ?_⟩
  intro environment
  have stored := picks.stored
  rw [last] at stored
  cases stored
  have casts := picks.casts
  cases casts
  exact picks.agree (Or.inr rfl) environment

def four : Session where
  design := { banks :=
    #[{ elements := [.int 10, .int 20, .int 30, .int 40] }, { elements := [.bank 0] }] }

/-- Minus one is the last of four numbers as an item, and selects the second one. -/
theorem minusOne_of_four :
    (∃ made after, Gives (Lookup.item ⟨1, .signal row⟩ (.int (-1))) four made after ∧
      after.design.elements made.bank = [.int 40]) ∧
    ∃ value, Gives (do (← select 0 (.int (-1))).read []) four value four ∧
      ∀ environment, value.eval environment = 20 := by
  have castable : four.design.Nested (fun _ => True) 0 0 :=
    @nested_of_ints 0 four.design [10, 20, 30, 40] rfl (by decide)
  obtain ⟨value, run, hit, _⟩ := @gives_read_select_int four 0 (-1) castable
  have second : (four.design.elements 0)[bitPlace (-1)]? = some (.int 20) := by
    have one : bitPlace (-1) = 1 := by decide
    rw [one]
    rfl
  exact ⟨⟨_, _, rfl, rfl⟩, value, run, hit _ _ second rfl⟩

end Bank

end Gateware
