import Gateware.Pins
import Gateware.Proofs.Selected

/-!
# Remarks of pins

Pins have one remark each, in their order.  A slice is held to a width that is counted apart from
the remarks; the two never differ, so that the remarks of a slice are there.
-/

set_option autoImplicit false

namespace Gateware

namespace Pins

mutual

/-- The remarks of pins, or nothing if a slice would leave those of the pins that it is of. -/
def checked : Pins → Option (List (Option String))
  | .connector source => some source.metadata
  | .slice pins start stop => do
      let remarks ← pins.checked
      if start ≤ stop ∧ stop ≤ remarks.length then some ((remarks.take stop).drop start) else none
  | .concat parts => checkedParts parts

def checkedParts : List Pins → Option (List (Option String))
  | [] => some []
  | pins :: rest => do return (← pins.checked) ++ (← checkedParts rest)

end

/-- Pins that are made of connectors.  A slice, stepped or not, is the index of its bounds. -/
inductive Built : Pins → Prop where
  | connector {width : Nat} {name : String} {attributes : Association String String}
      {metadata : Option (List String)} {session after : Session} {source : Connector} :
      Build.Gives (Connector.make width name attributes metadata) session source after →
      Built (.connector source)
  | between {pins picked : Pins} {start stop : Int} :
      Built pins → pins.between start stop = .ok picked → Built picked
  | index {pins picked : Pins} {index : Index} :
      Built pins → pins.index index = .ok picked → Built picked
  | cast {design : Design} {given : Like} {pins : Pins} :
      (∀ own, given = .pins own → Built own) → Pins.cast design given = .ok pins → Built pins
  | join {design : Design} {parts : List Like} {joined : Pins} :
      (∀ own, .pins own ∈ parts → Built own) → Pins.join design parts = .ok joined → Built joined

/-! ## Widths and remarks -/

/-- Every slice inside finds its remarks, and the width is the number of remarks. -/
structure Aligned (pins : Pins) : Prop where
  checked : pins.checked = some pins.metadata
  width_eq : pins.width = pins.metadata.length

theorem aligned_connector {source : Connector} (same : source.width = source.metadata.length) :
    Aligned (.connector source) where
  checked := by rw [Pins.checked, metadata]
  width_eq := by rw [width, metadata, same]

theorem width_connector {width : Nat} {name : String} {attributes : Association String String}
    {metadata : Option (List String)} {session after : Session} {source : Connector}
    (made : Build.Gives (Connector.make width name attributes metadata) session source after) :
    source.width = source.metadata.length := by
  unfold Connector.make at made
  cases metadata with
  | none =>
      obtain ⟨remarks, _, checked, made⟩ := Build.gives_bind.mp made
      obtain ⟨rfl, _⟩ := Build.gives_pure.mp checked
      obtain ⟨id, _, _, made⟩ := Build.gives_bind.mp made
      obtain ⟨rfl, _⟩ := Build.gives_pure.mp made
      exact List.length_replicate.symm
  | some given =>
      dsimp only at made
      by_cases same : given.length = width
      · rw [if_pos same] at made
        obtain ⟨remarks, _, checked, made⟩ := Build.gives_bind.mp made
        obtain ⟨rfl, _⟩ := Build.gives_pure.mp checked
        obtain ⟨id, _, _, made⟩ := Build.gives_bind.mp made
        obtain ⟨rfl, _⟩ := Build.gives_pure.mp made
        rw [List.length_map, same]
      · rw [if_neg same] at made
        obtain ⟨_, _, thrown, _⟩ := Build.gives_bind.mp made
        exact absurd thrown Build.gives_throw

theorem aligned_slice {pins : Pins} {start stop : Nat} (aligned : Aligned pins)
    (ordered : start ≤ stop) (inside : stop ≤ pins.width) (counted : stop < 2 ^ 63) :
    Aligned (.slice pins start stop) := by
  have found : stop ≤ pins.metadata.length := aligned.width_eq ▸ inside
  have length : (slice pins start stop).metadata.length = stop - start := by
    rw [metadata, List.length_drop, List.length_take]
    omega
  refine ⟨?_, ?_⟩
  · rw [Pins.checked, aligned.checked, metadata]
    exact if_pos ⟨ordered, found⟩
  · rw [length, width]
    exact Width.between_eq ordered (by omega)

theorem aligned_concat {parts : List Pins} (each : ∀ part ∈ parts, Aligned part) :
    Aligned (.concat parts) := by
  induction parts with
  | nil => exact ⟨rfl, rfl⟩
  | cons part rest ih =>
      have first := each part List.mem_cons_self
      have others := ih fun other listed => each other (List.mem_cons_of_mem _ listed)
      have length : (concat (part :: rest)).metadata.length =
          part.metadata.length + (concat rest).metadata.length :=
        List.length_append
      have sum : (concat (part :: rest)).width = part.width + (concat rest).width := rfl
      refine ⟨?_, ?_⟩
      · have remarks : (concat (part :: rest)).checked = (do
            return (← part.checked) ++ (← (concat rest).checked)) := rfl
        rw [remarks, first.checked, others.checked]
        rfl
      · rw [sum, length, first.width_eq, others.width_eq]

theorem aligned_between {pins picked : Pins} {start stop : Int} (aligned : Aligned pins)
    (found : pins.between start stop = .ok picked) : Aligned picked := by
  obtain ⟨⟨low, high⟩, run, rfl⟩ := map_eq_ok.mp found
  obtain ⟨ordered, inside, counted⟩ := Picked.between_inside run
  exact aligned_slice aligned ordered inside counted

theorem aligned_index {pins picked : Pins} {index : Index} (aligned : Aligned pins)
    (found : pins.index index = .ok picked) : Aligned picked := by
  cases index with
  | bit position =>
      obtain ⟨start, _, between⟩ := bind_eq_ok.mp found
      exact aligned_between aligned between
  | value index => cases found
  | range start stop step =>
      obtain ⟨chosen, steps, found⟩ := bind_eq_ok.mp found
      rcases Picked.stepped_cases steps with ⟨low, high, rfl, _, run⟩ | ⟨places, rfl, _⟩
      · cases found
        obtain ⟨ordered, inside, counted⟩ := Picked.between_inside run
        exact aligned_slice aligned ordered inside counted
      · obtain ⟨parts, each, rfl⟩ := map_eq_ok.mp found
        refine aligned_concat fun part listed => ?_
        obtain ⟨place, _, between⟩ := exists_related (mapM_eq_ok.mp each) listed
        exact aligned_between aligned between

theorem aligned_cast {design : Design} {given : Like} {pins : Pins}
    (aligned : ∀ own, given = .pins own → Aligned own) (found : cast design given = .ok pins) :
    Aligned pins := by
  cases given with
  | pins own =>
      cases found
      exact aligned _ rfl
  | operand given =>
      rw [cast] at found
      cases value : design.cast given with
      | error fault =>
          rw [value] at found
          cases found
      | ok empty =>
          simp only [value] at found
          split at found
          · cases found
            exact aligned_concat (by simp)
          · cases found

theorem Built.aligned {pins : Pins} (built : Built pins) : Aligned pins := by
  induction built with
  | connector made => exact aligned_connector (width_connector made)
  | between _ found aligned => exact aligned_between aligned found
  | index _ found aligned => exact aligned_index aligned found
  | cast _ found aligned => exact aligned_cast aligned found
  | join _ found aligned =>
      obtain ⟨each, casts, rfl⟩ := map_eq_ok.mp found
      refine aligned_concat fun part listed => ?_
      obtain ⟨given, member, cast⟩ := exists_related (mapM_eq_ok.mp casts) listed
      exact aligned_cast (fun own same => aligned own (same ▸ member)) cast

/-! ## Remarks of selected pins -/

theorem metadata_concat {parts : List Pins} :
    (concat parts).metadata = parts.flatMap metadata := by
  induction parts with
  | nil => rfl
  | cons part rest ih =>
      rw [List.flatMap_cons, ← ih]
      rfl

theorem metadata_slice {pins : Pins} {start stop : Nat} (inside : stop ≤ pins.metadata.length) :
    (slice pins start stop).metadata.map some =
      (List.range' start (stop - start)).map (pins.metadata[·]?) := by
  rw [metadata]
  refine List.ext_getElem (by simp; omega) fun taken here _ => ?_
  have found : start + taken < pins.metadata.length := by
    simp at here
    omega
  simp [List.getElem?_eq_getElem found]

section

variable {pins picked : Pins} (narrow : pins.width < 2 ^ 63)
  (same : pins.width = pins.metadata.length)
include narrow same

theorem metadata_between {start stop : Int} (found : pins.between start stop = .ok picked) :
    picked.metadata.map some =
      ((Picked.terms (Picked.counted pins.width start) (Picked.counted pins.width stop) 1).map
        Int.toNat).map (pins.metadata[·]?) := by
  obtain ⟨⟨low, high⟩, run, rfl⟩ := map_eq_ok.mp found
  obtain ⟨_, first, last, ordered, inside⟩ := Picked.between_eq_ok (by omega) run
  rw [first, last, Picked.terms_one ordered]
  exact metadata_slice (same ▸ inside)

theorem metadata_place {place : Int} (notNegative : 0 ≤ place) (inside : place < pins.width)
    (found : pins.between place (Position.wrap (place + 1)) = .ok picked) :
    picked.metadata.map some = [pins.metadata[place.toNat]?] := by
  obtain ⟨low, rfl⟩ := Int.eq_ofNat_of_zero_le notNegative
  have onward : Position.wrap ((low : Int) + 1) = ((low + 1 : Nat) : Int) :=
    Position.Holds.wrap_eq ⟨by omega, by omega⟩
  have first : Picked.counted pins.width low = low := if_neg (by omega)
  have last : Picked.counted pins.width ((low + 1 : Nat) : Int) = (low + 1 : Nat) :=
    if_neg (by omega)
  rw [onward] at found
  rw [metadata_between narrow same found, first, last, Picked.terms_one (by omega)]
  simp

theorem metadata_places {places : List Int} {parts : List Pins}
    (each : List.Forall₂ (fun place part => pins.between place (Position.wrap (place + 1)) = .ok part)
      places parts) (inside : ∀ place ∈ places, 0 ≤ place ∧ place < pins.width) :
    (concat parts).metadata.map some = (places.map Int.toNat).map (pins.metadata[·]?) := by
  induction each with
  | nil => rfl
  | @cons place part places parts here _ ih =>
      obtain ⟨lower, upper⟩ := inside place List.mem_cons_self
      have first := metadata_place narrow same lower upper here
      have others := ih fun place listed => inside place (List.mem_cons_of_mem _ listed)
      rw [metadata_concat] at others ⊢
      rw [List.flatMap_cons, List.map_append, first, others]
      rfl

theorem metadata_index {index : Index} (inWord : index.InWord)
    (found : pins.index index = .ok picked) :
    picked.metadata.map some = (index.selected pins.width).map (pins.metadata[·]?) := by
  cases index with
  | value index => cases found
  | bit position =>
      obtain ⟨start, place, between⟩ := bind_eq_ok.mp found
      have inside := Picked.bit_lt narrow place
      rw [Index.selected, Picked.bit_eq_ok narrow place]
      exact metadata_place narrow same (Int.natCast_nonneg start) (by omega) between
  | range start stop step =>
      obtain ⟨startHolds, stopHolds, _⟩ := inWord
      obtain ⟨chosen, steps, made⟩ := bind_eq_ok.mp found
      have ends : Picked.ends pins.width start stop step = Picked.reach pins.width start stop step :=
        Picked.ends_eq_reach narrow startHolds stopHolds
      rw [Index.selected]
      rcases Picked.stepped_cases steps with
        ⟨low, high, rfl, rfl, run⟩ | ⟨places, rfl, _, _, walked⟩
      · cases made
        rw [Position.ofWidth_eq narrow, ends] at run
        obtain ⟨_, first, last, ordered, inside⟩ := Picked.between_eq_ok narrow run
        have reached := Picked.reach_up pins.width start stop Int.one_nonneg
        rw [Picked.counted, if_neg (by omega)] at first last
        simp only [first, last, Picked.terms_one ordered]
        exact metadata_slice (same ▸ inside)
      · obtain ⟨parts, each, rfl⟩ := map_eq_ok.mp made
        rw [Position.ofWidth_eq narrow, ends] at walked
        rw [Picked.eq_progression_of_walk walked] at each
        exact metadata_places narrow same (mapM_eq_ok.mp each) fun place listed =>
          Picked.progression_inside pins.width start stop listed

end

/-- Pins and their remarks stay side by side.  Reading the remarks of pins that are made of
connectors never leaves those that are there, and there are as many as the pins are wide.  What an
index or a pair of bounds picks has the remarks at the places that it selects, in this order, and
pins after each other have their remarks after each other.

A list of `2 ^ 63` remarks, none of which takes less than two bytes, has no place in a memory whose
addresses are words. -/
theorem remarks_follow_bits {pins : Pins} (built : Built pins) :
    pins.checked = some pins.metadata ∧
    pins.metadata.length = pins.width ∧
    (pins.metadata.length < 2 ^ 63 →
      (∀ (index : Index) (picked : Pins), index.InWord → pins.index index = .ok picked →
        picked.metadata.map some = (index.selected pins.width).map (pins.metadata[·]?)) ∧
      ∀ (start stop : Int) (picked : Pins), pins.between start stop = .ok picked →
        picked.metadata.map some =
          ((Picked.terms (Picked.counted pins.width start) (Picked.counted pins.width stop) 1).map
            Int.toNat).map (pins.metadata[·]?)) ∧
    ∀ (design : Design) (parts : List Like) (joined : Pins), join design parts = .ok joined →
      ∃ each, parts.mapM (cast design) = .ok each ∧ joined.metadata = each.flatMap metadata := by
  have aligned := built.aligned
  have same := aligned.width_eq
  refine ⟨aligned.checked, same.symm, fun stored => ?_, ?_⟩
  · have narrow : pins.width < 2 ^ 63 := same ▸ stored
    exact ⟨fun index picked inWord found => metadata_index narrow same inWord found,
      fun start stop picked found => metadata_between narrow same found⟩
  · intro design parts joined found
    obtain ⟨each, casts, rfl⟩ := map_eq_ok.mp found
    exact ⟨each, casts, metadata_concat⟩

def fourPins : Pins :=
  .connector { id := 0, width := 4, metadata := [some "a", some "b", some "c", some "d"] }

def sixPins : Pins := .concat [.slice fourPins 1 3, fourPins]

theorem built_sixPins : Built sixPins := by
  have four : Built fourPins := by
    have made : Build.Gives (Connector.make 4 "$port" [] (some ["a", "b", "c", "d"])) {}
        { id := 0, width := 4, metadata := [some "a", some "b", some "c", some "d"] }
        { design := { fresh := 1 } } := rfl
    exact .connector made
  have sliced : fourPins.between 1 (-1) = .ok (.slice fourPins 1 3) := rfl
  have two : Built (.slice fourPins 1 3) := .between four sliced
  have joined : join {} [.pins (.slice fourPins 1 3), .pins fourPins] = .ok sixPins := rfl
  refine .join ?_ joined
  intro own listed
  simp only [List.mem_cons, Like.pins.injEq, List.not_mem_nil, or_false] at listed
  rcases listed with rfl | rfl
  · exact two
  · exact four

/-- Every second pin, from the last one on, through two slices. -/
theorem remarks_follow_bits_sixPins :
    Built sixPins ∧ ∃ picked, sixPins.index (.range (some (-1)) none (-2)) = .ok picked ∧
      picked.metadata.map some = [some (some "d"), some (some "b"), some (some "c")] := by
  have inWord : (Index.range (some (-1)) none (-2)).InWord :=
    ⟨by simp [Position.Holds], by simp, by decide⟩
  refine ⟨built_sixPins, _, rfl, ?_⟩
  exact ((remarks_follow_bits built_sixPins).2.2.1 (by decide)).1 _ _ inWord rfl

end Pins

end Gateware
