import Gateware.Proofs.Bank.History
import Gateware.Proofs.Design.Reading
import Mathlib.Data.Finset.Card
import Mathlib.Logic.Relation

/-!
# Banks that contain themselves

A bank that is read at a constant stays mutable, so a lookup may become an element of the bank
that it reads.  Reading such a lookup has no end, however many levels it is given.  A reading
comes to an end exactly if it asks for no reading that asks for itself again; the text of an
element is written to its end if no bank behind it contains itself.
-/

set_option autoImplicit false

namespace Gateware

open Relation (ReflTransGen TransGen)

/-! ## Long paths -/

section Paths

variable {α : Type} {related : α → α → Prop} {path : Nat → α} {length : Nat}

theorem transGen_of_path (steps : ∀ k < length, related (path k) (path (k + 1))) {i j : Nat}
    (before : i < j) (inside : j ≤ length) : TransGen related (path i) (path j) := by
  induction j, before using Nat.le_induction with
  | base => exact .single (steps i inside)
  | succ j _ ih => exact (ih (Nat.le_of_succ_le inside)).tail (steps j inside)

theorem exists_longer_path {first : α} (step : related first (path 0))
    (steps : ∀ k < length, related (path k) (path (k + 1))) :
    ∃ longer : Nat → α, longer 0 = first ∧
      ∀ k < length + 1, related (longer k) (longer (k + 1)) := by
  refine ⟨fun k => k.casesOn first path, rfl, fun k inside => ?_⟩
  cases k with
  | zero => exact step
  | succ k => exact steps k (Nat.lt_of_succ_lt_succ inside)

/-- A path with more steps than there are places to start them from goes in a circle. -/
theorem exists_circle_of_path {places : Finset α}
    (steps : ∀ k < length, related (path k) (path (k + 1))) (inside : ∀ k < length, path k ∈ places)
    (long : places.card < length) :
    ∃ place, ReflTransGen related (path 0) place ∧ TransGen related place place := by
  obtain ⟨i, first, j, second, different, same⟩ :=
    Finset.exists_ne_map_eq_of_card_lt_of_maps_to (s := Finset.range length) (f := path)
      (by rwa [Finset.card_range]) (fun k listed => inside k (Finset.mem_range.mp listed))
  rw [Finset.mem_range] at first second
  have reached {k : Nat} (below : k < length) : ReflTransGen related (path 0) (path k) := by
    cases k with
    | zero => exact .refl
    | succ k =>
        exact (transGen_of_path steps (Nat.succ_pos k) (Nat.le_of_lt below)).to_reflTransGen
  rcases Nat.lt_or_gt_of_ne different with before | after
  · refine ⟨path i, reached first, ?_⟩
    have around := transGen_of_path steps before (Nat.le_of_lt second)
    rwa [← same] at around
  · refine ⟨path j, reached second, ?_⟩
    have around := transGen_of_path steps after (Nat.le_of_lt first)
    rwa [same] at around

end Paths

/-! ## Steps that may not finish -/

section Finished

variable {α β : Type} {step : α → Except Fault β}

theorem finished_item {before after : List α} {item : α}
    (settled : ∀ earlier ∈ before, Finished (step earlier) → ∃ result, step earlier = .ok result)
    (finished : Finished ((before ++ item :: after).mapM step)) : Finished (step item) := by
  have first_of_cons {first : α} {rest : List α} (finished : Finished ((first :: rest).mapM step)) :
      Finished (step first) := by
    intro endless
    apply finished
    rw [List.mapM_cons, endless]
    rfl
  induction before with
  | nil => exact first_of_cons finished
  | cons first before ih =>
      obtain ⟨result, run⟩ := settled first List.mem_cons_self (first_of_cons finished)
      apply ih fun earlier listed => settled earlier (List.mem_cons_of_mem _ listed)
      intro endless
      apply finished
      rw [List.cons_append, List.mapM_cons, run, endless]
      rfl

end Finished

namespace Design

variable (design : Design)

/-! ## More levels -/

theorem lookupValueWithin_mono {levels more : Nat} {lookup : Lookup} (enough : levels ≤ more)
    (finished : Finished (design.lookupValueWithin levels lookup)) :
    design.lookupValueWithin more lookup = design.lookupValueWithin levels lookup := by
  induction more, enough using Nat.le_induction with
  | base => rfl
  | succ more _ ih =>
      rw [← ih] at finished
      rw [design.lookupValueWithin_step finished, ih]

theorem lookupValue_of_finished {levels : Nat} {lookup : Lookup}
    (finished : Finished (design.lookupValueWithin levels lookup)) :
    design.lookupValue lookup = design.lookupValueWithin levels lookup := by
  rw [← design.lookupValueWithin_eq (Nat.le_max_right levels design.readingDepth)]
  exact design.lookupValueWithin_mono (Nat.le_max_left levels design.readingDepth) finished

theorem elementValue_of_finished {levels : Nat} {element : Element}
    (finished : Finished (design.elementValueWith (design.lookupValueWithin levels) element)) :
    design.elementValue element =
      design.elementValueWith (design.lookupValueWithin levels) element := by
  cases element with
  | lookup source => exact design.lookupValue_of_finished finished
  | _ => rfl

end Design

/-! ## Readings that ask for readings -/

/-- So many elements of a bank, taken in order. -/
structure Reading where
  bank : Nat
  count : Nat
  deriving DecidableEq

namespace Lookup

/-- What the value of a lookup reads: the elements that its index reaches. -/
def reading (lookup : Lookup) : Reading := ⟨lookup.bank, Design.reach lookup.index.width⟩

/-- What the shape of a lookup reads: every element. -/
def survey (design : Design) (lookup : Lookup) : Reading :=
  ⟨lookup.bank, (design.elements lookup.bank).length⟩

end Lookup

namespace Design

/-- A reading asks for that of a lookup among its elements unless an element before it is
refused. -/
def Asks (design : Design) (reading next : Reading) : Prop :=
  ∃ before source after,
    (design.elements reading.bank).take reading.count = before ++ .lookup source :: after ∧
      (∀ earlier ∈ before, ∃ value, design.elementValue earlier = .ok value) ∧
      source.reading = next

/-- The reading leads to one that leads back to itself. -/
def Circles (design : Design) (reading : Reading) : Prop :=
  ∃ again, ReflTransGen design.Asks reading again ∧ TransGen design.Asks again again

/-- The reading comes to an end within so many levels. -/
def EndsWithin (design : Design) (levels : Nat) (reading : Reading) : Prop :=
  Finished (design.scan levels reading.bank reading.count)

variable {design : Design} {reading next : Reading} {levels : Nat}

theorem EndsWithin.asked (ends : design.EndsWithin levels reading)
    (asks : design.Asks reading next) :
    ∃ below, levels = below + 1 ∧ design.EndsWithin below next := by
  obtain ⟨before, source, after, split, valued, rfl⟩ := asks
  rw [EndsWithin, scan, split] at ends
  have finished :
      Finished (design.elementValueWith (design.lookupValueWithin levels) (.lookup source)) := by
    refine finished_item (fun earlier listed ended => ?_) ends
    obtain ⟨value, found⟩ := valued earlier listed
    exact ⟨value, (design.elementValue_of_finished ended).symm.trans found⟩
  cases levels with
  | zero => exact absurd rfl finished
  | succ below => exact ⟨below, rfl, design.finished_succ.mp finished⟩

/-- A reading that does not end asks for one that does not end one level earlier. -/
theorem exists_asked (endless : ¬ design.EndsWithin levels reading) :
    ∃ next, design.Asks reading next ∧
      ∀ below, levels = below + 1 → ¬ design.EndsWithin below next := by
  rw [EndsWithin, Finished, not_not, scan] at endless
  obtain ⟨before, item, after, split, passed, failed⟩ := mapM_eq_error.mp endless
  have valued : ∀ earlier ∈ before, ∃ value, design.elementValue earlier = .ok value := by
    intro earlier listed
    obtain ⟨value, found⟩ := passed earlier listed
    refine ⟨value, (design.elementValue_of_finished ?_).trans found⟩
    rw [found]
    exact fun same => by cases same
  cases item with
  | int number => cases failed
  | value tree => cases failed
  | bank id => cases failed
  | record name fields => cases failed
  | lookup source =>
      refine ⟨source.reading, ⟨before, source, after, split, valued, rfl⟩, ?_⟩
      rintro below rfl ends
      exact design.finished_succ.mpr ends failed

/-! ## Ends and circles -/

theorem EndsWithin.lt_of_transGen (ends : design.EndsWithin levels reading)
    (leads : TransGen design.Asks reading next) :
    ∃ below < levels, design.EndsWithin below next := by
  induction leads with
  | single asks =>
      obtain ⟨below, rfl, belowEnds⟩ := ends.asked asks
      exact ⟨below, Nat.lt_succ_self below, belowEnds⟩
  | tail _ asks ih =>
      obtain ⟨middle, less, middleEnds⟩ := ih
      obtain ⟨below, rfl, belowEnds⟩ := middleEnds.asked asks
      exact ⟨below, Nat.lt_of_succ_lt less, belowEnds⟩

theorem EndsWithin.not_around (ends : design.EndsWithin levels reading) :
    ¬ TransGen design.Asks reading reading := by
  induction levels using Nat.strong_induction_on with
  | _ levels ih =>
      intro around
      obtain ⟨below, less, belowEnds⟩ := ends.lt_of_transGen around
      exact ih below less belowEnds around

theorem EndsWithin.not_circles (ends : design.EndsWithin levels reading) :
    ¬ design.Circles reading := by
  rintro ⟨again, leads, around⟩
  rcases Relation.reflTransGen_iff_eq_or_transGen.mp leads with rfl | leads
  · exact ends.not_around around
  · obtain ⟨_, _, belowEnds⟩ := ends.lt_of_transGen leads
    exact belowEnds.not_around around

variable (design) in
/-- The readings of all lookups among the elements. -/
def asked : Finset Reading :=
  (design.banks.toList.flatMap fun bank => bank.elements.filterMap fun element =>
    match element with
    | .lookup source => some source.reading
    | _ => none).toFinset

theorem mem_asked (asks : design.Asks reading next) : next ∈ design.asked := by
  obtain ⟨before, source, after, split, -, rfl⟩ := asks
  have listed : Element.lookup source ∈ design.elements reading.bank :=
    List.mem_of_mem_take (by rw [split]; simp)
  rw [elements] at listed
  cases stored : design.banks[reading.bank]? with
  | none => simp [stored] at listed
  | some bank =>
      rw [stored] at listed
      rw [asked, List.mem_toFinset, List.mem_flatMap]
      exact ⟨bank, Array.mem_toList_iff.mpr (Array.mem_of_getElem? stored),
        List.mem_filterMap.mpr ⟨.lookup source, listed, rfl⟩⟩

theorem exists_asking_path (endless : ¬ design.EndsWithin levels reading) :
    ∃ path : Nat → Reading, path 0 = reading ∧
      ∀ k < levels + 1, design.Asks (path k) (path (k + 1)) := by
  induction levels generalizing reading with
  | zero =>
      obtain ⟨next, asks, -⟩ := exists_asked endless
      refine ⟨fun k => if k = 0 then reading else next, rfl, fun k inside => ?_⟩
      rw [Nat.lt_one_iff.mp inside]
      exact asks
  | succ levels ih =>
      obtain ⟨next, asks, below⟩ := exists_asked endless
      obtain ⟨path, rfl, steps⟩ := ih (below levels rfl)
      exact exists_longer_path asks steps

/-- A reading ends, at some level, exactly if it goes in no circle. -/
theorem ends_iff : (∃ levels, design.EndsWithin levels reading) ↔ ¬ design.Circles reading := by
  constructor
  · rintro ⟨levels, ends⟩
    exact ends.not_circles
  · intro straight
    by_contra endless
    rw [not_exists] at endless
    obtain ⟨path, start, steps⟩ := exists_asking_path (endless (insert reading design.asked).card)
    apply straight
    rw [← start]
    refine exists_circle_of_path steps (fun k inside => ?_) (Nat.lt_succ_self _)
    cases k with
    | zero =>
        rw [start]
        exact Finset.mem_insert_self _ _
    | succ k =>
        exact Finset.mem_insert_of_mem (mem_asked (steps k (Nat.lt_of_succ_lt inside)))

/-! ## Lookups -/

variable {lookup : Lookup}

theorem scan_of_ends {bank count : Nat} (ends : design.EndsWithin levels ⟨bank, count⟩) :
    design.scan design.readingDepth bank count = design.scan levels bank count := by
  apply mapM_eq_of_finished _ ends
  intro element _ finished
  exact design.elementValue_of_finished finished

theorem ends_depth_iff :
    design.EndsWithin design.readingDepth reading ↔ ¬ design.Circles reading := by
  rw [← ends_iff]
  constructor
  · exact fun ends => ⟨_, ends⟩
  · rintro ⟨levels, ends⟩
    rw [EndsWithin, scan_of_ends ends]
    exact ends

theorem finished_lookupValue :
    Finished (design.lookupValue lookup) ↔ ¬ design.Circles lookup.reading := by
  rw [← ends_iff]
  constructor
  · intro finished
    rw [← design.lookupValueWithin_eq (Nat.le_succ _), finished_succ] at finished
    exact ⟨_, finished⟩
  · rintro ⟨levels, ends⟩
    have finished : Finished (design.lookupValueWithin (levels + 1) lookup) :=
      design.finished_succ.mpr ends
    rw [design.lookupValue_of_finished finished]
    exact finished

theorem lookupShape_eq_scan :
    design.lookupShape lookup =
      (design.scan design.readingDepth lookup.bank (design.elements lookup.bank).length).map
        fun values => Shape.unify (values.map Value.shape) := by
  rw [scan, List.take_length]
  rfl

theorem finished_lookupShape :
    Finished (design.lookupShape lookup) ↔ ¬ design.Circles (lookup.survey design) := by
  rw [← ends_depth_iff, lookupShape_eq_scan, finished_map]
  rfl

theorem endless_iff :
    (∀ levels, design.lookupValueWithin levels lookup = .error .endlessBank) ↔
      design.Circles lookup.reading := by
  rw [← not_iff_not, ← finished_lookupValue, not_forall]
  constructor
  · rintro ⟨levels, finished⟩
    rw [design.lookupValue_of_finished finished]
    exact finished
  · exact fun finished => ⟨design.readingDepth, finished⟩

/-! ## Texts -/

/-- An element of one bank names the other. -/
def Contains (design : Design) (bank inner : Nat) : Prop :=
  ∃ element ∈ design.elements bank, element.Mentions inner

/-- No bank behind the bank contains itself, through however many others. -/
def Unfolds (design : Design) (bank : Nat) : Prop :=
  ∀ inner, ReflTransGen design.Contains bank inner → ¬ TransGen design.Contains inner inner

end Design

namespace Element

variable {text other : Nat → String}

mutual

theorem textWith_congr (element : Element)
    (same : ∀ bank, element.Mentions bank → text bank = other bank) :
    element.textWith text = element.textWith other := by
  cases element with
  | int number => rfl
  | value tree => rfl
  | bank id => exact same id .bank
  | lookup source => rw [textWith, textWith, same source.bank .lookup]
  | record name fields =>
      rw [textWith, textWith,
        fieldTexts_congr fields fun field listed bank inner => same bank (.field listed inner)]

theorem fieldTexts_congr (fields : List (String × Element))
    (same : ∀ field ∈ fields, ∀ bank, field.2.Mentions bank → text bank = other bank) :
    fieldTexts text fields = fieldTexts other fields := by
  cases fields with
  | nil => rfl
  | cons field rest =>
      obtain ⟨name, element⟩ := field
      rw [fieldTexts, fieldTexts, textWith_congr element (same _ List.mem_cons_self),
        fieldTexts_congr rest fun field listed => same field (List.mem_cons_of_mem _ listed)]

end

end Element

namespace Design

variable {design : Design} {levels bank : Nat}

theorem exists_containing_path
    (cut : design.bankTextWithin (levels + 1) bank ≠ design.bankTextWithin levels bank) :
    ∃ path : Nat → Nat, path 0 = bank ∧
      ∀ k < levels, design.Contains (path k) (path (k + 1)) := by
  induction levels generalizing bank with
  | zero => exact ⟨fun _ => bank, rfl, fun k inside => absurd inside (Nat.not_lt_zero k)⟩
  | succ levels ih =>
      have inner : ∃ element ∈ design.elements bank, ∃ inner, element.Mentions inner ∧
          design.bankTextWithin (levels + 1) inner ≠ design.bankTextWithin levels inner := by
        by_contra whole
        apply cut
        have texts : (design.elements bank).map
              (Element.textWith (design.bankTextWithin (levels + 1))) =
            (design.elements bank).map (Element.textWith (design.bankTextWithin levels)) := by
          apply List.map_congr_left
          intro element listed
          apply element.textWith_congr
          intro inner mentioned
          by_contra different
          exact whole ⟨element, listed, inner, mentioned, different⟩
        rw [bankTextWithin, texts, bankTextWithin]
      obtain ⟨element, listed, inner, mentioned, different⟩ := inner
      obtain ⟨path, rfl, steps⟩ := ih different
      exact exists_longer_path ⟨element, listed, mentioned⟩ steps

theorem Unfolds.bankTextWithin_eq (unfolds : design.Unfolds bank)
    (enough : design.depth ≤ levels) :
    design.bankTextWithin levels bank = design.bankText bank := by
  induction levels, enough using Nat.le_induction with
  | base => rfl
  | succ levels enough ih =>
      rw [← ih]
      by_contra cut
      obtain ⟨path, rfl, steps⟩ := exists_containing_path cut
      have inside : ∀ k < levels, path k ∈ Finset.range design.banks.size := by
        intro k below
        obtain ⟨element, listed, -⟩ := steps k below
        exact Finset.mem_range.mpr (lt_size_of_mem listed)
      have long : (Finset.range design.banks.size).card < levels := by
        rw [Finset.card_range]
        exact enough
      obtain ⟨inner, leads, around⟩ := exists_circle_of_path steps inside long
      exact unfolds inner leads around

theorem Unfolds.behind {inner : Nat} (unfolds : design.Unfolds bank)
    (leads : ReflTransGen design.Contains bank inner) : design.Unfolds inner :=
  fun last further => unfolds last (leads.trans further)

theorem exists_refused {count : Nat} {fault : Fault}
    (refused : design.scan levels bank count = .error fault) (other : fault ≠ .endlessBank) :
    ∃ inner element, ReflTransGen design.Contains bank inner ∧
      element ∈ design.elements inner ∧ fault = .notValue (design.elementText element) := by
  induction levels using Nat.strong_induction_on generalizing bank count with
  | _ levels ih =>
      obtain ⟨_, item, _, split, _, failed⟩ := mapM_eq_error.mp refused
      have listed : item ∈ design.elements bank := List.mem_of_mem_take (by rw [split]; simp)
      cases item with
      | int number => cases failed
      | value tree => cases failed
      | bank id => exact ⟨bank, _, .refl, listed, (Except.error.inj failed).symm⟩
      | record name fields => exact ⟨bank, _, .refl, listed, (Except.error.inj failed).symm⟩
      | lookup source =>
          change design.lookupValueWithin levels source = .error fault at failed
          cases levels with
          | zero => exact absurd (Except.error.inj failed).symm other
          | succ below =>
              rw [lookupValueWithin_succ, map_eq_error] at failed
              obtain ⟨inner, element, leads, elementListed, same⟩ :=
                ih below (Nat.lt_succ_self below) failed
              have here : design.Contains bank source.bank := ⟨_, listed, .lookup⟩
              exact ⟨inner, element, .head here leads, elementListed, same⟩

theorem text_of_refused {count : Nat} {fault : Fault}
    (refused : design.scan levels bank count = .error fault) (other : fault ≠ .endlessBank) :
    ∃ element, fault = .notValue (design.elementText element) ∧
      (design.Unfolds bank → ∀ more, design.depth ≤ more →
        element.textWith (design.bankTextWithin more) = design.elementText element) := by
  obtain ⟨inner, element, leads, listed, same⟩ := exists_refused refused other
  refine ⟨element, same, fun unfolds more enough => element.textWith_congr ?_⟩
  intro last mentioned
  exact (unfolds.behind (leads.tail ⟨element, listed, mentioned⟩)).bankTextWithin_eq enough

/-! ## Casts of lookups -/

/-- A lookup has a value, or is refused for one of the elements behind it, exactly if reading it
goes in no circle; with a circle no number of levels is enough.  The same holds of its shape, which
reads elements that the value does not reach.  What the refusal says has an end if no bank behind
that of the lookup contains itself. -/
theorem lookup_ends_iff (design : Design) (lookup : Lookup) :
    ((∃ levels, Finished (design.lookupValueWithin levels lookup)) ↔
        ¬ design.Circles lookup.reading) ∧
      (Finished (design.lookupValue lookup) ↔ ¬ design.Circles lookup.reading) ∧
      (Finished (design.cast (.lookup lookup)) ↔ ¬ design.Circles lookup.reading) ∧
      (Finished (design.lookupShape lookup) ↔ ¬ design.Circles (lookup.survey design)) ∧
      ∀ fault, fault ≠ .endlessBank →
        (design.lookupValue lookup = .error fault ∨ design.lookupShape lookup = .error fault) →
        ∃ element, fault = .notValue (design.elementText element) ∧
          (design.Unfolds lookup.bank → ∀ levels, design.depth ≤ levels →
            element.textWith (design.bankTextWithin levels) = design.elementText element) := by
  refine ⟨?_, finished_lookupValue, ?_, finished_lookupShape, ?_⟩
  · rw [← not_iff_not, not_not, ← endless_iff, not_exists]
    exact forall_congr' fun levels => not_not
  · rw [cast_lookup]
    exact finished_lookupValue
  · intro fault other refused
    rcases refused with value | shape
    · rw [← design.lookupValueWithin_eq (Nat.le_succ _), lookupValueWithin_succ,
        map_eq_error] at value
      exact text_of_refused value other
    · rw [lookupShape_eq_scan, map_eq_error] at shape
      exact text_of_refused shape other

/-- A bank whose only element becomes the lookup of that element. -/
def ring : List Action :=
  [.new [.int 0], .select 0 (.value (.ofInt 0)), .edit 0 (.set 0 (.lookup ⟨0, .ofInt 0⟩))]

/-- The lookup is read at a constant, which leaves the bank mutable. -/
theorem endless_ring :
    (Build.runIn (Action.runAll (ring.take 1) {}) (Bank.select 0 (.value (.ofInt 0)))).1 =
        .ok ⟨0, .ofInt 0⟩ ∧
      ∀ levels, (Action.runAll ring {}).design.lookupValueWithin levels ⟨0, .ofInt 0⟩ =
        .error .endlessBank := by
  refine ⟨rfl, endless_iff.mpr ?_⟩
  have itself : (Action.runAll ring {}).design.Asks
      (Lookup.reading ⟨0, .ofInt 0⟩) (Lookup.reading ⟨0, .ofInt 0⟩) :=
    ⟨[], ⟨0, .ofInt 0⟩, [], rfl, by simp, rfl⟩
  exact ⟨_, .refl, .single itself⟩

end Design

end Gateware
