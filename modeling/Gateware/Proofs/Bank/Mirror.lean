import Gateware.Proofs.Bank.Steps
import Gateware.Proofs.Concur
import Gateware.Proofs.Design.Reading

/-!
# Mirrored designs

Two designs that share some banks and have made others in step with each other, under the same
places counted from where they parted.  Reading and casting come to the same values in both,
and to faults of the same kind.
-/

set_option autoImplicit false

namespace Gateware

/-! ## Elements that concur -/

theorem concur_elementAt {α β : Type} {related : α → β → Prop} {left : List α} {right : List β}
    {index : Int} (pairs : List.Forall₂ related left right) :
    Concur related (Bank.elementAt left index) (Bank.elementAt right index) := by
  rw [Bank.elementAt, Bank.elementAt, pairs.length_eq]
  apply concur_refl.bind
  rintro position _ rfl
  have here := List.forall₂_iff_get.mp pairs
  by_cases inside : position < left.length
  · have mirrored : position < right.length := pairs.length_eq ▸ inside
    rw [List.getElem?_eq_getElem inside, List.getElem?_eq_getElem mirrored]
    exact .ok (here.2 position inside mirrored)
  · have mirrored : ¬ position < right.length := pairs.length_eq ▸ inside
    rw [List.getElem?_eq_none (Nat.le_of_not_lt inside),
      List.getElem?_eq_none (Nat.le_of_not_lt mirrored)]
    exact .fault rfl

/-! ## Elements that are alike -/

namespace Element

/-- Two elements that differ only in the banks that they name, and name corresponding ones. -/
inductive Alike (same : Nat → Nat → Prop) : Element → Element → Prop
  | int (number : Int) : Alike same (.int number) (.int number)
  | value (tree : Value) : Alike same (.value tree) (.value tree)
  | bank {left right : Nat} (here : same left right) : Alike same (.bank left) (.bank right)
  | lookup {left right : Nat} (index : Value) (here : same left right) :
      Alike same (.lookup ⟨left, index⟩) (.lookup ⟨right, index⟩)
  | record (name : String) {left right : List (String × Element)}
      (names : left.map Prod.fst = right.map Prod.fst)
      (inner : List.Forall₂ (Alike same) (left.map Prod.snd) (right.map Prod.snd)) :
      Alike same (.record name left) (.record name right)

variable {same : Nat → Nat → Prop}

theorem alike_refl {element : Element} (fixed : ∀ bank, element.Mentions bank → same bank bank) :
    element.Alike same element :=
  match element with
  | .int number => .int number
  | .value tree => .value tree
  | .bank id => .bank (fixed id .bank)
  | .lookup ⟨id, index⟩ => .lookup index (fixed id .lookup)
  | .record name fields => by
      apply Alike.record name rfl
      apply List.forall₂_same.mpr
      intro inner listed
      obtain ⟨field, inside, rfl⟩ := List.mem_map.mp listed
      have smaller := List.sizeOf_lt_of_mem inside
      exact alike_refl fun bank mentioned => fixed bank (.field inside mentioned)
termination_by sizeOf element
decreasing_by
  obtain ⟨fieldName, inner⟩ := field
  simp only [Prod.mk.sizeOf_spec, record.sizeOf_spec] at smaller ⊢
  omega

theorem find?_alike {left right : List (String × Element)} {name : String}
    (names : left.map Prod.fst = right.map Prod.fst)
    (inner : List.Forall₂ (Alike same) (left.map Prod.snd) (right.map Prod.snd)) :
    Option.Rel (Alike same) ((left.find? fun field => field.1 = name).map Prod.snd)
      ((right.find? fun field => field.1 = name).map Prod.snd) := by
  induction left generalizing right with
  | nil =>
      cases right with
      | nil => exact .none
      | cons => cases names
  | cons first rest ih =>
      cases right with
      | nil => cases names
      | cons mirrored others =>
          simp only [List.map_cons, List.cons.injEq] at names
          rw [List.map_cons, List.map_cons, List.forall₂_cons] at inner
          rw [List.find?_cons, List.find?_cons, names.1]
          by_cases found : mirrored.1 = name
          · simpa [found] using Option.Rel.some inner.1
          · simpa [found] using ih names.2 inner.2

theorem concur_fields {left right : List (String × Element)} {index : Int}
    (inner : List.Forall₂ (Alike same) (left.map Prod.snd) (right.map Prod.snd)) :
    Concur (Alike same) ((Bank.elementAt left index).map Prod.snd)
      ((Bank.elementAt right index).map Prod.snd) := by
  have picked (fields : List (String × Element)) :
      (Bank.elementAt fields index).map Prod.snd =
        Bank.elementAt (fields.map Prod.snd) index := by
    rw [Bank.elementAt, Bank.elementAt, List.length_map]
    cases Bank.place index fields.length with
    | error fault => rfl
    | ok position =>
        simp only [bind, Except.bind, List.getElem?_map]
        cases fields[position]? <;> rfl
  rw [picked, picked]
  exact concur_elementAt inner

end Element

/-! ## Designs in step -/

/-- Where two designs part: their custom values, the banks that they share, and how many banks
each of them had. -/
structure Mirror where
  values : Array CustomValue
  shared : Nat → Prop
  left : Nat
  right : Nat
  below {bank : Nat} (here : shared bank) : bank < left
  wider : left ≤ right

namespace Mirror

/-- A shared bank, or banks made in the same place since the designs parted. -/
def Same (mirror : Mirror) (bank mirrored : Nat) : Prop :=
  bank = mirrored ∧ mirror.shared bank ∨
    ∃ place, bank = mirror.left + place ∧ mirrored = mirror.right + place

/-- Two designs that made as many banks since they parted, and agree on all that is read. -/
structure Twin (mirror : Mirror) (left right : Design) : Prop where
  values : left.values = mirror.values
  valuesToo : right.values = mirror.values
  sizes : ∃ made, left.banks.size = mirror.left + made ∧ right.banks.size = mirror.right + made
  alike {bank mirrored : Nat} (same : mirror.Same bank mirrored) :
    List.Forall₂ (Element.Alike mirror.Same) (left.elements bank) (right.elements mirrored)

variable {mirror : Mirror} {left right : Design}

theorem Twin.same_size (twin : mirror.Twin left right) :
    mirror.Same left.banks.size right.banks.size :=
  Or.inr twin.sizes

theorem Twin.size_le (twin : mirror.Twin left right) : left.banks.size ≤ right.banks.size := by
  obtain ⟨made, leftSize, rightSize⟩ := twin.sizes
  have wider := mirror.wider
  omega

theorem Twin.frozenAt_left {bank : Nat} (twin : mirror.Twin left right) :
    mirror.Twin (left.frozenAt bank) right where
  values := twin.values
  valuesToo := twin.valuesToo
  sizes := by simpa using twin.sizes
  alike same := by simpa using twin.alike same

theorem Twin.frozenAt_right {bank : Nat} (twin : mirror.Twin left right) :
    mirror.Twin left (right.frozenAt bank) where
  values := twin.values
  valuesToo := twin.valuesToo
  sizes := by simpa using twin.sizes
  alike same := by simpa using twin.alike same

theorem Twin.withBank {elements mirrored : List Element} {frozen frozenToo : Bool}
    (twin : mirror.Twin left right)
    (alike : List.Forall₂ (Element.Alike mirror.Same) elements mirrored) :
    mirror.Twin (left.withBank elements frozen) (right.withBank mirrored frozenToo) where
  values := twin.values
  valuesToo := twin.valuesToo
  sizes := by
    obtain ⟨made, leftSize, rightSize⟩ := twin.sizes
    refine ⟨made + 1, ?_, ?_⟩
    · rw [Design.size_withBank, leftSize, Nat.add_assoc]
    · rw [Design.size_withBank, rightSize, Nat.add_assoc]
  alike := by
    intro bank other same
    obtain ⟨made, leftSize, rightSize⟩ := twin.sizes
    have wider := mirror.wider
    -- Corresponding banks are both old, both the new one, or both not there yet.
    have places : bank < left.banks.size ∧ other < right.banks.size ∨
        bank = left.banks.size ∧ other = right.banks.size ∨
        left.banks.size + 1 ≤ bank ∧ right.banks.size + 1 ≤ other := by
      rcases same with ⟨rfl, here⟩ | ⟨place, rfl, rfl⟩
      · have below := mirror.below here
        omega
      · omega
    rcases places with ⟨old, oldToo⟩ | ⟨rfl, rfl⟩ | ⟨above, aboveToo⟩
    · rw [Design.elements_withBank_old old, Design.elements_withBank_old oldToo]
      exact twin.alike same
    · rw [Design.elements_withBank_new, Design.elements_withBank_new]
      exact alike
    · rw [Design.elements_of_size_le (by simpa using above),
        Design.elements_of_size_le (by simpa using aboveToo)]
      exact .nil

/-! ## Reading and casting -/

private theorem concur_notValue {text mirrored : String} :
    Concur Eq (.error (.notValue text) : Except Fault Value) (.error (.notValue mirrored)) := by
  apply Concur.fault
  rw [Fault.kind, Fault.kind]

theorem concur_elementValueWith {onLeft onRight : Lookup → Except Fault Value}
    {element mirrored : Element} (alike : element.Alike mirror.Same mirrored)
    (lookups : ∀ {bank other : Nat} (index : Value), mirror.Same bank other →
      Concur Eq (onLeft ⟨bank, index⟩) (onRight ⟨other, index⟩)) :
    Concur Eq (left.elementValueWith onLeft element)
      (right.elementValueWith onRight mirrored) := by
  cases alike with
  | int number => exact concur_refl
  | value tree => exact concur_refl
  | bank here =>
      rw [Design.elementValueWith, Design.elementValueWith]
      exact concur_notValue
  | lookup index here => exact lookups index here
  | record name names inner =>
      rw [Design.elementValueWith, Design.elementValueWith]
      exact concur_notValue

theorem Twin.concur_lookupValueWithin {levels bank other : Nat} {index : Value}
    (twin : mirror.Twin left right) (same : mirror.Same bank other) :
    Concur Eq (left.lookupValueWithin levels ⟨bank, index⟩)
      (right.lookupValueWithin levels ⟨other, index⟩) := by
  induction levels generalizing bank other index with
  | zero => exact .fault rfl
  | succ levels ih =>
      rw [Design.lookupValueWithin_succ, Design.lookupValueWithin_succ]
      have scans : Concur (List.Forall₂ Eq) (left.scan levels bank (Design.reach index.width))
          (right.scan levels other (Design.reach index.width)) :=
        Concur.mapM (List.forall₂_take _ (twin.alike same)) fun alike =>
          concur_elementValueWith alike fun index here => ih here
      apply scans.map
      intro values mirrored equal
      rw [List.forall₂_eq_eq_eq] at equal
      rw [equal]

theorem Twin.concur_lookupValue {bank other : Nat} {index : Value}
    (twin : mirror.Twin left right) (same : mirror.Same bank other) :
    Concur Eq (left.lookupValue ⟨bank, index⟩) (right.lookupValue ⟨other, index⟩) := by
  rw [← left.lookupValueWithin_eq (Nat.le_max_left left.readingDepth right.readingDepth),
    ← right.lookupValueWithin_eq (Nat.le_max_right left.readingDepth right.readingDepth)]
  exact twin.concur_lookupValueWithin same

theorem Twin.concur_elementValue {element mirrored : Element} (twin : mirror.Twin left right)
    (alike : element.Alike mirror.Same mirrored) :
    Concur Eq (left.elementValue element) (right.elementValue mirrored) :=
  concur_elementValueWith alike fun _ here => twin.concur_lookupValue here

end Mirror

inductive Operand.Names (values : Array CustomValue) (bank : Nat) : Operand → Prop
  | lookup {index : Value} : Names values bank (.lookup ⟨bank, index⟩)
  | custom {object : Custom} {definition : CustomValue} {target : Operand}
      (stored : values[object.id]? = some definition) (found : definition.target = .ok target)
      (inner : Names values bank target) : Names values bank (.custom object)

def Access.Names (values : Array CustomValue) (bank : Nat) : Access → Prop
  | .item index => index.Names values bank
  | .field _ => False

namespace Mirror

variable {mirror : Mirror} {left right : Design}

theorem Twin.concur_castWithin {more : Nat} {met : List Nat} {operand : Operand}
    (twin : mirror.Twin left right)
    (shared : ∀ bank, operand.Names mirror.values bank → mirror.shared bank) :
    Concur Eq (left.castWithin more met operand) (right.castWithin more met operand) := by
  induction more generalizing met operand with
  | zero =>
      cases operand with
      | lookup source =>
          rw [Design.castWithin, Design.castWithin]
          exact twin.concur_lookupValue (Or.inl ⟨rfl, shared source.bank .lookup⟩)
      | _ =>
          rw [Design.castWithin, Design.castWithin]
          exact concur_refl
  | succ more ih =>
      cases operand with
      | lookup source =>
          rw [Design.castWithin, Design.castWithin]
          exact twin.concur_lookupValue (Or.inl ⟨rfl, shared source.bank .lookup⟩)
      | custom object =>
          rw [Design.castWithin, Design.castWithin, twin.values, twin.valuesToo]
          split
          · exact concur_refl
          · cases stored : mirror.values[object.id]? with
            | none => exact concur_refl
            | some definition =>
                cases found : definition.target with
                | error fault =>
                    simp only [found, Except.bind]
                    exact concur_refl
                | ok target =>
                    simp only [found, Except.bind]
                    exact ih fun bank named => shared bank (.custom stored found named)
      | _ =>
          rw [Design.castWithin, Design.castWithin]
          exact concur_refl

theorem Twin.concur_cast {operand : Operand} (twin : mirror.Twin left right)
    (shared : ∀ bank, operand.Names mirror.values bank → mirror.shared bank) :
    Concur Eq (left.cast operand) (right.cast operand) := by
  rw [Design.cast, Design.cast, twin.values, twin.valuesToo]
  exact twin.concur_castWithin shared

/-! ## A design and a later one -/

def between (earlier later : Design) (shared : Nat → Prop)
    (below : ∀ {bank}, shared bank → bank < earlier.banks.size)
    (wider : earlier.banks.size ≤ later.banks.size) : Mirror where
  values := earlier.values
  shared := shared
  left := earlier.banks.size
  right := later.banks.size
  below := below
  wider := wider

/-- The designs are in step if no shared bank has changed or names one that is not shared. -/
theorem twin_between {earlier later : Design} {shared : Nat → Prop}
    {below : ∀ {bank}, shared bank → bank < earlier.banks.size}
    {wider : earlier.banks.size ≤ later.banks.size} (values : later.values = earlier.values)
    (settled : ∀ bank, shared bank → later.elements bank = earlier.elements bank)
    (inner : ∀ bank, shared bank → ∀ element ∈ earlier.elements bank,
      ∀ other, element.Mentions other → shared other) :
    (between earlier later shared below wider).Twin earlier later where
  values := rfl
  valuesToo := values
  sizes := ⟨0, rfl, rfl⟩
  alike := by
    rintro bank _ (⟨rfl, here⟩ | ⟨place, rfl, rfl⟩)
    · rw [settled bank here]
      refine List.forall₂_same.mpr fun element listed => Element.alike_refl fun other named => ?_
      exact Or.inl ⟨rfl, inner bank here element listed other named⟩
    · change List.Forall₂ _ (earlier.elements (earlier.banks.size + place))
        (later.elements (later.banks.size + place))
      rw [Design.elements_of_size_le (Nat.le_add_right _ _),
        Design.elements_of_size_le (Nat.le_add_right _ _)]
      exact .nil

theorem twin_of_extends {earlier later : Design} (grows : later.Extends earlier)
    (closed : earlier.Closed) :
    (between earlier later (· < earlier.banks.size) id grows.size).Twin earlier later :=
  twin_between grows.values (fun _ stored => grows.elements stored)
    fun bank _ element listed => closed bank element listed

end Mirror

namespace Design.Extends

variable {earlier later : Design}

theorem elementValue_ok {element : Element} {value : Value} (grows : later.Extends earlier)
    (closed : earlier.Closed) (inside : element.Within earlier.banks.size)
    (found : earlier.elementValue element = .ok value) :
    later.elementValue element = .ok value := by
  have same := (Mirror.twin_of_extends grows closed).concur_elementValue
    (Element.alike_refl fun bank named => Or.inl ⟨rfl, inside bank named⟩)
  rw [found] at same
  generalize later.elementValue element = other at same ⊢
  cases same with
  | ok here => rw [here]

theorem concur_cast {operand : Operand} (grows : later.Extends earlier) (closed : earlier.Closed)
    (rooted : ∀ root, operand.Names earlier.values root → root < earlier.banks.size) :
    Concur Eq (earlier.cast operand) (later.cast operand) :=
  (Mirror.twin_of_extends grows closed).concur_cast rooted

end Design.Extends

end Gateware
