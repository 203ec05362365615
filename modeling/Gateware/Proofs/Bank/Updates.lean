import Gateware.Design.Cast

/-!
# Updates of banks

What filling, freezing and adding a bank does to every bank, designs that extend others
by such steps, and designs in which every reference leads to a bank.
-/

set_option autoImplicit false

namespace Gateware

namespace Design

variable (design : Design)

/-! ## The three updates -/

def refilled (bank : Nat) (elements : List Element) : Design :=
  { design with banks := design.banks.modify bank fun state => { state with elements } }

def frozenAt (bank : Nat) : Design :=
  { design with banks := design.banks.modify bank fun state => { state with frozen := true } }

def withBank (elements : List Element) (frozen : Bool) : Design :=
  { design with banks := design.banks.push { elements, frozen } }

variable {design} {bank : Nat}

theorem getElem?_banks (stored : bank < design.banks.size) :
    design.banks[bank]? = some design.banks[bank] :=
  Array.getElem?_eq_getElem stored

theorem elements_of_size_le (missing : design.banks.size ≤ bank) : design.elements bank = [] := by
  simp [elements, Array.getElem?_eq_none missing]

theorem lt_size_of_mem {element : Element} (listed : element ∈ design.elements bank) :
    bank < design.banks.size := by
  apply Nat.lt_of_not_le
  intro missing
  rw [elements_of_size_le missing] at listed
  cases listed

theorem lt_size_of_isFrozen (frozen : design.isFrozen bank = true) :
    bank < design.banks.size := by
  apply Nat.lt_of_not_le
  intro missing
  simp [isFrozen, Array.getElem?_eq_none missing] at frozen

@[simp]
theorem size_refilled (elements : List Element) :
    (design.refilled bank elements).banks.size = design.banks.size := by
  simp [refilled]

theorem elements_refilled_self {elements : List Element} (stored : bank < design.banks.size) :
    (design.refilled bank elements).elements bank = elements := by
  simp [refilled, Design.elements, Array.getElem?_modify, getElem?_banks stored]

theorem elements_refilled_other {elements : List Element} {other : Nat} (different : other ≠ bank) :
    (design.refilled bank elements).elements other = design.elements other := by
  simp [refilled, Design.elements, Array.getElem?_modify, Ne.symm different]

@[simp]
theorem isFrozen_refilled (elements : List Element) (other : Nat) :
    (design.refilled bank elements).isFrozen other = design.isFrozen other := by
  by_cases same : bank = other
  · cases stored : design.banks[other]? <;>
      simp [refilled, isFrozen, Array.getElem?_modify, same, stored]
  · simp [refilled, isFrozen, Array.getElem?_modify, same]

@[simp]
theorem size_frozenAt : (design.frozenAt bank).banks.size = design.banks.size := by
  simp [frozenAt]

@[simp]
theorem elements_frozenAt (other : Nat) :
    (design.frozenAt bank).elements other = design.elements other := by
  by_cases same : bank = other
  · cases stored : design.banks[other]? <;>
      simp [frozenAt, elements, Array.getElem?_modify, same, stored]
  · simp [frozenAt, elements, Array.getElem?_modify, same]

theorem isFrozen_frozenAt {other : Nat} (stored : bank < design.banks.size) :
    (design.frozenAt bank).isFrozen other = true ↔
      design.isFrozen other = true ∨ other = bank := by
  by_cases same : other = bank
  · subst same
    simp [frozenAt, isFrozen, Array.getElem?_modify, getElem?_banks stored]
  · simp [frozenAt, isFrozen, Array.getElem?_modify, same, Ne.symm same]

@[simp]
theorem size_withBank (elements : List Element) (frozen : Bool) :
    (design.withBank elements frozen).banks.size = design.banks.size + 1 := by
  simp [withBank]

theorem elements_withBank_new (elements : List Element) (frozen : Bool) :
    (design.withBank elements frozen).elements design.banks.size = elements := by
  simp [withBank, Design.elements]

theorem elements_withBank_old {elements : List Element} {frozen : Bool}
    (stored : bank < design.banks.size) :
    (design.withBank elements frozen).elements bank = design.elements bank := by
  simp [withBank, Design.elements, Array.getElem?_push, Nat.ne_of_lt stored]

theorem isFrozen_withBank (elements : List Element) (frozen : Bool) :
    (design.withBank elements frozen).isFrozen bank = true ↔
      design.isFrozen bank = true ∨ bank = design.banks.size ∧ frozen = true := by
  by_cases new : bank = design.banks.size
  · subst new
    simp [withBank, isFrozen]
  · simp [withBank, isFrozen, Array.getElem?_push, new]

/-! ## Extensions -/

/-- A design after steps that add banks and freeze them, and leave all elements as they are. -/
structure Extends (later earlier : Design) : Prop where
  values : later.values = earlier.values
  size : earlier.banks.size ≤ later.banks.size
  elements {bank : Nat} (stored : bank < earlier.banks.size) :
    later.elements bank = earlier.elements bank
  frozen {bank : Nat} (frozen : earlier.isFrozen bank = true) : later.isFrozen bank = true

theorem Extends.refl (design : Design) : design.Extends design :=
  ⟨rfl, Nat.le_refl _, fun _ => rfl, fun frozen => frozen⟩

theorem Extends.trans {last middle first : Design} (left : last.Extends middle)
    (right : middle.Extends first) : last.Extends first where
  values := left.values.trans right.values
  size := Nat.le_trans right.size left.size
  elements stored :=
    (left.elements (Nat.lt_of_lt_of_le stored right.size)).trans (right.elements stored)
  frozen frozen := left.frozen (right.frozen frozen)

theorem extends_frozenAt (stored : bank < design.banks.size) :
    (design.frozenAt bank).Extends design where
  values := rfl
  size := by simp
  elements _ := by simp
  frozen frozen := (isFrozen_frozenAt stored).mpr (Or.inl frozen)

theorem extends_withBank (elements : List Element) (frozen : Bool) :
    (design.withBank elements frozen).Extends design where
  values := rfl
  size := by simp
  elements := elements_withBank_old
  frozen before := (isFrozen_withBank elements frozen).mpr (Or.inl before)

end Design

/-! ## References -/

/-- The banks that an element names, by itself or in its fields. -/
inductive Element.Mentions (bank : Nat) : Element → Prop where
  | bank : Mentions bank (.bank bank)
  | lookup {index : Value} : Mentions bank (.lookup ⟨bank, index⟩)
  | field {name : String} {fields : List (String × Element)} {field : String × Element}
      (listed : field ∈ fields) (inner : Mentions bank field.2) :
      Mentions bank (.record name fields)

namespace Element

/-- Every bank that the element names is one of so many. -/
def Within (element : Element) (count : Nat) : Prop :=
  ∀ bank, element.Mentions bank → bank < count

variable {element : Element} {count more : Nat}

theorem Within.mono (inside : element.Within count) (wider : count ≤ more) :
    element.Within more :=
  fun bank mentioned => Nat.lt_of_lt_of_le (inside bank mentioned) wider

@[simp]
theorem within_int (number : Int) : (Element.int number).Within count := by
  intro bank mentioned
  cases mentioned

@[simp]
theorem within_value (tree : Value) : (Element.value tree).Within count := by
  intro bank mentioned
  cases mentioned

@[simp]
theorem within_bank {bank : Nat} : (Element.bank bank).Within count ↔ bank < count := by
  constructor
  · intro inside
    exact inside bank .bank
  · intro inside other mentioned
    cases mentioned
    exact inside

@[simp]
theorem within_lookup {source : Lookup} :
    (Element.lookup source).Within count ↔ source.bank < count := by
  constructor
  · intro inside
    exact inside source.bank .lookup
  · intro inside other mentioned
    cases mentioned
    exact inside

theorem Within.field {name : String} {fields : List (String × Element)}
    {field : String × Element} (inside : (Element.record name fields).Within count)
    (listed : field ∈ fields) : field.2.Within count :=
  fun bank mentioned => inside bank (.field listed mentioned)

end Element

namespace Design

/-- Every reference in the elements leads to a bank. -/
def Closed (design : Design) : Prop :=
  ∀ bank, ∀ element ∈ design.elements bank, element.Within design.banks.size

variable {design : Design} {bank : Nat}

theorem closed_of_banks (each : ∀ state ∈ design.banks, ∀ element ∈ state.elements,
    element.Within design.banks.size) : design.Closed := by
  intro bank element listed
  have stored := lt_size_of_mem listed
  rw [elements, getElem?_banks stored] at listed
  exact each _ (Array.getElem_mem stored) element listed

theorem Closed.frozenAt (closed : design.Closed) : (design.frozenAt bank).Closed := by
  intro other element listed
  rw [elements_frozenAt] at listed
  rw [size_frozenAt]
  exact closed other element listed

theorem Closed.withBank {elements : List Element} {frozen : Bool} (closed : design.Closed)
    (inside : ∀ element ∈ elements, element.Within design.banks.size) :
    (design.withBank elements frozen).Closed := by
  intro other element listed
  rw [size_withBank]
  rcases Nat.lt_trichotomy other design.banks.size with old | rfl | above
  · rw [elements_withBank_old old] at listed
    exact (closed other element listed).mono (Nat.le_succ _)
  · rw [elements_withBank_new] at listed
    exact (inside element listed).mono (Nat.le_succ _)
  · have missing : (design.withBank elements frozen).banks.size ≤ other := by
      rw [size_withBank]
      exact above
    rw [elements_of_size_le missing] at listed
    cases listed

theorem Closed.refilled {elements : List Element} (closed : design.Closed)
    (stored : bank < design.banks.size)
    (inside : ∀ element ∈ elements, element.Within design.banks.size) :
    (design.refilled bank elements).Closed := by
  intro other element listed
  rw [size_refilled]
  by_cases same : other = bank
  · subst same
    rw [elements_refilled_self stored] at listed
    exact inside element listed
  · rw [elements_refilled_other same] at listed
    exact closed other element listed

end Design

end Gateware
