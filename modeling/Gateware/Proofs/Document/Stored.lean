import Mathlib.Data.Nat.Digits.Lemmas
import Gateware.Document.Forms
import Gateware.Proofs.Shape.Words
import Gateware.Proofs.Value.Constants

/-!
# Stored data

A document stores a shape, a range or a constant if it has the fields of its written form, in a
record among whatever else or in a list by themselves.  Just these documents are read, and what is
read is what they store: the kinds of the fields are checked, but nothing else.  So the data that is
read from a document has the invariants which the constructors of such data establish exactly if the
document stores something that they return.
-/

set_option autoImplicit false

namespace Gateware

namespace Document

/-- A document that has contents under names: a record with these fields, the first ones of their
names, or the list of the contents. -/
inductive Stores (entries : List (String × Document)) : Document → Prop where
  | record (fields : List (String × Document))
      (found : ∀ entry ∈ entries, fields.find? (fun field => field.1 = entry.1) = some entry) :
      Stores entries (.record fields)
  | list : Stores entries (.list (entries.map Prod.snd))

/-- A document that spells an integer: its sign, and digits of 32 bits with the lowest first. -/
def Spells (document : Document) (number : Int) : Prop :=
  ∃ (sign : Int) (digits : List Nat),
    document = .list [.int sign, .list (digits.map fun digit : Nat => .int digit)] ∧
      -1 ≤ sign ∧ sign ≤ 1 ∧ (∀ digit ∈ digits, digit < 2 ^ 32) ∧
      number = sign * (Nat.ofDigits (2 ^ 32) digits : Nat)

variable {document : Document} {entries : List (String × Document)}

/-! ## Fields -/

theorem find?_eq_some_iff {fields : List (String × Document)} {entry : String × Document} :
    (fields.find? fun field => field.1 = entry.1) = some entry ↔
      (fields.find? fun field => field.1 = entry.1).map Prod.snd = some entry.2 := by
  constructor
  · intro found
    rw [found]
    rfl
  · intro found
    obtain ⟨field, listed, content⟩ := Option.map_eq_some_iff.mp found
    have name : field.1 = entry.1 := by simpa using List.find?_some listed
    rw [listed, Prod.ext name content]

theorem fields?_list_iff {items : List Document} :
    (Document.list items).fields? (entries.map Prod.fst) =
        some (entries.map fun entry => some entry.2) ↔ items = entries.map Prod.snd := by
  simp only [fields?]
  constructor
  · intro read
    split at read
    · rename_i few
      have same := Option.some.inj read
      rw [List.length_map] at few same
      apply List.ext_getElem?
      intro index
      by_cases inside : index < entries.length
      · have content := congrArg (·[index]?) same
        simpa [inside] using content
      · rw [List.getElem?_eq_none (by omega), List.getElem?_eq_none (by simpa using inside)]
    · cases read
  · rintro rfl
    rw [if_pos (by simp)]
    congr 1
    apply List.ext_getElem
    · simp
    · intro index left right
      have inside : index < entries.length := by simpa using right
      simp [List.getElem?_eq_getElem inside]

theorem fields?_eq_some_iff :
    document.fields? (entries.map Prod.fst) = some (entries.map fun entry => some entry.2) ↔
      Stores entries document := by
  cases document with
  | record fields =>
      have same : (Document.record fields).fields? (entries.map Prod.fst) =
          some (entries.map fun entry => some entry.2) ↔
          ∀ entry ∈ entries, fields.find? (fun field => field.1 = entry.1) = some entry := by
        simp only [fields?, List.map_map, Option.some.injEq, List.map_inj_left,
          find?_eq_some_iff, Function.comp_apply]
      rw [same]
      exact ⟨.record fields, fun | .record _ found => found⟩
  | list items =>
      rw [fields?_list_iff]
      constructor
      · rintro rfl
        exact .list
      · intro stored
        cases stored
        rfl
  | _ => exact iff_of_false nofun nofun

theorem Stores.contents_unique {others : List (String × Document)}
    (stored : Stores entries document) (again : Stores others document)
    (names : entries.map Prod.fst = others.map Prod.fst) :
    entries.map Prod.snd = others.map Prod.snd := by
  have same := (fields?_eq_some_iff.mpr stored).symm.trans
    (names ▸ fields?_eq_some_iff.mpr again)
  have contents : (entries.map Prod.snd).map some = (others.map Prod.snd).map some := by
    rw [List.map_map, List.map_map]
    exact Option.some.inj same
  exact List.map_injective_iff.mpr (Option.some_injective Document) contents

/-! ## Contents -/

theorem int?_eq_some_iff {least greatest number : Int} :
    document.int? least greatest = some number ↔
      document = .int number ∧ least ≤ number ∧ number ≤ greatest := by
  cases document with
  | int held =>
      simp only [int?, Option.ite_none_right_eq_some, Option.some.injEq, int.injEq]
      constructor
      · rintro ⟨within, rfl⟩
        exact ⟨rfl, within⟩
      · rintro ⟨rfl, within⟩
        exact ⟨within, rfl⟩
  | _ => simp [int?]

theorem word?_eq_some_iff {bits number : Nat} :
    document.word? bits = some number ↔ document = .int number ∧ number < 2 ^ bits := by
  have cast := Binary.natCast_two_pow bits
  rw [word?, Option.map_eq_some_iff]
  constructor
  · rintro ⟨held, found, rfl⟩
    obtain ⟨rfl, lower, upper⟩ := int?_eq_some_iff.mp found
    rw [Int.toNat_of_nonneg lower]
    exact ⟨rfl, by omega⟩
  · rintro ⟨rfl, below⟩
    exact ⟨number, int?_eq_some_iff.mpr ⟨rfl, by omega, by omega⟩, Int.toNat_natCast number⟩

theorem position?_eq_some_iff {number : Int} :
    document.position? = some number ↔ document = .int number ∧ Position.Holds number := by
  rw [position?, int?_eq_some_iff]
  unfold Position.Holds
  constructor
  · rintro ⟨same, lower, upper⟩
    exact ⟨same, lower, by omega⟩
  · rintro ⟨same, lower, upper⟩
    exact ⟨same, lower, by omega⟩

theorem bool?_eq_some_iff {truth : Bool} :
    document.bool? = some truth ↔ document = .bool truth := by
  cases document <;> simp [bool?]

theorem mapM_word?_eq_some_iff {bits : Nat} {items : List Document} {digits : List Nat} :
    items.mapM (word? bits) = some digits ↔
      items = digits.map (fun digit : Nat => .int digit) ∧ ∀ digit ∈ digits, digit < 2 ^ bits := by
  induction items generalizing digits with
  | nil => cases digits <;> simp
  | cons item items ih =>
      cases digits with
      | nil => simp [Option.bind_eq_some_iff]
      | cons digit digits =>
          simp [Option.bind_eq_some_iff, word?_eq_some_iff, ih]
          tauto

end Document

open Document

/-! ## Integers -/

namespace Const

theorem ofLimbs_eq (digits : List Nat) : ofLimbs digits = Nat.ofDigits (2 ^ 32) digits := by
  induction digits with
  | nil => rfl
  | cons digit digits ih =>
      rw [Nat.ofDigits_cons, ← ih]
      rfl

theorem limbs_eq (n : Nat) : limbs n = Nat.digits (2 ^ 32) n := by
  induction n using Nat.strong_induction_on with
  | _ n ih =>
      rw [limbs]
      split
      · rename_i zero
        rw [zero, Nat.digits_zero]
      · rename_i positive
        rw [Nat.digits_def' (by decide) (by omega), ih _ (by omega)]

theorem integer?_eq_some_iff {document : Document} {number : Int} :
    integer? document = some number ↔ document.Spells number := by
  constructor
  · intro read
    unfold integer? at read
    split at read
    · rename_i sign digits
      obtain ⟨held, signRead, rest⟩ := Option.bind_eq_some_iff.mp read
      obtain ⟨places, digitsRead, product⟩ := Option.bind_eq_some_iff.mp rest
      obtain ⟨rfl, lower, upper⟩ := int?_eq_some_iff.mp signRead
      cases digits with
      | list items =>
          obtain ⟨rfl, small⟩ := mapM_word?_eq_some_iff.mp digitsRead
          rw [ofLimbs_eq] at product
          exact ⟨held, places, rfl, lower, upper, small, (Option.some.inj product).symm⟩
      | _ => cases digitsRead
    · cases read
  · rintro ⟨sign, digits, rfl, lower, upper, small, rfl⟩
    have signRead : (Document.int sign).int? (-1) 1 = some sign :=
      int?_eq_some_iff.mpr ⟨rfl, lower, upper⟩
    have digitsRead : (Document.list (digits.map fun digit : Nat => .int digit)).list?
        (Document.word? 32) = some digits := mapM_word?_eq_some_iff.mpr ⟨rfl, small⟩
    simp [integer?, signRead, digitsRead, ofLimbs_eq]

theorem spells_integerDocument (value : Int) : (integerDocument value).Spells value := by
  have bounded : -1 ≤ value.sign ∧ value.sign ≤ 1 := by
    rcases Int.sign_trichotomy value with sign | sign | sign <;> omega
  refine ⟨value.sign, limbs value.natAbs, rfl, bounded.1, bounded.2, ?_, ?_⟩
  · rw [limbs_eq]
    exact fun digit listed => Nat.digits_lt_base (by decide) listed
  · rw [limbs_eq, Nat.ofDigits_digits, Int.sign_mul_natAbs]

end Const

/-! ## Written forms -/

namespace Shape

/-- The document has the fields of the written form of the shape. -/
def StoredIn (shape : Shape) (document : Document) : Prop :=
  document.Stores [("width", .int shape.width), ("signed", .bool shape.signed)]

variable {shape other : Shape} {document : Document}

theorem storedIn_toDocument (shape : Shape) : shape.StoredIn shape.toDocument :=
  .record _ (by simp)

theorem StoredIn.unique (stored : shape.StoredIn document) (again : other.StoredIn document) :
    shape = other := by
  obtain ⟨width, signed⟩ := shape
  obtain ⟨_, _⟩ := other
  simpa using stored.contents_unique again rfl

theorem ofDocument?_eq_some_iff :
    ofDocument? document = some shape ↔ shape.StoredIn document ∧ shape.width < 2 ^ 64 := by
  unfold StoredIn
  rw [← fields?_eq_some_iff]
  constructor
  · intro read
    obtain ⟨contents, fields, parts⟩ := Option.bind_eq_some_iff.mp read
    split at parts
    · rename_i width signed
      obtain ⟨number, widthRead, others⟩ := Option.bind_eq_some_iff.mp parts
      obtain ⟨truth, signedRead, made⟩ := Option.bind_eq_some_iff.mp others
      obtain ⟨rfl, fits⟩ := word?_eq_some_iff.mp widthRead
      obtain rfl := bool?_eq_some_iff.mp signedRead
      cases made
      exact ⟨fields, fits⟩
    · cases parts
  · rintro ⟨fields, fits⟩
    have widthRead := word?_eq_some_iff.mpr ⟨rfl, fits⟩
    simp only [List.map_cons, List.map_nil] at fields
    simp [ofDocument?, fields, widthRead, bool?]

end Shape

namespace Range

def StoredIn (range : Range) (document : Document) : Prop :=
  document.Stores
    [("start", .int range.start), ("stop", .int range.stop), ("step", .int range.step)]

variable {range other : Range} {document : Document}

theorem storedIn_toDocument (range : Range) : range.StoredIn range.toDocument :=
  .record _ (by simp)

theorem StoredIn.unique (stored : range.StoredIn document) (again : other.StoredIn document) :
    range = other := by
  obtain ⟨start, stop, step⟩ := range
  obtain ⟨_, _, _⟩ := other
  simpa using stored.contents_unique again rfl

theorem ofDocument?_eq_some_iff :
    ofDocument? document = some range ↔ range.StoredIn document ∧ range.InWord := by
  unfold StoredIn
  rw [← fields?_eq_some_iff]
  constructor
  · intro read
    obtain ⟨contents, fields, parts⟩ := Option.bind_eq_some_iff.mp read
    split at parts
    · rename_i start stop step
      obtain ⟨first, startRead, afterStart⟩ := Option.bind_eq_some_iff.mp parts
      obtain ⟨last, stopRead, afterStop⟩ := Option.bind_eq_some_iff.mp afterStart
      obtain ⟨stride, stepRead, made⟩ := Option.bind_eq_some_iff.mp afterStop
      obtain ⟨rfl, startHolds⟩ := position?_eq_some_iff.mp startRead
      obtain ⟨rfl, stopHolds⟩ := position?_eq_some_iff.mp stopRead
      obtain ⟨rfl, stepHolds⟩ := position?_eq_some_iff.mp stepRead
      cases made
      exact ⟨fields, startHolds, stopHolds, stepHolds⟩
    · cases parts
  · rintro ⟨fields, inWord⟩
    have startRead := position?_eq_some_iff.mpr ⟨rfl, inWord.start⟩
    have stopRead := position?_eq_some_iff.mpr ⟨rfl, inWord.stop⟩
    have stepRead := position?_eq_some_iff.mpr ⟨rfl, inWord.step⟩
    simp only [List.map_cons, List.map_nil] at fields
    simp [ofDocument?, fields, startRead, stopRead, stepRead]

end Range

namespace Const

def StoredIn (constant : Const) (document : Document) : Prop :=
  ∃ number shape, document.Stores [("value", number), ("shape", shape)] ∧
    number.Spells constant.value ∧ constant.shape.StoredIn shape

variable {constant other : Const} {document : Document}

theorem storedIn_toDocument (constant : Const) : constant.StoredIn constant.toDocument :=
  ⟨_, _, .record _ (by simp), spells_integerDocument _, Shape.storedIn_toDocument _⟩

theorem StoredIn.unique (stored : constant.StoredIn document) (again : other.StoredIn document) :
    constant = other := by
  obtain ⟨number, shape, fields, spells, nested⟩ := stored
  obtain ⟨_, _, sameFields, otherSpells, otherNested⟩ := again
  have contents := fields.contents_unique sameFields rfl
  simp only [List.map_cons, List.map_nil, List.cons.injEq, and_true] at contents
  obtain ⟨rfl, rfl⟩ := contents
  have sameValue : constant.value = other.value :=
    Option.some.inj ((integer?_eq_some_iff.mpr spells).symm.trans
      (integer?_eq_some_iff.mpr otherSpells))
  obtain ⟨_, _⟩ := constant
  obtain ⟨_, _⟩ := other
  exact congrArg₂ Const.mk sameValue (nested.unique otherNested)

theorem ofDocument?_eq_some_iff :
    ofDocument? document = some constant ↔
      constant.StoredIn document ∧ constant.shape.width < 2 ^ 64 := by
  constructor
  · intro read
    obtain ⟨contents, fields, parts⟩ := Option.bind_eq_some_iff.mp read
    split at parts
    · rename_i number shape
      obtain ⟨value, valueRead, afterValue⟩ := Option.bind_eq_some_iff.mp parts
      obtain ⟨held, shapeRead, made⟩ := Option.bind_eq_some_iff.mp afterValue
      obtain ⟨nested, fits⟩ := Shape.ofDocument?_eq_some_iff.mp shapeRead
      cases made
      exact ⟨⟨number, shape, fields?_eq_some_iff.mp fields, integer?_eq_some_iff.mp valueRead,
        nested⟩, fits⟩
    · cases parts
  · rintro ⟨⟨number, shape, stored, spells, nested⟩, fits⟩
    have fields := fields?_eq_some_iff.mpr stored
    have valueRead := integer?_eq_some_iff.mpr spells
    have shapeRead := Shape.ofDocument?_eq_some_iff.mpr ⟨nested, fits⟩
    simp only [List.map_cons, List.map_nil] at fields
    simp [ofDocument?, fields, valueRead, shapeRead]

end Const

/-! ## Returned data -/

/-- A shape that its constructor returns. -/
def Shape.Returned (shape : Shape) : Prop :=
  ∃ (width : Int) (signed : Bool), Shape.make width signed = .ok shape

/-- A range that its constructor returns. -/
def Range.Returned (range : Range) : Prop :=
  ∃ start stop step : Int, Range.stepped start stop step = .ok range

/-- A constant that constructors return, of a shape that the constructor of shapes returns. -/
def Const.Returned (constant : Const) : Prop := constant.Made ∧ constant.shape.Returned

theorem Shape.valid_iff_returned {shape : Shape} : shape.Valid ↔ shape.Returned := by
  constructor
  · intro valid
    refine ⟨shape.width, shape.signed, ?_⟩
    have possible : ¬ (shape.signed = true ∧ (shape.width : Int) ≤ 0) := by
      rintro ⟨signed, none⟩
      have some := valid signed
      omega
    rw [make, if_neg (by simpa using possible), if_neg (by omega)]
    rfl
  · rintro ⟨width, signed, made⟩
    exact valid_of_make made

theorem Range.step_ne_zero_iff_returned {range : Range} : range.step ≠ 0 ↔ range.Returned := by
  constructor
  · intro nonzero
    exact ⟨range.start, range.stop, range.step, if_neg nonzero⟩
  · rintro ⟨start, stop, step, made⟩
    unfold stepped at made
    split at made
    · cases made
    · rename_i nonzero
      cases made
      exact nonzero

namespace Const

variable {constant : Const}

theorem wellFormed_iff_returned : constant.WellFormed ↔ constant.Returned := by
  constructor
  · intro wellFormed
    have made := Made.fit constant.value constant.shape
    rw [fit, wellFormed.canonical] at made
    exact ⟨made, Shape.valid_iff_returned.mp wellFormed.1⟩
  · rintro ⟨made, returned⟩
    have valid := Shape.valid_iff_returned.mpr returned
    exact ⟨valid, (Shape.fit_eq_self_iff valid).mp made.canonical⟩

theorem bits_fit (constant : Const) :
    (fit constant.value constant.shape).bits = constant.bits :=
  congrArg Int.toNat (Shape.fit_emod constant.shape constant.value)

/-- A constant of a valid shape carries an integer of the shape exactly if its shape and its bits
tell it from every constant that does. -/
theorem wellFormed_iff_told :
    constant.WellFormed ↔ constant.shape.Valid ∧ ∀ other : Const, other.WellFormed →
      (constant = other ↔ constant.shape = other.shape ∧ constant.bits = other.bits) := by
  constructor
  · intro wellFormed
    exact ⟨wellFormed.1, fun other otherFormed => wellFormed.canonical.eq_iff otherFormed.canonical⟩
  · rintro ⟨valid, told⟩
    have formed : (fit constant.value constant.shape).WellFormed := wellFormed_fit valid _
    have same := (told _ formed).mpr ⟨rfl, (bits_fit constant).symm⟩
    rwa [← same] at formed

end Const

/-! ## Invariants of what is read -/

namespace Document

variable {document : Document}

/-- How a document keeps data of a kind: what is read from it is the data that it stores, whose
numbers fit into their words, and this is so if the data was written to it.  The data is sound
exactly if the document stores something that a constructor returned. -/
structure Keeps {α : Type} (document : Document) (read? : Document → Option α)
    (write : α → Document) (Stored : α → Document → Prop) (Fits Returned Sound : α → Prop) :
    Prop where
  read_iff (data : α) : read? document = some data ↔ Stored data document ∧ Fits data
  read_written (data : α) : write data = document → Fits data → read? document = some data
  sound_iff (data : α) : read? document = some data →
    (Sound data ↔ ∃ returned, Returned returned ∧ Stored returned document)

theorem Keeps.of_stored {α : Type} {read? : Document → Option α} {write : α → Document}
    {Stored : α → Document → Prop} {Fits Returned Sound : α → Prop}
    (read_iff : ∀ {document data}, read? document = some data ↔ Stored data document ∧ Fits data)
    (writes : ∀ data, Stored data (write data))
    (unique : ∀ {document data other}, Stored data document → Stored other document → data = other)
    (sound_iff : ∀ {data}, Sound data ↔ Returned data) :
    Keeps document read? write Stored Fits Returned Sound where
  read_iff _ := read_iff
  read_written data written fits := by
    subst written
    exact read_iff.mpr ⟨writes data, fits⟩
  sound_iff data read := by
    obtain ⟨stored, -⟩ := read_iff.mp read
    rw [sound_iff]
    constructor
    · intro returned
      exact ⟨data, returned, stored⟩
    · rintro ⟨returned, isReturned, again⟩
      rwa [unique stored again]

theorem keeps_shape : Keeps document Shape.ofDocument? Shape.toDocument Shape.StoredIn
    (fun shape => shape.width < 2 ^ 64) Shape.Returned Shape.Valid :=
  .of_stored Shape.ofDocument?_eq_some_iff Shape.storedIn_toDocument Shape.StoredIn.unique
    Shape.valid_iff_returned

theorem keeps_range : Keeps document Range.ofDocument? Range.toDocument Range.StoredIn
    Range.InWord Range.Returned (fun range => range.step ≠ 0) :=
  .of_stored Range.ofDocument?_eq_some_iff Range.storedIn_toDocument Range.StoredIn.unique
    Range.step_ne_zero_iff_returned

theorem keeps_const : Keeps document Const.ofDocument? Const.toDocument Const.StoredIn
    (fun constant => constant.shape.width < 2 ^ 64) Const.Returned Const.WellFormed :=
  .of_stored Const.ofDocument?_eq_some_iff Const.storedIn_toDocument Const.StoredIn.unique
    Const.wellFormed_iff_returned

/-- The shape that is read from a document is valid, its constant carries an integer of a valid
shape and its range has a step that is not zero, exactly if the document stores what a constructor
returned.  Just then the constant has a valid shape, and this and its bits tell it from every other
sound one. -/
theorem keeps_returned (document : Document) :
    Keeps document Shape.ofDocument? Shape.toDocument Shape.StoredIn
      (fun shape => shape.width < 2 ^ 64) Shape.Returned Shape.Valid ∧
    Keeps document Const.ofDocument? Const.toDocument Const.StoredIn
      (fun constant => constant.shape.width < 2 ^ 64) Const.Returned Const.WellFormed ∧
    Keeps document Range.ofDocument? Range.toDocument Range.StoredIn
      Range.InWord Range.Returned (fun range => range.step ≠ 0) ∧
    ∀ constant, Const.ofDocument? document = some constant →
      ((∃ returned : Const, returned.Returned ∧ returned.StoredIn document) ↔
        constant.shape.Valid ∧ ∀ other : Const, other.WellFormed →
          (constant = other ↔ constant.shape = other.shape ∧ constant.bits = other.bits)) := by
  refine ⟨keeps_shape, keeps_const, keeps_range, fun constant read => ?_⟩
  exact (keeps_const.sound_iff constant read).symm.trans Const.wellFormed_iff_told

/-- The constant that was made for fourteen in three signed bits is stored as minus two. -/
theorem keeps_returned_minusTwo :
    Const.ofDocument? (Const.toDocument ⟨-2, ⟨3, true⟩⟩) = some ⟨-2, ⟨3, true⟩⟩ ∧
      (⟨-2, ⟨3, true⟩⟩ : Const).WellFormed := by
  obtain ⟨-, constants, -⟩ := keeps_returned (Const.toDocument ⟨-2, ⟨3, true⟩⟩)
  have read := constants.read_written ⟨-2, ⟨3, true⟩⟩ rfl (by decide)
  have returned : (Const.fit 14 ⟨3, true⟩).Returned := ⟨.fit 14 ⟨3, true⟩, 3, true, rfl⟩
  have stored : (Const.fit 14 ⟨3, true⟩).StoredIn (Const.toDocument ⟨-2, ⟨3, true⟩⟩) :=
    ((constants.read_iff _).mp read).1
  exact ⟨read, (constants.sound_iff _ read).mpr ⟨_, returned, stored⟩⟩

/-- Reading does not establish the invariants: a signed shape without bits is read, a constant whose
integer is not in its shape and that differs from the constant with the same shape and bits, and a
range that does not proceed. -/
theorem not_sound_read :
    (Shape.ofDocument? (.record [("width", .int 0), ("signed", .bool true)]) = some ⟨0, true⟩ ∧
      ¬ (⟨0, true⟩ : Shape).Valid) ∧
    (Const.ofDocument? (.record [("value", .list [.int 1, .list [.int 5]]),
        ("shape", .record [("width", .int 2), ("signed", .bool false)])]) =
        some ⟨5, Shape.unsigned 2⟩ ∧
      5 ∉ Shape.unsigned 2 ∧
      (Const.fit 5 (Shape.unsigned 2)).shape = Shape.unsigned 2 ∧
      (Const.fit 5 (Shape.unsigned 2)).bits = Const.bits ⟨5, Shape.unsigned 2⟩ ∧
      Const.fit 5 (Shape.unsigned 2) ≠ ⟨5, Shape.unsigned 2⟩) ∧
    Range.ofDocument? (.record [("start", .int 0), ("stop", .int 10), ("step", .int 0)]) =
      some ⟨0, 10, 0⟩ := by
  have narrow : ¬ (⟨0, true⟩ : Shape).Valid := fun valid => Nat.lt_irrefl 0 (valid rfl)
  exact ⟨⟨rfl, narrow⟩, ⟨rfl, by decide, rfl, by decide, by decide⟩, rfl⟩

end Document

end Gateware
