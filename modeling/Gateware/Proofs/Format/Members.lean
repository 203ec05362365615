import Mathlib.Data.List.Nodup
import Gateware.Design.Basic
import Gateware.Proofs.Format.Labels

/-!
# Members decoded and printed

What the decoder of an enumeration answers for the number of a member, and which label its
printer selects there.  Both look for the first member whose own number it is, and a member is
cast to the number that the shape makes of its own: where a declared shape wraps a member, the
decoder and the printer no longer know it by the number that it is cast to.
-/

set_option autoImplicit false

namespace Gateware

open Build

namespace Enumeration

def Member.casts (member : Member) (number : Int) : Bool :=
  match member.const with
  | .ok constant => constant.value = number
  | .error _ => false

/-- The first member that is cast to a number. -/
def caster (enumeration : Enumeration) (number : Int) : Option Member :=
  enumeration.all.find? fun member => member.casts number

theorem named_ne_toString (name : String) (number : Int) :
    s!"{name}/{number}" ≠ toString number := by
  intro same
  have lengths := congrArg String.length same
  simp only [String.length_append, Nat.add_eq_right, Nat.add_eq_zero_iff] at lengths
  exact absurd lengths.2 (by decide)

/-! ## Members that are integers -/

section

variable {enumeration : Enumeration} {numbers : List (String × Int)} {shape : Shape}
  {index : Nat} {entry : String × Int}
  (numbered : enumeration.members = numbers.map fun entry => (entry.1, .int entry.2))

include numbered

theorem consts_of_numbered :
    enumeration.consts = .ok (numbers.map fun entry => (entry.1, Const.ofInt entry.2)) := by
  rw [consts, numbered]
  apply mapM_eq_ok.mpr
  rw [List.forall₂_map_left_iff, List.forall₂_map_right_iff, List.forall₂_same]
  intro entry _
  rfl

theorem variants_of_numbered :
    Printer.variants enumeration = .ok (numbers.map fun entry => (entry.2, entry.1)) := by
  rw [Printer.variants, numbered]
  apply mapM_eq_ok.mpr
  rw [List.forall₂_map_left_iff, List.forall₂_map_right_iff, List.forall₂_same]
  intro entry _
  rfl

theorem shape_of_numbered :
    enumeration.shape = .ok (enumeration.declared.getD
      (Shape.unify (numbers.map fun entry => Shape.ofInt entry.2))) := by
  rw [Enumeration.shape, consts_of_numbered numbered, Except.map, List.map_map]
  rfl

theorem valid_of_numbered (declared : ∀ shape ∈ enumeration.declared, shape.Valid)
    (shaped : enumeration.shape = .ok shape) : shape.Valid := by
  rw [shape_of_numbered numbered] at shaped
  cases shaped
  cases given : enumeration.declared with
  | some shape => exact declared shape given
  | none =>
      apply Shape.valid_unify
      intro shape listed
      obtain ⟨entry, _, rfl⟩ := List.mem_map.mp listed
      exact Shape.valid_ofInt entry.2

theorem mem_of_undeclared (undeclared : enumeration.declared = none)
    (shaped : enumeration.shape = .ok shape) (listed : entry ∈ numbers) : entry.2 ∈ shape := by
  rw [shape_of_numbered numbered, undeclared] at shaped
  cases shaped
  exact Shape.mem_unify (List.mem_map.mpr ⟨entry, listed, rfl⟩) (Shape.mem_ofInt entry.2)

theorem getElem?_members (stored : numbers[index]? = some entry) :
    enumeration.members[index]? = some (entry.1, .int entry.2) := by
  rw [numbered, List.getElem?_map, stored]
  rfl

theorem name_of_numbered (stored : numbers[index]? = some entry) :
    (Member.mk enumeration index).name = entry.1 := by
  simp [Member.name, getElem?_members numbered stored]

theorem value_of_numbered (stored : numbers[index]? = some entry) :
    (Member.mk enumeration index).value = .int entry.2 := by
  simp [Member.value, getElem?_members numbered stored]

theorem const_of_numbered (shaped : enumeration.shape = .ok shape)
    (stored : numbers[index]? = some entry) :
    (Member.mk enumeration index).const = .ok (Const.fit entry.2 shape) := by
  rw [Member.const, shaped, value_of_numbered numbered stored]
  rfl

theorem casts_iff (shaped : enumeration.shape = .ok shape)
    (stored : numbers[index]? = some entry) (number : Int) :
    (Member.mk enumeration index).casts number = true ↔ shape.fit entry.2 = number := by
  rw [Member.casts, const_of_numbered numbered shaped stored]
  exact decide_eq_true_iff

theorem getElem?_all (member : Member) :
    enumeration.all[index]? = some member ↔
      (∃ entry, numbers[index]? = some entry) ∧ member = ⟨enumeration, index⟩ := by
  have length : enumeration.members.length = numbers.length := by
    rw [numbered, List.length_map]
  rw [all, List.getElem?_map, length]
  by_cases inside : index < numbers.length
  · simp [inside, eq_comm]
  · simp [inside]

theorem exists_caster (valid : shape.Valid) (shaped : enumeration.shape = .ok shape)
    {member : Member} (listed : member ∈ enumeration.all) :
    ∃ constant first entry, member.const = .ok constant ∧ constant.value ∈ shape ∧
      enumeration.caster constant.value = some ⟨enumeration, first⟩ ∧
      numbers[first]? = some entry ∧ shape.fit entry.2 = constant.value ∧
      ∀ earlier < first, ∀ other, numbers[earlier]? = some other →
        shape.fit other.2 ≠ constant.value := by
  obtain ⟨index, place⟩ := List.mem_iff_getElem?.mp listed
  obtain ⟨⟨entry, stored⟩, rfl⟩ := (getElem?_all numbered member).mp place
  have cast := const_of_numbered numbered shaped stored
  refine ⟨Const.fit entry.2 shape, ?_⟩
  cases found : enumeration.caster (shape.fit entry.2) with
  | none =>
      have casts := (casts_iff numbered shaped stored (shape.fit entry.2)).mpr rfl
      exact absurd casts (List.find?_eq_none.mp found _ listed)
  | some first =>
      obtain ⟨casts, place, inside, same, before⟩ := List.find?_eq_some_iff_getElem.mp found
      obtain ⟨⟨other, otherStored⟩, rfl⟩ := (getElem?_all numbered first).mp
        (List.getElem?_eq_some_iff.mpr ⟨inside, same⟩)
      refine ⟨place, other, cast, Shape.fit_mem valid entry.2, found, otherStored,
        (casts_iff numbered shaped otherStored _).mp casts, ?_⟩
      intro earlier below another anotherStored equal
      have skipped := before earlier below
      have here := List.getElem?_eq_some_iff.mp
        ((getElem?_all numbered _).mpr ⟨⟨another, anotherStored⟩, rfl⟩)
      rw [here.2, Bool.not_eq_true', Bool.eq_false_iff] at skipped
      exact skipped ((casts_iff numbered shaped anotherStored _).mpr equal)

/-! ## Decoders and printers -/

theorem decode_of_numbered (number : Int) :
    (Decoder.enumeration enumeration).decode number =
      ((numbers.find? fun entry => entry.2 = number).map fun entry =>
        s!"{entry.1}/{number}").getD (toString number) := by
  rw [Decoder.decode, consts_of_numbered numbered]
  dsimp only
  rw [List.find?_map]
  have same : ((fun const : String × Const => decide (const.2.value = number)) ∘
      fun entry : String × Int => (entry.1, Const.ofInt entry.2)) =
        fun entry => decide (entry.2 = number) := rfl
  rw [same]
  cases found : numbers.find? fun entry => entry.2 = number with
  | none => rfl
  | some entry =>
      have equal := List.find?_some found
      rw [decide_eq_true_eq] at equal
      rw [← equal]
      rfl

theorem decode_of_find {number : Int}
    (found : (numbers.find? fun entry => entry.2 = number) = some entry) :
    (Decoder.enumeration enumeration).decode number = s!"{entry.1}/{number}" := by
  rw [decode_of_numbered numbered, found]
  rfl

/-- Where the names differ, the decoder answers with a name only at its own number. -/
theorem own_of_decode (distinct : (numbers.map Prod.fst).Nodup) {number : Int}
    (listed : entry ∈ numbers)
    (shown : (Decoder.enumeration enumeration).decode number = s!"{entry.1}/{number}") :
    entry.2 = number := by
  rw [decode_of_numbered numbered] at shown
  cases found : numbers.find? fun entry => entry.2 = number with
  | none =>
      rw [found] at shown
      exact absurd shown.symm (named_ne_toString entry.1 number)
  | some other =>
      rw [found] at shown
      have names : toString other.1 = toString entry.1 := by simpa using shown
      have same := List.inj_on_of_nodup_map distinct (List.mem_of_find?_eq_some found) listed names
      rw [← same]
      simpa using List.find?_some found

end

end Enumeration

namespace Printer

/-- Which case a printer of labels takes at a number, whenever it compiles. -/
def Takes (value : Value) (variants : List (Int × String)) (number : Int) (case : Keys × Value) :
    Prop :=
  ∀ name session format after,
    Gives (Printer.labels value variants name).compile session format after →
      ∃ cases, format.chunks = [.argument (.switch value cases) "s"] ∧
        (cases.find? fun case => case.1.accept (Binary.digits number value.width)) = some case

theorem takes_of_find {value : Value} {variants : List (Int × String)} {number : Int}
    {text : String} (valid : value.shape.Valid) (inside : number ∈ value.shape)
    (found : (variants.find? fun variant => variant.1 = number) = some (number, text)) :
    Takes value variants number (some [Binary.text number value.width], label text) := by
  intro name session format after run
  obtain ⟨rfl, _⟩ := labelFormat_eq_labelled valid run
  refine ⟨_, rfl, ?_⟩
  rw [Value.width, find_labelCases valid inside, found]
  simp only [Option.map_some, Option.getD_some, variantCase, variantKeys, if_pos inside]

theorem takes_of_find_none {value : Value} {variants : List (Int × String)} {number : Int}
    (valid : value.shape.Valid) (inside : number ∈ value.shape)
    (found : (variants.find? fun variant => variant.1 = number) = none) :
    Takes value variants number (none, label "[unknown]") := by
  intro name session format after run
  obtain ⟨rfl, _⟩ := labelFormat_eq_labelled valid run
  refine ⟨_, rfl, ?_⟩
  rw [Value.width, find_labelCases valid inside, found]
  rfl

end Printer

namespace Enumeration

variable {enumeration : Enumeration} {numbers : List (String × Int)} {shape : Shape}

theorem find_of_first (valid : shape.Valid) {first : Nat} {entry : String × Int}
    (stored : numbers[first]? = some entry) (own : entry.2 ∈ shape)
    (before : ∀ earlier < first, ∀ other, numbers[earlier]? = some other →
      shape.fit other.2 ≠ entry.2) :
    (numbers.find? fun other => other.2 = entry.2) = some entry := by
  obtain ⟨inside, same⟩ := List.getElem?_eq_some_iff.mp stored
  refine List.find?_eq_some_iff_getElem.mpr ⟨decide_eq_true rfl, first, inside, same, ?_⟩
  intro earlier below
  have other := before earlier below _ (List.getElem?_eq_getElem (Nat.lt_trans below inside))
  rw [Bool.not_eq_true', decide_eq_false_iff_not]
  intro equal
  exact other ((congrArg shape.fit equal).trans (Shape.fit_eq_self valid own))

theorem takes_of_own {value : Value} {number : Int} {entry : String × Int}
    (valid : value.shape.Valid) (inside : number ∈ value.shape)
    (found : (numbers.find? fun entry => entry.2 = number) = some entry) :
    Printer.Takes value (numbers.map fun entry => (entry.2, entry.1)) number
      (some [Binary.text number value.width], Printer.label entry.1) := by
  have own : entry.2 = number := by simpa using List.find?_some found
  apply Printer.takes_of_find valid inside
  rw [List.find?_map, ← own]
  rw [← own] at found
  exact congrArg (Option.map fun entry => (entry.2, entry.1)) found

/-- What is shown of a member whose values are integers.  The number that it is cast to is that of
a first member.  If that is the own number of the first member, then the decoder answers with its
name, and the printer of the enumeration, which compiles unless a remark on a member is denied,
selects its label in a case of its own.  If the names differ, the decoder does so only then.  It
is so if every member has its own number in the shape, which a shape that was not declared makes
room for. -/
theorem member_shown (numbered : enumeration.members =
      numbers.map fun entry => (entry.1, .int entry.2))
    (declared : ∀ shape ∈ enumeration.declared, shape.Valid) {member : Member}
    (listed : member ∈ enumeration.all) :
    ∃ shape constant first variants, enumeration.shape = .ok shape ∧
      member.const = .ok constant ∧ enumeration.caster constant.value = some first ∧
      Printer.variants enumeration = .ok variants ∧
      (first.value = .int constant.value →
        (Decoder.enumeration enumeration).decode constant.value =
          s!"{first.name}/{constant.value}" ∧
        ∀ value : Value, value.shape = shape →
          (∀ name session,
            (session.Denies .unmatchablePattern → ∀ entry ∈ numbers, entry.2 ∈ shape) →
              ∃ format after,
                Gives (Printer.labels value variants name).compile session format after) ∧
          Printer.Takes value variants constant.value
            (some [Binary.text constant.value value.width], Printer.label first.name)) ∧
      ((numbers.map Prod.fst).Nodup →
        (Decoder.enumeration enumeration).decode constant.value =
          s!"{first.name}/{constant.value}" → first.value = .int constant.value) ∧
      ((∀ entry ∈ numbers, entry.2 ∈ shape) → first.value = .int constant.value) ∧
      (enumeration.declared = none → ∀ entry ∈ numbers, entry.2 ∈ shape) := by
  obtain ⟨shape, shaped⟩ : ∃ shape, enumeration.shape = .ok shape :=
    ⟨_, shape_of_numbered numbered⟩
  have valid := valid_of_numbered numbered declared shaped
  obtain ⟨constant, first, entry, cast, inside, caster, stored, fitted, before⟩ :=
    exists_caster numbered valid shaped listed
  have firstName := name_of_numbered numbered stored
  have firstValue := value_of_numbered numbered stored
  have entryListed : entry ∈ numbers := List.mem_of_getElem? stored
  refine ⟨shape, constant, _, _, shaped, cast, caster, variants_of_numbered numbered, ?_, ?_, ?_,
    fun undeclared entry => mem_of_undeclared numbered undeclared shaped⟩
  · intro own
    have own : entry.2 = constant.value := MemberValue.int.inj (firstValue.symm.trans own)
    have found : (numbers.find? fun other => other.2 = constant.value) = some entry := by
      rw [← own] at inside before ⊢
      exact find_of_first valid stored inside before
    rw [firstName]
    refine ⟨decode_of_find numbered found, ?_⟩
    rintro value rfl
    refine ⟨?_, takes_of_own valid inside found⟩
    intro name session granted
    apply (Printer.Granted.iff_gives valid).mpr
    intro denies variant listed
    obtain ⟨given, givenListed, rfl⟩ := List.mem_map.mp listed
    exact granted denies given givenListed
  · intro distinct shown
    rw [firstName] at shown
    rw [firstValue, own_of_decode numbered distinct entryListed shown]
  · intro fits
    rw [firstValue, ← fitted, Shape.fit_eq_self valid (fits entry entryListed)]

/-- Two members of one number in a declared shape. -/
def paired : Enumeration :=
  ⟨0, "E", [("A", .int 2), ("B", .int (-1)), ("C", .int (-1))], some ⟨4, true⟩⟩

theorem member_shown_paired :
    paired.members = [("A", 2), ("B", -1), ("C", -1)].map (fun entry => (entry.1, .int entry.2)) ∧
      (∀ shape ∈ paired.declared, shape.Valid) ∧ ⟨paired, 2⟩ ∈ paired.all ∧
      (Decoder.enumeration paired).decode (-1) = "B/-1" ∧
      ∃ variants, Printer.variants paired = .ok variants ∧
        Printer.Takes (.signal ⟨0, "s", ⟨4, true⟩⟩) variants (-1)
          (some ["1111"], Printer.label "B") := by
  have numbered : paired.members =
      [("A", 2), ("B", -1), ("C", -1)].map (fun entry => (entry.1, .int entry.2)) := rfl
  have declared : ∀ shape ∈ paired.declared, shape.Valid := by
    intro shape given
    cases given
    decide
  have listed : (⟨paired, 2⟩ : Member) ∈ paired.all := by
    simp [all, paired]
  obtain ⟨shape, constant, first, variants, shaped, cast, caster, printed, own, _, fits, _⟩ :=
    member_shown numbered declared listed
  cases shaped
  cases cast
  cases caster
  obtain ⟨decoded, prints⟩ := own rfl
  exact ⟨numbered, declared, listed, decoded, variants, printed,
    (prints (.signal ⟨0, "s", ⟨4, true⟩⟩) rfl).2⟩

/-- A member that its declared shape wraps. -/
def wrapped : Enumeration := ⟨0, "E", [("A", .int 5)], some (Shape.unsigned 2)⟩

/-- The member is cast to one, which neither the decoder nor the printer knows. -/
theorem wrapped_not_shown :
    (Member.mk wrapped 0).const = .ok (Const.fit 1 (Shape.unsigned 2)) ∧
      wrapped.caster 1 = some ⟨wrapped, 0⟩ ∧ (Member.mk wrapped 0).name = "A" ∧
      (Decoder.enumeration wrapped).decode 1 = "1" ∧
      Printer.variants wrapped = .ok [(5, "A")] ∧
      Printer.Takes (.signal ⟨0, "s", Shape.unsigned 2⟩) [(5, "A")] 1
        (none, Printer.label "[unknown]") ∧
      ∃ format after, Gives (Printer.labels (.signal ⟨0, "s", Shape.unsigned 2⟩) [(5, "A")]
        (some "E")).compile {} format after := by
  have valid : (Value.signal ⟨0, "s", Shape.unsigned 2⟩).shape.Valid := by decide
  refine ⟨rfl, rfl, rfl, by decide +kernel, rfl, ?_, ?_⟩
  · exact Printer.takes_of_find_none valid (by decide) (by decide)
  · apply (Printer.Granted.iff_gives valid).mpr
    rintro ⟨_, none, _⟩
    cases none

end Enumeration

end Gateware
