import Gateware.Format.Compile
import Gateware.Proofs.Session

/-!
# Readings of templates

A reading tells all fields of a template, those inside the specifiers of other fields included,
and for each the argument that it takes.  The names of the fields and their order are those of the
template; which argument a field takes is not told by the template alone.
-/

set_option autoImplicit false

namespace Gateware.Format

/-- A place in the lists of arguments. -/
inductive Reference where
  | positional (index : Nat)
  | named (index : Nat)

namespace Reference

def positional? : Reference → Option Nat
  | .positional index => some index
  | .named _ => none

def named? : Reference → Option Nat
  | .positional _ => none
  | .named index => some index

@[simp]
theorem positional?_eq_some {reference : Reference} {index : Nat} :
    reference.positional? = some index ↔ reference = .positional index := by
  cases reference <;> simp [positional?]

@[simp]
theorem named?_eq_some {reference : Reference} {index : Nat} :
    reference.named? = some index ↔ reference = .named index := by
  cases reference <;> simp [named?]

end Reference

/-- The ways in which a field says what it refers to. -/
inductive Style where
  | automatic
  | numbered
  | named
  deriving DecidableEq

def Style.of (name : String) : Style :=
  if name.isEmpty then .automatic
  else if name.toList.all Char.isDigit then .numbered
  else .named

namespace Style

theorem of_eq_automatic {name : String} : of name = .automatic ↔ name.isEmpty := by
  by_cases empty : name.isEmpty <;> by_cases digits : name.toList.all Char.isDigit <;>
    simp only [of, empty, digits, if_true, if_false, reduceCtorEq, Bool.false_eq_true]

theorem of_eq_numbered {name : String} :
    of name = .numbered ↔ ¬ name.isEmpty ∧ name.toList.all Char.isDigit := by
  by_cases empty : name.isEmpty <;> by_cases digits : name.toList.all Char.isDigit <;>
    simp [of, empty, digits, -List.all_eq_true]

theorem of_eq_named {name : String} :
    of name = .named ↔ ¬ name.isEmpty ∧ ¬ name.toList.all Char.isDigit := by
  by_cases empty : name.isEmpty <;> by_cases digits : name.toList.all Char.isDigit <;>
    simp [of, empty, digits, -List.all_eq_true]

end Style

structure Field (Object : Type) where
  name : String
  reference : Reference
  argument : Arg Object

inductive Reading (Object : Type) where
  | done
  | text (content : String) (rest : Reading Object)
  | field (head : Field Object) (conversion : Option Char) (inner rest : Reading Object)

variable {Object : Type}

def Field.style (field : Field Object) : Style := .of field.name

namespace Reading

/-- The fields from left to right, each before those in its specifier. -/
def fields : Reading Object → List (Field Object)
  | .done => []
  | .text _ rest => rest.fields
  | .field head _ inner rest => head :: (inner.fields ++ rest.fields)

/-! ## What the parts of a template are read as -/

inductive OfPieces : List Piece → Reading Object → Prop where
  | done : OfPieces [] .done
  | text {content : String} {pieces : List Piece} {rest : Reading Object} :
      OfPieces pieces rest → OfPieces (.text content :: pieces) (.text content rest)
  | field {head : Field Object} {conversion : Option Char} {specifier : String}
      {nested pieces : List Piece} {inner rest : Reading Object} :
      Template.read specifier = .ok nested → OfPieces nested inner → OfPieces pieces rest →
      OfPieces (.field head.name conversion specifier :: pieces)
        (.field head conversion inner rest)

def Of (template : String) (reading : Reading Object) : Prop :=
  ∃ pieces, Template.read template = .ok pieces ∧ OfPieces pieces reading

theorem OfPieces.names_eq {pieces : List Piece} {first second : Reading Object}
    (left : OfPieces pieces first) (right : OfPieces pieces second) :
    first.fields.map Field.name = second.fields.map Field.name := by
  induction left generalizing second with
  | done =>
      cases right
      rfl
  | text _ ih =>
      cases right with
      | text right =>
          rw [fields, fields]
          exact ih right
  | @field head conversion specifier nested pieces inner rest read _ _ innerIh restIh =>
      generalize named : head.name = name at right
      cases right with
      | @field other _ _ otherNested _ _ _ otherRead otherInner otherRest =>
          rw [read] at otherRead
          cases otherRead
          simp only [fields, List.map_cons, List.map_append, innerIh otherInner,
            restIh otherRest, named]

theorem Of.names_eq {template : String} {first second : Reading Object}
    (left : Of template first) (right : Of template second) :
    first.fields.map Field.name = second.fields.map Field.name := by
  obtain ⟨pieces, read, left⟩ := left
  obtain ⟨_, again, right⟩ := right
  rw [read] at again
  cases again
  exact left.names_eq right

theorem OfPieces.eq_of_fields_eq {pieces : List Piece} {first second : Reading Object}
    (left : OfPieces pieces first) (right : OfPieces pieces second)
    (same : first.fields = second.fields) : first = second := by
  induction left generalizing second with
  | done =>
      cases right
      rfl
  | text _ ih =>
      cases right with
      | text right => rw [ih right same]
  | @field head conversion specifier nested pieces inner rest read innerOf restOf innerIh restIh =>
      generalize named : head.name = name at right
      cases right with
      | @field other _ _ otherNested _ otherInner otherRest otherRead otherInnerOf otherRestOf =>
          rw [read] at otherRead
          cases otherRead
          simp only [fields, List.cons.injEq] at same
          obtain ⟨rfl, tails⟩ := same
          -- The fields inside the specifier are as many on either side.
          have lengths : inner.fields.length = otherInner.fields.length := by
            simpa using congrArg List.length (innerOf.names_eq otherInnerOf)
          obtain ⟨inside, after⟩ := List.append_inj tails lengths
          rw [innerIh otherInnerOf inside, restIh otherRestOf after]

theorem Of.eq_of_fields_eq {template : String} {first second : Reading Object}
    (left : Of template first) (right : Of template second)
    (same : first.fields = second.fields) : first = second := by
  obtain ⟨pieces, read, left⟩ := left
  obtain ⟨_, again, right⟩ := right
  rw [read] at again
  cases again
  exact left.eq_of_fields_eq right same

end Reading

/-! ## Specifiers are shorter than their templates -/

namespace Template

theorem readField_specifier_le {content : List Char} {name specifier : String}
    {conversion : Option Char} (read : readField content = .ok (.field name conversion specifier)) :
    specifier.length ≤ content.length := by
  have suffix := (List.dropWhile_suffix (fun c => !endsName c) (l := content)).length_le
  unfold readField at read
  split at read
  case h_1 | h_4 => cases read
  case h_2 | h_6 =>
      cases read
      exact Nat.zero_le _
  case h_3 rest left | h_5 rest left =>
      -- The specifier is what is left after the colon.
      cases read
      rw [left] at suffix
      simp only [List.length_cons, String.length_ofList] at suffix ⊢
      omega

def Place.bound : Place → List Char → List Char → Nat
  | .text, _, rest => rest.length
  | .field _, done, rest => done.length + rest.length

theorem readFrom_specifier_lt {place : Place} {done rest : List Char} {pieces : List Piece}
    {name specifier : String} {conversion : Option Char}
    (read : readFrom place done rest = .ok pieces)
    (listed : .field name conversion specifier ∈ pieces) :
    specifier.length < place.bound done rest := by
  fun_induction readFrom place done rest generalizing pieces with
  | case1 done =>
      cases read
      simp at listed
  | case4 => cases read
  | case7 => cases read
  | case5 done rest _ ih =>
      obtain ⟨found, below, rfl⟩ := map_eq_ok.mp read
      have later := ih below (by simpa using listed)
      simp only [Place.bound, List.length_cons, List.length_nil] at later ⊢
      omega
  | case10 done rest ih =>
      obtain ⟨piece, here, read⟩ := bind_eq_ok.mp read
      obtain ⟨found, below, same⟩ := bind_eq_ok.mp read
      cases same
      simp only [Place.bound, List.length_cons]
      rcases List.mem_cons.mp listed with rfl | listed
      · have own := readField_specifier_le here
        rw [List.length_reverse] at own
        omega
      · have later := ih below listed
        simp only [Place.bound] at later
        omega
  | case2 _ _ ih | case3 _ _ ih | case6 _ _ _ _ _ _ _ ih | case8 _ _ _ ih | case9 _ _ _ ih
  | case11 _ _ _ _ _ _ _ ih =>
      -- One more character is taken into the piece that is being read.
      have later := ih read listed
      simp only [Place.bound, List.length_cons] at later ⊢
      omega

theorem read_specifier_lt {template : String} {pieces : List Piece} {name specifier : String}
    {conversion : Option Char} (read : read template = .ok pieces)
    (listed : .field name conversion specifier ∈ pieces) : specifier.length < template.length := by
  have shorter := readFrom_specifier_lt read listed
  rwa [Place.bound, String.length_toList] at shorter

end Template

end Gateware.Format
