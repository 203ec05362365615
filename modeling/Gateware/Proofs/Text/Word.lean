import Gateware.Text.Numeral
import Mathlib.Data.List.Basic

/-!
# Words and numbers in texts

A word ends where a blank or a parenthesis stands, and a number where its digits end.  What ends
a word cannot be read as a part of it, so a text splits into words in one way.
-/

set_option autoImplicit false

namespace Gateware

/-- Two lists that go on after their first stop agree up to it and after it. -/
theorem append_inj_of_stops {α : Type} {stop : α → Prop} {left right rest other : List α}
    (leftClear : ∀ item ∈ left, ¬ stop item) (rightClear : ∀ item ∈ right, ¬ stop item)
    (restStops : ∀ item ∈ rest.head?, stop item) (otherStops : ∀ item ∈ other.head?, stop item)
    (same : left ++ rest = right ++ other) : left = right ∧ rest = other := by
  induction left generalizing right with
  | nil =>
      cases right with
      | nil => exact ⟨rfl, same⟩
      | cons first more =>
          rw [List.nil_append, List.cons_append] at same
          exact absurd (restStops first (by rw [same, List.head?_cons]; rfl))
            (rightClear first List.mem_cons_self)
  | cons first more ih =>
      cases right with
      | nil =>
          rw [List.nil_append, List.cons_append] at same
          exact absurd (otherStops first (by rw [← same, List.head?_cons]; rfl))
            (leftClear first List.mem_cons_self)
      | cons second others =>
          rw [List.cons_append, List.cons_append, List.cons_eq_cons] at same
          obtain ⟨rfl, tails⟩ := same
          obtain ⟨rfl, ends⟩ :=
            ih (fun item listed => leftClear item (List.mem_cons_of_mem _ listed))
              (fun item listed => rightClear item (List.mem_cons_of_mem _ listed)) tails
          exact ⟨rfl, ends⟩

namespace Text

/-- A character that ends a word. -/
def EndsWord (symbol : Char) : Prop := symbol = ' ' ∨ symbol = '(' ∨ symbol = ')'

/-- No blank and no parenthesis. -/
def Solid (text : String) : Prop := ∀ symbol ∈ text.toList, ¬ EndsWord symbol

theorem toList_join_cons (first : String) (rest : List String) :
    (join " " (first :: rest)).toList =
      first.toList ++ rest.flatMap fun text => ' ' :: text.toList := by
  induction rest generalizing first with
  | nil => simp [join]
  | cons second rest ih =>
      have tail := ih second
      rw [join] at tail
      rw [join, String.intercalate_cons_cons, String.toList_append, String.toList_append, tail]
      simp

theorem solid_append {left right : String} (leftSolid : Solid left) (rightSolid : Solid right) :
    Solid (left ++ right) := by
  intro symbol listed
  rw [String.toList_append, List.mem_append] at listed
  exact listed.elim (leftSolid symbol) (rightSolid symbol)

theorem isDigit_of_mem_toString {n : Nat} {symbol : Char}
    (listed : symbol ∈ (toString n).toList) : symbol.isDigit := by
  rw [Nat.toString_eq_ofList_toDigits, String.toList_ofList] at listed
  exact Nat.isDigit_of_mem_toDigits (by decide) (by decide) listed

theorem solid_nat (n : Nat) : Solid (toString n) := by
  intro symbol listed bracket
  have digit := isDigit_of_mem_toString listed
  rcases bracket with rfl | rfl | rfl <;> cases digit

theorem nat_inj {m n : Nat} (same : (toString m).toList = (toString n).toList) : m = n := by
  rw [Nat.toString_eq_ofList_toDigits, Nat.toString_eq_ofList_toDigits, String.toList_ofList,
    String.toList_ofList] at same
  calc m = Nat.ofDigitChars 10 (Nat.toDigits 10 m) 0 := Nat.ofDigitChars_ten_toDigits.symm
    _ = Nat.ofDigitChars 10 (Nat.toDigits 10 n) 0 := by rw [same]
    _ = n := Nat.ofDigitChars_ten_toDigits

theorem nat_append_inj {m n : Nat} {rest other : List Char}
    (restEnds : ∀ symbol ∈ rest.head?, ¬ symbol.isDigit)
    (otherEnds : ∀ symbol ∈ other.head?, ¬ symbol.isDigit)
    (same : (toString m).toList ++ rest = (toString n).toList ++ other) : m = n ∧ rest = other := by
  have digit (n : Nat) : ∀ symbol ∈ (toString n).toList, ¬ ¬ symbol.isDigit :=
    fun _ listed => not_not.mpr (isDigit_of_mem_toString listed)
  obtain ⟨digits, ends⟩ := append_inj_of_stops (digit m) (digit n) restEnds otherEnds same
  exact ⟨nat_inj digits, ends⟩

theorem toList_int (n : Int) :
    (toString n).toList = if 0 ≤ n then (toString n.toNat).toList
      else '-' :: (toString (-n).toNat).toList := by
  change n.repr.toList = _
  rw [Int.repr_eq_if]
  split
  · rfl
  · rw [String.toList_append]
    rfl

theorem solid_int (n : Int) : Solid (toString n) := by
  intro symbol listed
  rw [toList_int] at listed
  split at listed
  · exact solid_nat _ symbol listed
  · rcases List.mem_cons.mp listed with rfl | later
    · simp [EndsWord]
    · exact solid_nat _ symbol later

theorem nat_ne_minus {n : Nat} {rest : List Char} : (toString n).toList ≠ '-' :: rest := by
  intro same
  have digit : '-'.isDigit := isDigit_of_mem_toString (n := n) (by rw [same]; simp)
  cases digit

theorem int_inj {m n : Int} (same : (toString m).toList = (toString n).toList) : m = n := by
  rw [toList_int, toList_int] at same
  split at same <;> split at same
  · have equal := nat_inj same
    omega
  · exact absurd same nat_ne_minus
  · exact absurd same.symm nat_ne_minus
  · have equal := nat_inj (List.cons.inj same).2
    omega

end Text

end Gateware
