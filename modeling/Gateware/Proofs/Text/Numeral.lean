import Mathlib.Data.Nat.Digits.Lemmas
import Gateware.Text.Numeral

/-!
# Places of numerals

A numeral is a row of places, the highest first, each written as one of sixteen digits.  What a
numeral is and what it is read as are both told by its places.
-/

set_option autoImplicit false

namespace Gateware.Text

/-- The places of a number in a radix, the highest first, with no zero in front of the others. -/
structure Places (radix n : Nat) (places : List Nat) : Prop where
  small : ∀ place ∈ places, place < radix
  value : Nat.ofDigits radix places.reverse = n
  full : places ≠ []
  head : places.head? = some 0 → places = [0]

def digitOf (upper : Bool) (place : Nat) : Char :=
  (if upper then "0123456789ABCDEF" else "0123456789abcdef").toList.getD place '0'

/-- The digits of a number in a radix, with none to spare. -/
def Numerates (radix n : Nat) (upper : Bool) (digits : List Char) : Prop :=
  ∃ places, Places radix n places ∧ digits = places.map (digitOf upper)

variable {radix n : Nat} {places : List Nat}

theorem digitChar_eq {place : Nat} (small : place < 16) :
    Nat.digitChar place = digitOf false place := by
  have all : ∀ place < 16, Nat.digitChar place = digitOf false place := by decide
  exact all place small

theorem toUpper_digitChar {place : Nat} (small : place < 16) :
    (Nat.digitChar place).toUpper = digitOf true place := by
  have all : ∀ place < 16, (Nat.digitChar place).toUpper = digitOf true place := by decide
  exact all place small

theorem hexDigit?_digitChar {place : Nat} (small : place < 16) :
    hexDigit? (Nat.digitChar place) = some place := by
  have all : ∀ place < 16, hexDigit? (Nat.digitChar place) = some place := by decide
  exact all place small

theorem mapM_hexDigit? (small : ∀ place ∈ places, place < 16) :
    (places.map Nat.digitChar).mapM hexDigit? = some places := by
  induction places with
  | nil => rfl
  | cons place places ih =>
      have rest := ih fun other listed => small other (List.mem_cons_of_mem _ listed)
      rw [List.map_cons, List.mapM_cons, hexDigit?_digitChar (small place List.mem_cons_self), rest]
      rfl

theorem Places.push (known : Places radix n places) (positive : 0 < n) {place : Nat}
    (small : place < radix) : Places radix (radix * n + place) (places ++ [place]) where
  small other listed := by
    rcases List.mem_append.mp listed with earlier | last
    · exact known.small other earlier
    · exact List.mem_singleton.mp last ▸ small
  value := by
    rw [List.reverse_append, List.reverse_singleton, List.singleton_append, Nat.ofDigits_cons,
      known.value]
    exact Nat.add_comm _ _
  full := by simp
  head first := by
    have zero : places = [0] :=
      known.head (by rwa [List.head?_append_of_ne_nil _ known.full] at first)
    have value := known.value
    rw [zero] at value
    exact absurd value (by simpa using positive.ne)

theorem exists_places (proper : 1 < radix) (n : Nat) :
    ∃ places, Places radix n places ∧ Nat.toDigits radix n = places.map Nat.digitChar := by
  induction n using Nat.strong_induction_on with
  | _ n ih =>
      by_cases small : n < radix
      · refine ⟨[n], ⟨by simpa using small, by simp, by simp, ?_⟩, ?_⟩
        · intro first
          rw [Option.some.inj first]
        · rw [Nat.toDigits_of_lt_base small, List.map_singleton]
      · have reaches : radix ≤ n := Nat.le_of_not_lt small
        have positive : 0 < n / radix := Nat.div_pos reaches (by omega)
        obtain ⟨places, known, digits⟩ := ih (n / radix) (Nat.div_lt_self (by omega) proper)
        refine ⟨places ++ [n % radix], ?_, ?_⟩
        · have pushed := known.push positive (Nat.mod_lt n (by omega))
          rwa [Nat.div_add_mod] at pushed
        · rw [Nat.toDigits_of_base_le proper reaches, digits, List.map_append, List.map_singleton]

theorem numerates_toDigits (proper : 1 < radix) (short : radix ≤ 16) :
    Numerates radix n false (Nat.toDigits radix n) := by
  obtain ⟨places, known, digits⟩ := exists_places proper n
  refine ⟨places, known, digits.trans (List.map_congr_left fun place listed => ?_)⟩
  exact digitChar_eq ((known.small place listed).trans_le short)

theorem numerates_toUpper (proper : 1 < radix) (short : radix ≤ 16) :
    Numerates radix n true ((Nat.toDigits radix n).map Char.toUpper) := by
  obtain ⟨places, known, digits⟩ := exists_places proper n
  refine ⟨places, known, ?_⟩
  rw [digits, List.map_map]
  exact List.map_congr_left fun place listed =>
    toUpper_digitChar ((known.small place listed).trans_le short)

theorem exists_paddedPlaces (proper : 1 < radix) (width n : Nat) :
    ∃ places : List Nat, (∀ place ∈ places, place < radix) ∧
      Nat.ofDigits radix places.reverse = n ∧
      (padLeft '0' width (numeral radix n)).toList = places.map Nat.digitChar := by
  obtain ⟨places, known, digits⟩ := exists_places proper n
  refine ⟨List.replicate (width - (numeral radix n).length) 0 ++ places, ?small, ?value, ?digits⟩
  case small =>
    intro place listed
    rcases List.mem_append.mp listed with zero | other
    · rw [List.eq_of_mem_replicate zero]
      exact Nat.zero_lt_of_lt proper
    · exact known.small place other
  case value =>
    rw [List.reverse_append, List.reverse_replicate, Nat.ofDigits_append_replicate_zero,
      known.value]
  case digits =>
    rw [padLeft, fill, String.toList_append, String.toList_ofList, numeral, String.toList_ofList,
      digits, List.map_append, List.map_replicate]
    rfl

theorem length_padLeft_numeral (proper : 1 < radix) {width : Nat} (positive : 0 < width)
    (fits : n < radix ^ width) : (padLeft '0' width (numeral radix n)).toList.length = width := by
  have short : (Nat.toDigits radix n).length ≤ width :=
    (Nat.length_toDigits_le_iff proper positive).mpr fits
  rw [padLeft, fill, String.toList_append, String.toList_ofList, List.length_append,
    List.length_replicate, numeral, String.toList_ofList, String.length_ofList]
  omega

end Gateware.Text
