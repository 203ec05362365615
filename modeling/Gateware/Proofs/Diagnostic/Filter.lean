import Mathlib.Data.List.Induction
import Gateware.Diagnostic.Filter
import Gateware.Proofs.Text.Word

/-!
# Levels that were set

A filter answers for a code with the level that was set for it last.  Levels are kept under the
texts of codes, so this rests on two codes having two texts.
-/

set_option autoImplicit false

namespace Gateware.Diagnostic

theorem Category.letter_inj {left right : Category} (same : left.letter = right.letter) :
    left = right := by
  cases left <;> cases right <;> first | rfl | exact absurd same (by decide)

theorem ofDigitChars_padLeft (width n : Nat) :
    Nat.ofDigitChars 10 (Text.padLeft '0' width (toString n)).toList 0 = n := by
  rw [Text.padLeft, Text.fill, String.toList_append, String.toList_ofList, Nat.ofDigitChars_append,
    Nat.ofDigitChars_replicate_zero, Nat.toString_eq_ofList_toDigits, String.toList_ofList,
    Nat.mul_zero]
  exact Nat.ofDigitChars_ten_toDigits

theorem Code.text_inj {left right : Code} (same : left.text = right.text) : left = right := by
  obtain ⟨leftCategory, leftNumber⟩ := left
  obtain ⟨rightCategory, rightNumber⟩ := right
  have letters := congrArg String.toList same
  simp only [Code.text, String.toList_append, Char.toString_eq_singleton, String.toList_singleton,
    List.singleton_append, List.cons.injEq] at letters
  obtain ⟨letter, digits⟩ := letters
  have numbers : leftNumber = rightNumber := by
    rw [← ofDigitChars_padLeft 3 leftNumber, digits, ofDigitChars_padLeft]
  rw [Category.letter_inj letter, numbers]

namespace Filter

theorem level_empty (code : Code) : Filter.level {} code = .warn := rfl

theorem level_set_other (filter : Filter) {code other : Code} (level : Level)
    (different : other ≠ code) : (filter.set code level).level other = filter.level other := by
  simp [set, Filter.level,
    Association.at?_put_other _ _ fun same : other.text = code.text =>
      different (Code.text_inj same)]

/-- A filter with a default on which levels were set one after the other. -/
def ofSettings (default : Level) (settings : List (Code × Level)) : Filter :=
  settings.foldl (fun filter setting => filter.set setting.1 setting.2) { default }

/-- The level of the last setting for a code, or the default if there is none. -/
def lastLevel (default : Level) (settings : List (Code × Level)) (code : Code) : Level :=
  ((settings.reverse.find? fun setting => setting.1 = code).map Prod.snd).getD default

theorem level_foldl_set (filter : Filter) (settings : List (Code × Level)) (code : Code) :
    (settings.foldl (fun filter setting => filter.set setting.1 setting.2) filter).level code =
      lastLevel (filter.level code) settings code := by
  induction settings using List.reverseRecOn with
  | nil => rfl
  | append_singleton settings last ih =>
      rw [List.foldl_concat, lastLevel, List.reverse_concat]
      by_cases here : last.1 = code
      · simp [here]
      · rw [level_set_other _ _ (Ne.symm here), ih]
        simp [lastLevel, here]

theorem level_ofSettings (default : Level) (settings : List (Code × Level)) (code : Code) :
    (ofSettings default settings).level code = lastLevel default settings code :=
  level_foldl_set { default } settings code

end Filter

end Gateware.Diagnostic
