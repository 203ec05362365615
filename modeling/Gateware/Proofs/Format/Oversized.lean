import Gateware.Proofs.Format.Grammar
import Gateware.Proofs.Format.Subject

/-!
# Specifiers with numbers that leave a word

A precision that leaves a word makes a specifier malformed, and whatever it is applied to refuses
it.  A width that leaves a word is passed over: the specifier is taken as the one without a width,
and is refused only where that one is.
-/

set_option autoImplicit false

namespace Gateware.Format

open Specifier

namespace Specifier.Spelling

/-- The same parts without a width. -/
def bare (spelling : Spelling) : Spelling := { spelling with width := [] }

variable {spelling : Spelling}

theorem Proper.bare (proper : spelling.Proper) : spelling.bare.Proper :=
  { proper with width := nofun }

theorem Proper.bare_meant (proper : spelling.Proper) : spelling.bare.Meant :=
  ⟨proper.bare.fill_meant, nofun⟩

theorem number_oversized {digits : List Char} (oversized : 2 ^ 64 ≤ size digits) :
    number digits = none := by
  rw [number_eq, if_pos (Or.inr oversized)]

theorem Proper.read?_of_oversized_precision (proper : spelling.Proper) (meant : spelling.Meant)
    {text : String} (same : spelling.text = text.toList)
    (oversized : ∃ digits ∈ spelling.precision, 2 ^ 64 ≤ size digits) : read? text = none := by
  obtain ⟨digits, given, oversized⟩ := oversized
  have given : spelling.precision = some digits := given
  rw [proper.read?_text meant same, given, Option.all_some, number_oversized oversized]
  rfl

/-- A width that leaves a word is read as if it were not there. -/
theorem Proper.read?_of_oversized_width (proper : spelling.Proper) (meant : spelling.Meant)
    {text : String} (same : spelling.text = text.toList)
    (oversized : 2 ^ 64 ≤ size spelling.width) :
    read? text = read? (String.ofList spelling.bare.text) := by
  have held : spelling.held = spelling.bare.held := by
    rw [held, held, number_oversized oversized]
    rfl
  rw [proper.read?_text meant same, held,
    proper.bare.read?_text proper.bare_meant (String.toList_ofList).symm]
  rfl

end Specifier.Spelling

/-- A precision that leaves a word is refused by every subject.  With a width that leaves a word, a
subject refuses exactly what it refuses without a width.  What a subject refuses is refused in every
template that applies it to the subject, and a template may be refused for no other reason. -/
theorem oversized_refused_iff {spelling : Spelling} {text : String} (proper : spelling.Proper)
    (meant : spelling.Meant) (same : spelling.text = text.toList) :
    ((∃ digits ∈ spelling.precision, 2 ^ 64 ≤ size digits) →
      ∀ subject : Subject, subject.judge text = .error (.specifier text)) ∧
    (2 ^ 64 ≤ size spelling.width → ∀ subject : Subject,
      subject.Refuses text ↔ subject.Refuses (String.ofList spelling.bare.text)) ∧
    (∀ (template : String) (arguments : Arguments Insert) (session : Session)
        (reading : Reading Insert) (argument : Arg Insert) (subject : Subject),
      Reading.Of template reading → Denotes arguments reading.fields → ¬ Mixed reading.fields →
      reading.Applies (insertion session.design) argument text →
      Subject.Of session.design argument subject → subject.Refuses text →
      ∃ fault, (Build.runIn session (compile template arguments)).1 = .error fault) ∧
    (∀ (session : Session) (argument : Arg Insert) (subject : Subject),
      Subject.Of session.design argument subject →
        ((∃ fault, (Build.runIn session (compile "\x7b:\x7b\x7d\x7d"
            { positional := [argument, .text text] })).1 = .error fault) ↔
          subject.Refuses text)) := by
  refine ⟨?precision, ?width, ?templates, ?borrowed⟩
  case precision =>
    intro oversized subject
    exact Subject.judge_malformed (proper.read?_of_oversized_precision meant same oversized)
  case width =>
    intro oversized subject
    exact Subject.refuses_congr (proper.read?_of_oversized_width meant same oversized)
  case templates =>
    intro template arguments session reading argument subject ofTemplate denotes unmixed applies
      subjected refuses
    apply Build.fails_iff.mpr
    intro format after run
    exact Subject.judge_eq_ok_iff.mp
      (subjected.judge_of_gives ofTemplate ⟨denotes, unmixed⟩ applies run) refuses
  case borrowed => exact fun _ _ _ subjected => subjected.compile_fails_iff

/-- The type is what an integer refuses here. -/
theorem oversized_refused_iff_floating :
    2 ^ 64 ≤ size "18446744073709551616".toList ∧
      (Subject.int 5).Refuses "18446744073709551616f" ∧
      ∃ fault, (Build.runIn {} (compile "\x7b:\x7b\x7d\x7d"
        { positional := [.int 5, .text "18446744073709551616f"] })).1 = .error fault := by
  let spelling : Spelling := { width := "18446744073709551616".toList, type := some 'f' }
  have proper : spelling.Proper :=
    ⟨nofun, nofun, nofun, List.all_eq_true.mp rfl, nofun, nofun, by simp [spelling]⟩
  have meant : spelling.Meant := ⟨proper.fill_meant, by decide⟩
  have oversized : 2 ^ 64 ≤ size spelling.width := by decide
  have same : spelling.text = "18446744073709551616f".toList := by decide
  have refused := oversized_refused_iff proper meant same
  have bare : String.ofList spelling.bare.text = "f" := by decide
  have refuses : (Subject.int 5).Refuses "18446744073709551616f" :=
    (refused.2.1 oversized _).mpr (bare ▸ ⟨.integerType 'f', rfl⟩)
  exact ⟨oversized, refuses, (refused.2.2.2 {} _ _ (.int 5)).mpr refuses⟩

/-- A width that leaves a word goes unnoticed by every kind of subject and in a template, while the
same digits in a precision are refused. -/
theorem oversized_width_accepted :
    2 ^ 64 ≤ size "18446744073709551616".toList ∧
      intText 5 "18446744073709551616" = .ok "5" ∧
      stringText "ab" "18446744073709551616" = .ok "ab" ∧
      checkValue "18446744073709551616" (.unsigned 8) = .ok () ∧
      (Build.runIn {} (compile "\x7b:18446744073709551616\x7d" { positional := [.int 5] })).1 =
        .ok (.mk [.text "5"]) ∧
      intText 5 ".18446744073709551616" = .error (.specifier ".18446744073709551616") ∧
      stringText "ab" ".18446744073709551616" = .error (.specifier ".18446744073709551616") ∧
      checkValue ".18446744073709551616" (.unsigned 8) =
        .error (.specifier ".18446744073709551616") := by
  refine ⟨by decide, rfl, rfl, rfl, rfl, rfl, rfl, rfl⟩

end Gateware.Format
