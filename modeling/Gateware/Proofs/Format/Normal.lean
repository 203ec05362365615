import Gateware.Proofs.Format.Template

/-!
# Formats in normal form

Whichever way a format is made, its texts stand apart and its values can be printed in their
specifiers: what is spliced into a format has both properties itself, and merging the chunks
around it restores them.  Characters are printed of whole bytes only.
-/

set_option autoImplicit false

namespace Gateware

namespace Format

/-- A format whose texts stand apart and whose values can be printed in their specifiers. -/
structure Normal (format : Format) : Prop where
  full (content : String) : .text content ∈ format.chunks → content ≠ ""
  apart (left right : String) : ¬ [.text left, .text right] <:+: format.chunks
  printable (value : Value) (specifier : String) :
    .argument value specifier ∈ format.chunks →
      Specifier.checkValue specifier value.shape = .ok ()
  bytes (value : Value) (specifier : String) (read : Specifier) :
    .argument value specifier ∈ format.chunks → Specifier.read specifier = .ok read →
      read.type = some 'c' ∨ read.type = some 's' → value.shape.signed = false ∧ 8 ∣ value.width

namespace Chunk

variable {chunks : List Chunk}

theorem Apart.full (apart : Apart chunks) {content : String} (listed : .text content ∈ chunks) :
    content ≠ "" := by
  induction chunks with
  | nil => cases listed
  | cons chunk rest ih =>
      cases chunk with
      | argument value specifier =>
          rcases List.mem_cons.mp listed with same | later
          · cases same
          · exact ih apart later
      | text first =>
          obtain ⟨full, -, restApart⟩ := apart
          rcases List.mem_cons.mp listed with same | later
          · cases same
            exact full
          · exact ih restApart later

theorem Apart.not_infix (apart : Apart chunks) (left right : String) :
    ¬ [.text left, .text right] <:+: chunks := by
  induction chunks with
  | nil => simp
  | cons chunk rest ih =>
      rw [List.infix_cons_iff, List.cons_prefix_cons]
      intro beside
      obtain ⟨same, others, rfl⟩ | later := beside
      · subst same
        obtain ⟨-, alone, -⟩ := apart
        exact alone right rfl
      · cases chunk with
        | argument value specifier => exact ih apart later
        | text first => exact ih apart.2.2 later

end Chunk

namespace Specifier

variable {text : String} {read : Specifier} {shape : Shape}

theorem of_characterLimit?_eq_none (unlimited : read.characterLimit? shape = none) :
    shape.signed = false ∧ 8 ∣ shape.width := by
  have whole := @Nat.dvd_of_mod_eq_zero 8 shape.width
  grind [characterLimit?]

theorem bytes_of_checkValue (accepted : checkValue text shape = .ok ())
    (found : Specifier.read text = .ok read)
    (characters : read.type = some 'c' ∨ read.type = some 's') :
    shape.signed = false ∧ 8 ∣ shape.width := by
  rw [checkValue] at accepted
  obtain ⟨_, again, checks⟩ := bind_eq_ok.mp accepted
  cases found.symm.trans again
  cases limit : read.characterLimit? shape with
  | none => exact of_characterLimit?_eq_none limit
  | some limit =>
      obtain ⟨fill, align, sign, alternate, zero, width, grouping, precision, type⟩ := read
      -- The checks before the last one do not look at the shape.
      rcases characters with rfl | rfl
      all_goals
        obtain ⟨-, checks⟩ := unless_eq_ok.mp checks
        obtain ⟨-, checks⟩ := unless_eq_ok.mp checks
        obtain ⟨-, checks⟩ := unless_eq_ok.mp checks
        obtain ⟨-, checks⟩ := unless_eq_ok.mp checks
        simp [limit] at checks

end Specifier

theorem Settled.normal {format : Format} (settled : format.Settled) : format.Normal where
  full _ listed := settled.apart.full listed
  apart := settled.apart.not_infix
  printable := settled.checked
  bytes value specifier _ listed found characters :=
    Specifier.bytes_of_checkValue (settled.checked value specifier listed) found characters

/-- Whatever formats are made of, by text, one after the other, by templates with formats and
custom values spliced in, or by printers of any depth, they are in normal form. -/
theorem normal_of_constructed :
    (∀ format : Format, format.Constructed → format.Normal) ∧
    Constructed {} ∧
    (∀ text, (ofText text).Constructed) ∧
    (∀ left right : Format, left.Constructed → right.Constructed → (left ++ right).Constructed) ∧
    (∀ (template : String) (arguments : Arguments Insert) (session after : Session)
      (format : Format), arguments.Hold Constructed →
      Build.Gives (compile template arguments) session format after → format.Constructed) ∧
    (∀ (printer : Printer) (session after : Session) (format : Format),
      printer.Holds Constructed → Build.Gives printer.compile session format after →
      format.Constructed) := by
  refine ⟨fun _ made => made.settled.normal, ?_, fun text => ?_, fun _ _ left right => ?_,
    fun _ _ _ _ _ hold run => ?_, fun _ _ _ _ holds run => ?_⟩
  · exact construction_constructed.ofText ""
  · exact construction_constructed.ofText text
  · exact construction_constructed.append left right
  · exact constructed_compile hold run
  · exact construction_constructed.printer holds run

def greeting : Format := ⟨[.argument (Printer.label "hi") "s"]⟩

theorem constructed_greeting : greeting.Constructed := by
  have only {value : Value} {specifier : String}
      (listed : .argument value specifier ∈ greeting.chunks) :
      value = Printer.label "hi" ∧ specifier = "s" := by
    simpa [greeting] using listed
  have settled : greeting.Settled := by
    refine ⟨trivial, fun value specifier listed => ?_⟩
    obtain ⟨rfl, rfl⟩ := only listed
    decide +kernel
  refine settled.constructed fun value specifier listed => ?_
  obtain ⟨rfl, rfl⟩ := only listed
  exact ⟨by decide, by decide⟩

/-- The same text twice, as the elements of a printer. -/
theorem normal_of_constructed_greetings :
    ∃ format, Build.Gives
      (Printer.elements (.ofInt 0) [.format greeting, .format greeting]).compile {} format {} ∧
      format.Normal := by
  obtain ⟨normal, -, -, -, -, printed⟩ := normal_of_constructed
  have holds : (Printer.elements (.ofInt 0) [.format greeting, .format greeting]).Holds
      Constructed := by
    apply Printer.Holds.elements
    simp only [List.forall_mem_cons]
    exact ⟨.format constructed_greeting, .format constructed_greeting, by simp⟩
  have run : Build.Gives
      (Printer.elements (.ofInt 0) [.format greeting, .format greeting]).compile {} _ {} := rfl
  exact ⟨_, run, normal _ (printed _ _ _ _ holds run)⟩

end Format

end Gateware
