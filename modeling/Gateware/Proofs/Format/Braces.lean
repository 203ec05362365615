import Gateware.Proofs.Format.Grammar
import Gateware.Proofs.Format.Template

/-!
# Templates that are shown

The template of a format is a valid one, with a field for each value, unless a specifier has a
brace.  The only brace that a specifier can have is its fill, which stands first in it.  A closing
brace there ends the field before its specifier does, and an opening one leaves the field open:
either the template is not read at all, or fields run together and there are fewer of them than
values.
-/

set_option autoImplicit false

namespace Gateware.Format

def NoBrace (text : List Char) : Prop := '\x7b' ∉ text ∧ '\x7d' ∉ text

instance (text : List Char) : Decidable (NoBrace text) :=
  inferInstanceAs (Decidable ('\x7b' ∉ text ∧ '\x7d' ∉ text))

theorem noBrace_cons {c : Char} {text : List Char} :
    NoBrace (c :: text) ↔ (c ≠ '\x7b' ∧ c ≠ '\x7d') ∧ NoBrace text := by
  simp only [NoBrace, List.mem_cons, not_or, ne_eq, eq_comm]
  tauto

/-! ## Braces in specifiers -/

namespace Specifier

/-- After its fill a specifier has no brace. -/
theorem Spelling.Proper.noBrace {spelling : Spelling} (proper : spelling.Proper) :
    NoBrace (spelling.align.toList ++ spelling.afterAlign) := by
  have apart : ∀ c ∈ ['\x7b', '\x7d'],
      ¬ (c ∈ alignments ∨ c.isDigit ∨ c ∈ signs ++ ('#' :: groupings ++ '.' :: types)) :=
    List.all_iff_forall_prop.mp rfl
  have plain {c : Char} (listed : c ∈ spelling.align.toList ++ spelling.afterAlign) :
      c ∈ alignments ∨ c.isDigit ∨ c ∈ signs ++ ('#' :: groupings ++ '.' :: types) := by
    rcases List.mem_append.mp listed with aligned | later
    · exact Or.inl (proper.align c (Option.mem_toList.mp aligned))
    · exact Or.inr (proper.mem_afterAlign later)
  exact ⟨fun listed => apart _ (by simp) (plain listed),
    fun listed => apart _ (by simp) (plain listed)⟩

/-- A specifier fills with a brace, which stands before everything else in it. -/
def FillsWith (brace : Char) (specifier : String) : Prop :=
  ∃ tail, specifier.toList = brace :: tail ∧ NoBrace tail

theorem braceless_or_fillsWith {text : String} {specifier : Specifier}
    (found : read text = .ok specifier) :
    (Braceless text ∧ specifier.fill ≠ some '\x7b' ∧ specifier.fill ≠ some '\x7d') ∨
      ∃ brace, (brace = '\x7b' ∨ brace = '\x7d') ∧ specifier.fill = some brace ∧
        FillsWith brace text := by
  obtain ⟨spelling, proper, same, rfl⟩ := exists_held (read_eq_ok.mp found)
  have tail := proper.noBrace
  rw [Spelling.text_eq, List.append_assoc] at same
  cases filled : spelling.fill with
  | none =>
      rw [filled, Option.toList_none, List.nil_append] at same
      have whole : NoBrace text.toList := same ▸ tail
      exact Or.inl ⟨whole, by simp [Spelling.held, Spelling.specifier, filled]⟩
  | some c =>
      rw [filled, Option.toList_some, List.singleton_append] at same
      by_cases braced : c = '\x7b' ∨ c = '\x7d'
      · exact Or.inr ⟨c, braced, filled, _, same.symm, tail⟩
      · have other := not_or.mp braced
        have whole : NoBrace text.toList := same ▸ noBrace_cons.mpr ⟨other, tail⟩
        exact Or.inl ⟨whole, by simpa [Spelling.held, Spelling.specifier, filled] using other⟩

end Specifier

/-! ## Reading on -/

def Piece.isField : Piece → Bool
  | .text _ => false
  | .field _ _ _ => true

namespace Template

def fieldCount (pieces : List Piece) : Nat := pieces.countP Piece.isField

variable {rest done : List Char} {pieces : List Piece} {bound : Nat}

theorem fieldCount_cons_le (piece : Piece) (pieces : List Piece) :
    fieldCount (piece :: pieces) ≤ fieldCount pieces + 1 := by
  rw [fieldCount, List.countP_cons]
  split
  · exact Nat.le_refl _
  · exact Nat.le_succ _

theorem readFrom_text_noBrace {plain : List Char} (noBrace : NoBrace plain)
    (done rest : List Char) :
    readFrom .text done (plain ++ rest) = readFrom .text (plain.reverse ++ done) rest := by
  induction plain generalizing done with
  | nil => rfl
  | cons c plain ih =>
      obtain ⟨⟨opens, closes⟩, later⟩ := noBrace_cons.mp noBrace
      have step : readFrom .text done (c :: (plain ++ rest)) =
          readFrom .text (c :: done) (plain ++ rest) := by
        simp [readFrom, opens, closes]
      rw [List.cons_append, step, ih later, List.reverse_cons, List.append_assoc]
      rfl

theorem readFrom_field_noBrace {plain : List Char} (noBrace : NoBrace plain) (depth : Nat)
    (done rest : List Char) :
    readFrom (.field depth) done (plain ++ rest) =
      readFrom (.field depth) (plain.reverse ++ done) rest := by
  induction plain generalizing done with
  | nil => rfl
  | cons c plain ih =>
      obtain ⟨⟨opens, closes⟩, later⟩ := noBrace_cons.mp noBrace
      have step : readFrom (.field depth) done (c :: (plain ++ rest)) =
          readFrom (.field depth) (c :: done) (plain ++ rest) := by
        simp [readFrom, closes]
      rw [List.cons_append, step, ih later, List.reverse_cons, List.append_assoc]
      rfl

theorem exists_of_field_closed
    (read : readFrom (.field 0) done ('\x7d' :: rest) = .ok pieces) :
    ∃ piece others, readFrom .text [] rest = .ok others ∧ pieces = piece :: others := by
  rw [readFrom] at read
  obtain ⟨piece, _, read⟩ := bind_eq_ok.mp read
  obtain ⟨others, found, same⟩ := bind_eq_ok.mp read
  cases same
  exact ⟨piece, others, found, rfl⟩

theorem exists_of_field_opened {c : Char} (single : c ≠ '\x7b')
    (read : readFrom .text done ('\x7b' :: c :: rest) = .ok pieces) :
    ∃ others, readFrom (.field 0) [] (c :: rest) = .ok others ∧
      fieldCount pieces = fieldCount others := by
  have step : readFrom .text done ('\x7b' :: c :: rest) =
      (readFrom (.field 0) [] (c :: rest)).map (.text (String.ofList done.reverse) :: ·) := by
    rw [readFrom]
    intro _ doubled
    exact single (List.cons.inj doubled).1
  rw [step] at read
  obtain ⟨others, found, rfl⟩ := map_eq_ok.mp read
  exact ⟨others, found, rfl⟩

/-- What is known of the template of some chunks, wherever the reading of it starts: how many
fields it closes at most, counting one more if the reading starts below an odd number of braces
in a field, and that it does not take back a closing brace before it. -/
structure Bounded (rest : List Char) (bound : Nat) : Prop where
  text : ∀ done pieces, readFrom .text done rest = .ok pieces → fieldCount pieces ≤ bound
  field : ∀ depth done pieces, readFrom (.field depth) done rest = .ok pieces →
    fieldCount pieces ≤ bound + depth % 2
  lone : ∀ done pieces, readFrom .text done ('\x7d' :: rest) ≠ .ok pieces

theorem bounded_nil : Bounded [] 0 where
  text done pieces read := by
    cases read
    exact Nat.le_refl 0
  field depth done pieces read := by
    cases read
  lone done pieces read := by
    cases read

/-- A character of a text keeps the parity of the open braces, or closes just the field. -/
theorem Bounded.escapeChar (bounded : Bounded rest bound) (c : Char) :
    Bounded (escapeChar c ++ rest) bound := by
  by_cases opens : c = '\x7b'
  · subst opens
    refine ⟨fun done => bounded.text ('\x7b' :: done), fun depth done pieces read => ?_,
      fun done pieces read => by cases read⟩
    have kept := bounded.field (depth + 2) ('\x7b' :: '\x7b' :: done) pieces read
    rwa [Nat.add_mod_right] at kept
  · by_cases closes : c = '\x7d'
    · subst closes
      refine ⟨fun done => bounded.text ('\x7d' :: done), fun depth done pieces read => ?_,
        fun done => bounded.lone ('\x7d' :: done)⟩
      match depth with
      | 0 =>
          obtain ⟨_, others, found, _⟩ := exists_of_field_closed read
          exact absurd found (bounded.lone [] others)
      | 1 =>
          obtain ⟨piece, others, found, rfl⟩ :=
            exists_of_field_closed (show readFrom (.field 0) ('\x7d' :: done) _ = _ from read)
          exact (fieldCount_cons_le piece others).trans
            (Nat.succ_le_succ (bounded.text [] others found))
      | depth + 2 =>
          rw [Nat.add_mod_right]
          exact bounded.field depth ('\x7d' :: '\x7d' :: done) pieces read
    · have plain : NoBrace [c] := noBrace_cons.mpr ⟨⟨opens, closes⟩, by decide⟩
      have single : Template.escapeChar c = [c] := by simp [Template.escapeChar, opens, closes]
      rw [single]
      refine ⟨fun done pieces read => ?_, fun depth done pieces read => ?_,
        fun done pieces read => ?_⟩
      · rw [readFrom_text_noBrace plain] at read
        exact bounded.text _ pieces read
      · rw [readFrom_field_noBrace plain] at read
        exact bounded.field depth _ pieces read
      · simp [readFrom, closes] at read

theorem Bounded.escape (bounded : Bounded rest bound) (content : List Char) :
    Bounded (content.flatMap Template.escapeChar ++ rest) bound := by
  induction content with
  | nil => exact bounded
  | cons c content ih =>
      rw [List.flatMap_cons, List.append_assoc]
      exact ih.escapeChar c

def Short (rest : List Char) (bound : Nat) : Prop :=
  ∀ done pieces, readFrom .text done rest = .ok pieces → fieldCount pieces < bound

theorem Short.escape (short : Short rest bound) (content : List Char) :
    Short (content.flatMap Template.escapeChar ++ rest) bound := by
  intro done pieces read
  rw [readFrom_escape] at read
  exact short _ pieces read

theorem exists_of_plainField {field : List Char} (plain : NoBrace field)
    (read : readFrom .text done ('\x7b' :: (field ++ '\x7d' :: rest)) = .ok pieces) :
    ∃ others, readFrom .text [] rest = .ok others ∧
      fieldCount pieces ≤ fieldCount others + 1 := by
  rw [readFrom_field plain.1 plain.2] at read
  obtain ⟨piece, _, found⟩ := bind_eq_ok.mp read
  obtain ⟨others, later, rfl⟩ := map_eq_ok.mp found
  exact ⟨others, later, fieldCount_cons_le piece others⟩

theorem Short.plainField (short : Short rest bound) {field : List Char} (plain : NoBrace field) :
    Short ('\x7b' :: (field ++ '\x7d' :: rest)) (bound + 1) := by
  intro done pieces read
  obtain ⟨others, later, one⟩ := exists_of_plainField plain read
  exact one.trans_lt (Nat.succ_lt_succ (short [] others later))

theorem Bounded.plainField (bounded : Bounded rest bound) {field : List Char}
    (plain : NoBrace field) : Bounded ('\x7b' :: (field ++ '\x7d' :: rest)) (bound + 1) := by
  refine ⟨fun done pieces read => ?_, fun depth done pieces read => ?_,
    fun done pieces read => by cases read⟩
  · obtain ⟨others, later, one⟩ := exists_of_plainField plain read
    exact one.trans (Nat.succ_le_succ (bounded.text [] others later))
  · have inner : readFrom (.field (depth + 1)) ('\x7b' :: done) (field ++ '\x7d' :: rest) =
        .ok pieces := read
    rw [readFrom_field_noBrace plain] at inner
    have kept := bounded.field depth _ pieces inner
    omega

/-- A field that fills with an opening brace is still open at its end. -/
theorem Bounded.short_opening (bounded : Bounded rest bound) {tail : List Char}
    (plain : NoBrace tail) :
    Short ('\x7b' :: ':' :: '\x7b' :: (tail ++ '\x7d' :: rest)) (bound + 1) := by
  intro done pieces read
  obtain ⟨others, found, same⟩ := exists_of_field_opened (by decide) read
  have inner : readFrom (.field 1) ['\x7b', ':'] (tail ++ '\x7d' :: rest) = .ok others := found
  rw [readFrom_field_noBrace plain] at inner
  rw [same]
  exact Nat.lt_succ_of_le (bounded.field 0 _ others inner)

theorem Bounded.short_closing (bounded : Bounded rest bound) {tail : List Char}
    (plain : NoBrace tail) :
    Short ('\x7b' :: ':' :: '\x7d' :: (tail ++ '\x7d' :: rest)) (bound + 1) := by
  intro done pieces read
  obtain ⟨others, found, _⟩ := exists_of_field_opened (by decide) read
  obtain ⟨_, later, text, _⟩ := exists_of_field_closed
    (show readFrom (.field 0) [':'] ('\x7d' :: (tail ++ '\x7d' :: rest)) = _ from found)
  rw [readFrom_text_noBrace plain] at text
  exact absurd text (bounded.lone _ later)

theorem Bounded.openingField (bounded : Bounded rest bound) {tail : List Char}
    (plain : NoBrace tail) :
    Bounded ('\x7b' :: ':' :: '\x7b' :: (tail ++ '\x7d' :: rest)) (bound + 1) := by
  refine ⟨fun done pieces read => (bounded.short_opening plain done pieces read).le,
    fun depth done pieces read => ?_, fun done pieces read => by cases read⟩
  have inner : readFrom (.field (depth + 2)) ('\x7b' :: ':' :: '\x7b' :: done)
      (tail ++ '\x7d' :: rest) = .ok pieces := read
  rw [readFrom_field_noBrace plain] at inner
  have kept := bounded.field (depth + 1) _ pieces inner
  omega

theorem Bounded.closingField (bounded : Bounded rest bound) {tail : List Char}
    (plain : NoBrace tail) :
    Bounded ('\x7b' :: ':' :: '\x7d' :: (tail ++ '\x7d' :: rest)) (bound + 1) := by
  refine ⟨fun done pieces read => (bounded.short_closing plain done pieces read).le,
    fun depth done pieces read => ?_, fun done pieces read => by cases read⟩
  have inner : readFrom (.field depth) ('\x7d' :: ':' :: '\x7b' :: done)
      (tail ++ '\x7d' :: rest) = .ok pieces := read
  rw [readFrom_field_noBrace plain] at inner
  cases depth with
  | zero =>
      obtain ⟨piece, others, found, rfl⟩ := exists_of_field_closed inner
      exact (fieldCount_cons_le piece others).trans
        (Nat.succ_le_succ (bounded.text [] others found))
  | succ depth =>
      have kept := bounded.field depth _ pieces inner
      omega

/-! ## Reading templates of chunks -/

def Specified (chunks : List Chunk) : Prop :=
  ∀ value specifier, .argument value specifier ∈ chunks → Braceless specifier ∨
    Specifier.FillsWith '\x7b' specifier ∨ Specifier.FillsWith '\x7d' specifier

def written (chunks : List Chunk) : List Char := chunks.flatMap fun chunk => chunk.template.toList

def valueCount (chunks : List Chunk) : Nat := (chunks.filterMap Chunk.value?).length

theorem written_text (content : String) (rest : List Chunk) :
    written (.text content :: rest) =
      content.toList.flatMap Template.escapeChar ++ written rest :=
  congrArg (· ++ written rest) String.toList_ofList

theorem written_argument_braceless {specifier : String} (plain : Braceless specifier)
    (value : Value) (rest : List Chunk) :
    ∃ field, NoBrace field ∧ written (.argument value specifier :: rest) =
      '\x7b' :: (field ++ '\x7d' :: written rest) := by
  rw [written, List.flatMap_cons, Chunk.template]
  split
  · exact ⟨[], by decide, by simp [written]⟩
  · exact ⟨':' :: specifier.toList, noBrace_cons.mpr ⟨by decide, plain⟩, by simp [written]⟩

theorem written_argument_fillsWith {specifier : String} {brace : Char}
    (fills : Specifier.FillsWith brace specifier) (value : Value) (rest : List Chunk) :
    ∃ tail, NoBrace tail ∧ written (.argument value specifier :: rest) =
      '\x7b' :: ':' :: brace :: (tail ++ '\x7d' :: written rest) := by
  obtain ⟨tail, same, plain⟩ := fills
  have full : ¬ specifier.isEmpty = true := by
    intro empty
    rw [String.isEmpty_iff.mp empty] at same
    cases same
  refine ⟨tail, plain, ?_⟩
  rw [written, List.flatMap_cons, Chunk.template, if_neg full]
  simp [written, same]

theorem Specified.tail {chunk : Chunk} {rest : List Chunk} (specified : Specified (chunk :: rest)) :
    Specified rest :=
  fun value specifier listed => specified value specifier (List.mem_cons_of_mem _ listed)

theorem bounded_written {chunks : List Chunk} (specified : Specified chunks) :
    Bounded (written chunks) (valueCount chunks) := by
  induction chunks with
  | nil => exact bounded_nil
  | cons chunk rest ih =>
      have bounded := ih specified.tail
      cases chunk with
      | text content =>
          rw [written_text]
          exact bounded.escape content.toList
      | argument value specifier =>
          rcases specified value specifier List.mem_cons_self with plain | opening | closing
          · obtain ⟨field, noBrace, template⟩ := written_argument_braceless plain value rest
            rw [template]
            exact bounded.plainField noBrace
          · obtain ⟨tail, noBrace, template⟩ := written_argument_fillsWith opening value rest
            rw [template]
            exact bounded.openingField noBrace
          · obtain ⟨tail, noBrace, template⟩ := written_argument_fillsWith closing value rest
            rw [template]
            exact bounded.closingField noBrace

/-- If a specifier has a brace, then fewer fields are read than there are values. -/
theorem short_written {chunks : List Chunk} (specified : Specified chunks)
    (braces : ∃ value specifier, .argument value specifier ∈ chunks ∧ ¬ Braceless specifier) :
    Short (written chunks) (valueCount chunks) := by
  induction chunks with
  | nil => simp at braces
  | cons chunk rest ih =>
      cases chunk with
      | text content =>
          rw [written_text]
          exact (ih specified.tail (by simpa using braces)).escape content.toList
      | argument value specifier =>
          have bounded := bounded_written specified.tail
          rcases specified value specifier List.mem_cons_self with plain | opening | closing
          · obtain ⟨field, noBrace, template⟩ := written_argument_braceless plain value rest
            rw [template]
            refine (ih specified.tail ?_).plainField noBrace
            obtain ⟨other, otherSpecifier, listed, notPlain⟩ := braces
            rcases List.mem_cons.mp listed with same | below
            · cases same
              exact absurd plain notPlain
            · exact ⟨other, otherSpecifier, below, notPlain⟩
          · obtain ⟨tail, noBrace, template⟩ := written_argument_fillsWith opening value rest
            rw [template]
            exact bounded.short_opening noBrace
          · obtain ⟨tail, noBrace, template⟩ := written_argument_fillsWith closing value rest
            rw [template]
            exact bounded.short_closing noBrace

end Template

/-! ## The template of a format -/

open Template

/-- A format fills with a brace if a specifier of one of its values does. -/
def FillsWithBrace (format : Format) : Prop :=
  ∃ value specifier parsed, .argument value specifier ∈ format.chunks ∧
    Specifier.read specifier = .ok parsed ∧
    (parsed.fill = some '\x7b' ∨ parsed.fill = some '\x7d')

theorem exists_read_of_checkValue {text : String} {shape : Shape}
    (accepted : Specifier.checkValue text shape = .ok ()) :
    ∃ parsed, Specifier.read text = .ok parsed := by
  obtain ⟨parsed, read, _⟩ := bind_eq_ok.mp accepted
  exact ⟨parsed, read⟩

theorem Settled.specified {format : Format} (settled : format.Settled) :
    Specified format.chunks := by
  intro value specifier listed
  obtain ⟨parsed, read⟩ := exists_read_of_checkValue (settled.checked value specifier listed)
  rcases Specifier.braceless_or_fillsWith read with ⟨plain, _⟩ | ⟨brace, rfl | rfl, _, fills⟩
  · exact Or.inl plain
  · exact Or.inr (Or.inl fills)
  · exact Or.inr (Or.inr fills)

theorem Settled.fillsWithBrace_iff {format : Format} (settled : format.Settled) :
    format.FillsWithBrace ↔
      ∃ value specifier, .argument value specifier ∈ format.chunks ∧ ¬ Braceless specifier := by
  constructor
  · rintro ⟨value, specifier, parsed, listed, read, fill⟩
    refine ⟨value, specifier, listed, fun plain => ?_⟩
    rcases Specifier.braceless_or_fillsWith read with ⟨_, opens, closes⟩ |
      ⟨brace, which, _, tail, same, _⟩
    · exact fill.elim opens closes
    · have first : brace ∈ specifier.toList := same ▸ List.mem_cons_self
      rcases which with rfl | rfl
      · exact plain.1 first
      · exact plain.2 first
  · rintro ⟨value, specifier, listed, braces⟩
    obtain ⟨parsed, read⟩ := exists_read_of_checkValue (settled.checked value specifier listed)
    rcases Specifier.braceless_or_fillsWith read with ⟨plain, _⟩ | ⟨brace, which, fill, _⟩
    · exact absurd plain braces
    · refine ⟨value, specifier, parsed, listed, read, ?_⟩
      rcases which with rfl | rfl
      · exact Or.inl fill
      · exact Or.inr fill

theorem fieldCount_spread (before : String) (chunks : List Chunk) :
    fieldCount ((spread before chunks).map piece) = valueCount chunks := by
  induction chunks generalizing before with
  | nil => rfl
  | cons chunk rest ih =>
      cases chunk with
      | text content => exact ih (before ++ content)
      | argument value specifier =>
          have later := ih ""
          simp only [spread, List.map_cons, fieldCount, piece, List.countP_cons,
            Piece.isField] at later ⊢
          simp [later, valueCount, Chunk.value?]

/-- The template of a format is read, and has one field for each value, exactly if no specifier of
a value fills with a brace. -/
theorem template_read_iff {format : Format} (constructed : format.Constructed) :
    (∃ pieces, Template.read format.template = .ok pieces ∧
        fieldCount pieces = format.values.length) ↔ ¬ format.FillsWithBrace := by
  rw [constructed.settled.fillsWithBrace_iff]
  constructor
  · rintro ⟨pieces, read, count⟩ braces
    rw [Template.read, Format.template, String.toList_join, List.flatMap_map] at read
    have fewer := short_written constructed.settled.specified braces [] pieces read
    exact absurd count (Nat.ne_of_lt fewer)
  · intro noBraces
    have plain : ∀ value specifier, .argument value specifier ∈ format.chunks →
        Braceless specifier := by
      intro value specifier listed
      by_contra braces
      exact noBraces ⟨value, specifier, listed, braces⟩
    exact ⟨_, read_template plain, fieldCount_spread "" format.chunks⟩

def starFilled : Format := ⟨[.argument .initial "*<5"]⟩

theorem template_read_starFilled :
    starFilled.Constructed ∧
      ∃ pieces, Template.read "\x7b:*<5\x7d" = .ok pieces ∧ fieldCount pieces = 1 := by
  have run : Build.Gives (ofValues "\x7b:*<5\x7d" [.initial]) {} starFilled {} := rfl
  have constructed := constructed_ofValues run
  refine ⟨constructed, (template_read_iff constructed).mpr ?_⟩
  rintro ⟨value, specifier, parsed, listed, read, fill⟩
  have only : value = .initial ∧ specifier = "*<5" := by simpa [starFilled] using listed
  obtain ⟨rfl, rfl⟩ := only
  have found : Specifier.read "*<5" =
      .ok { fill := some '*', align := some '<', width := some 5 } := rfl
  cases found.symm.trans read
  rcases fill with opens | closes
  · cases opens
  · cases closes

def filledWith (fill : String) : Format :=
  ⟨[.argument (.signal ⟨0, "a", Shape.unsigned 8⟩) (fill ++ "<5")]⟩

/-- A value that fills with an opening brace leaves its field open, one that fills with a closing
brace leaves a brace behind, and one after the other they are read as a single field. -/
theorem template_not_read :
    (∀ fill ∈ ["\x7b", "\x7d"], Build.Gives (compile "\x7b:\x7b\x7d\x7d"
        { positional := [.value (.signal ⟨0, "a", Shape.unsigned 8⟩), .text (fill ++ "<5")] }) {}
        (filledWith fill) {}) ∧
      Template.read (filledWith "\x7b").template = .error .openField ∧
      Template.read (filledWith "\x7d").template = .error .loneBrace ∧
      (filledWith "\x7b" ++ filledWith "\x7d").values.length = 2 ∧
      ∃ pieces, Template.read (filledWith "\x7b" ++ filledWith "\x7d").template = .ok pieces ∧
        fieldCount pieces = 1 := by
  refine ⟨?_, rfl, rfl, rfl, _, rfl, rfl⟩
  simp only [List.forall_mem_cons]
  exact ⟨rfl, rfl, by simp⟩

end Gateware.Format
