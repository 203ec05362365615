import Gateware.Proofs.Concur
import Gateware.Proofs.Diagnostic.Compositional
import Gateware.Proofs.Format.Filling

/-!
# What specifiers are applied to

A specifier is judged by what it is applied to: an integer, a text or a value.  A template is
refused as soon as one of its fields, at any depth, applies a specifier to what refuses it.  A
template whose only field takes its specifier from an argument is refused for no other reason.
-/

set_option autoImplicit false

namespace Gateware

theorem Build.Compositional.inserted {family : {α : Type} → Build α → Prop}
    (closed : Build.Compositional family) {Object : Type} {insertion : Format.Insertion Object}
    (objects : ∀ object specifier, family (insertion.chunks object specifier))
    (argument : Format.Arg Object) (specifier : String) :
    family (Format.inserted insertion argument specifier) := by
  cases argument with
  | value tree => exact closed.bind (closed.ofExcept _) fun _ => closed.ends _
  | object object => exact objects object specifier
  | int number => exact closed.bind (closed.ofExcept _) fun _ => closed.ends _
  | text content => exact closed.bind (closed.ofExcept _) fun _ => closed.ends _

namespace Format

/-! ## Subjects of specifiers -/

/-- What a specifier is applied to. -/
inductive Subject where
  | int (number : Int)
  | text (content : String)
  | value (shape : Shape)

def Subject.judge (specifier : String) : Subject → Except Fault Unit
  | .int number => (intText number specifier).map fun _ => ()
  | .text content => (stringText content specifier).map fun _ => ()
  | .value shape => Specifier.checkValue specifier shape

def Subject.Refuses (specifier : String) (subject : Subject) : Prop :=
  ∃ fault, subject.judge specifier = .error fault

theorem Subject.judge_eq_ok_iff {subject : Subject} {specifier : String} :
    subject.judge specifier = .ok () ↔ ¬ subject.Refuses specifier := by
  unfold Refuses
  cases subject.judge specifier <;> simp

/-- The subject that an argument of a template is. -/
inductive Subject.Of (design : Design) : Arg Insert → Subject → Prop
  | int (number : Int) : Of design (.int number) (.int number)
  | text (content : String) : Of design (.text content) (.text content)
  | value (tree : Value) : Of design (.value tree) (.value tree.shape)
  | operand {operand : Operand} {spec : ShapeSpec} {value : Value}
      (shaped : design.operandShape operand = .ok spec) (plain : ∀ shape, spec ≠ .custom shape)
      (cast : design.cast operand = .ok value) :
      Of design (.object (.operand operand)) (.value value.shape)

variable {text other : String} {subject : Subject}

theorem concur_read (same : Specifier.read? text = Specifier.read? other) :
    Concur Eq (Specifier.read text) (Specifier.read other) := by
  rw [Specifier.read, Specifier.read, same]
  cases Specifier.read? other with
  | none => exact .fault rfl
  | some specifier => exact .ok rfl

theorem Subject.concur_judge (same : Specifier.read? text = Specifier.read? other) :
    Concur Eq (subject.judge text) (subject.judge other) := by
  cases subject with
  | int number =>
      have texts : Concur Eq (intText number text) (intText number other) := by
        refine (concur_read same).bind ?_
        rintro specifier _ rfl
        exact concur_refl
      exact texts.map fun _ => rfl
  | text content =>
      have texts : Concur Eq (stringText content text) (stringText content other) := by
        refine (concur_read same).bind ?_
        rintro specifier _ rfl
        exact concur_refl
      exact texts.map fun _ => rfl
  | value shape =>
      refine (concur_read same).bind ?_
      rintro specifier _ rfl
      refine .unless rfl ?_
      cases specifier.type with
      | none => exact concur_refl
      | some type => exact .unless rfl concur_refl

theorem Subject.refuses_congr (same : Specifier.read? text = Specifier.read? other) :
    subject.Refuses text ↔ subject.Refuses other := by
  rcases concur_eq_iff.mp (subject.concur_judge same) with
    ⟨_, left, right⟩ | ⟨fault, mirrored, left, right, _⟩
  · simp [Refuses, left, right]
  · exact iff_of_true ⟨fault, left⟩ ⟨mirrored, right⟩

theorem Subject.judge_malformed (malformed : Specifier.read? text = none) :
    subject.judge text = .error (.specifier text) := by
  have read : Specifier.read text = .error (.specifier text) := by
    rw [Specifier.read, malformed]
  cases subject with
  | int number => exact map_eq_error.mpr (by rw [intText, read]; rfl)
  | text content => exact map_eq_error.mpr (by rw [stringText, read]; rfl)
  | value shape => rw [judge, Specifier.checkValue, read]; rfl

/-! ## Specifiers in templates -/

section

variable {Object : Type} {insertion : Insertion Object} {argument : Arg Object}
  {specifier : String} {reading : Reading Object}

/-- Somewhere in a reading, perhaps inside a specifier, a field applies a specifier to an
argument. -/
inductive Reading.Applies (insertion : Insertion Object) (argument : Arg Object)
    (specifier : String) : Reading Object → Prop
  | here {head : Field Object} {conversion : Option Char} {inner rest : Reading Object}
      (converted : head.argument.convert insertion conversion = .ok argument)
      (filled : inner.literal insertion = .ok specifier) :
      Applies insertion argument specifier (.field head conversion inner rest)
  | inside {head : Field Object} {conversion : Option Char} {inner rest : Reading Object}
      (applies : inner.Applies insertion argument specifier) :
      Applies insertion argument specifier (.field head conversion inner rest)
  | after {head : Field Object} {conversion : Option Char} {inner rest : Reading Object}
      (applies : rest.Applies insertion argument specifier) :
      Applies insertion argument specifier (.field head conversion inner rest)
  | afterText {content : String} {rest : Reading Object}
      (applies : rest.Applies insertion argument specifier) :
      Applies insertion argument specifier (.text content rest)

theorem Reading.Applies.exists_literal (applies : reading.Applies insertion argument specifier)
    {text : String} (filled : reading.literal insertion = .ok text) :
    ∃ literal, argument.literal insertion specifier = .ok literal := by
  induction applies generalizing text with
  | here converted inner =>
      obtain ⟨given, again, filled⟩ := bind_eq_ok.mp filled
      obtain ⟨within, nested, filled⟩ := bind_eq_ok.mp filled
      obtain ⟨literal, rendered, _⟩ := bind_eq_ok.mp filled
      cases converted.symm.trans again
      cases inner.symm.trans nested
      exact ⟨literal, rendered⟩
  | inside _ ih =>
      obtain ⟨_, _, filled⟩ := bind_eq_ok.mp filled
      obtain ⟨_, nested, _⟩ := bind_eq_ok.mp filled
      exact ih nested
  | after _ ih =>
      obtain ⟨_, _, filled⟩ := bind_eq_ok.mp filled
      obtain ⟨_, _, filled⟩ := bind_eq_ok.mp filled
      obtain ⟨_, _, filled⟩ := bind_eq_ok.mp filled
      obtain ⟨_, later, _⟩ := bind_eq_ok.mp filled
      exact ih later
  | afterText _ ih =>
      obtain ⟨_, later, _⟩ := bind_eq_ok.mp filled
      exact ih later

/-- What is applied in a reading was rendered inside a specifier, or inserted in a session of the
same design. -/
theorem Reading.Applies.exists_inserted
    (remarking : ∀ object specifier, Build.Remarking (insertion.chunks object specifier))
    (applies : reading.Applies insertion argument specifier) {session after : Session}
    {chunks : List Chunk} (run : Build.Gives (reading.chunks insertion) session chunks after) :
    (∃ literal, argument.literal insertion specifier = .ok literal) ∨
      ∃ between more left, between.design = session.design ∧
        Build.Gives (inserted insertion argument specifier) between more left := by
  induction applies generalizing session chunks after with
  | here converted inner =>
      obtain ⟨given, _, convertRun, run⟩ := Build.gives_bind.mp run
      obtain ⟨again, rfl⟩ := Build.gives_ofExcept.mp convertRun
      obtain ⟨within, _, nestedRun, run⟩ := Build.gives_bind.mp run
      obtain ⟨nested, rfl⟩ := Build.gives_ofExcept.mp nestedRun
      obtain ⟨more, left, insertRun, _⟩ := Build.gives_bind.mp run
      cases converted.symm.trans again
      cases inner.symm.trans nested
      exact Or.inr ⟨session, more, left, rfl, insertRun⟩
  | inside applies _ =>
      obtain ⟨_, _, _, run⟩ := Build.gives_bind.mp run
      obtain ⟨_, _, nestedRun, _⟩ := Build.gives_bind.mp run
      exact Or.inl (applies.exists_literal (Build.gives_ofExcept.mp nestedRun).1)
  | after _ ih =>
      obtain ⟨given, _, convertRun, run⟩ := Build.gives_bind.mp run
      obtain ⟨_, rfl⟩ := Build.gives_ofExcept.mp convertRun
      obtain ⟨_, _, nestedRun, run⟩ := Build.gives_bind.mp run
      obtain ⟨_, rfl⟩ := Build.gives_ofExcept.mp nestedRun
      obtain ⟨_, _, insertRun, run⟩ := Build.gives_bind.mp run
      obtain ⟨emits, rfl, _⟩ := (Build.compositional_remarking.inserted remarking given
        _).gives_hearing [] insertRun
      obtain ⟨_, _, later, _⟩ := Build.gives_bind.mp run
      -- The session that has heard the warnings of an insertion is one of the same design.
      have found := ih later
      exact found
  | afterText _ ih =>
      obtain ⟨_, _, later, _⟩ := Build.gives_bind.mp run
      exact ih later

end

namespace Subject.Of

variable {design : Design} {session after : Session} {argument : Arg Insert} {subject : Subject}
  {specifier : String}

theorem judge_of_literal {insertion : Insertion Insert} {literal : String}
    (subjected : Subject.Of design argument subject)
    (rendered : argument.literal insertion specifier = .ok literal) :
    subject.judge specifier = .ok () := by
  cases subjected with
  | int number => exact map_eq_ok.mpr ⟨literal, rendered, rfl⟩
  | text content => exact map_eq_ok.mpr ⟨literal, rendered, rfl⟩
  | value tree => cases rendered
  | operand => cases rendered

theorem judge_of_inserted {chunks : List Chunk}
    (subjected : Subject.Of session.design argument subject)
    (run : Build.Gives (inserted (insertion design) argument specifier) session chunks after) :
    subject.judge specifier = .ok () := by
  cases subjected with
  | int number =>
      obtain ⟨literal, _, literalRun, _⟩ := Build.gives_bind.mp run
      exact map_eq_ok.mpr ⟨literal, (Build.gives_ofExcept.mp literalRun).1, rfl⟩
  | text content =>
      obtain ⟨literal, _, literalRun, _⟩ := Build.gives_bind.mp run
      exact map_eq_ok.mpr ⟨literal, (Build.gives_ofExcept.mp literalRun).1, rfl⟩
  | value tree =>
      obtain ⟨_, _, checkRun, _⟩ := Build.gives_bind.mp run
      exact (Build.gives_ofExcept.mp checkRun).1
  | @operand operand spec value shaped plain cast =>
      obtain ⟨_, _, designRun, run⟩ := Build.gives_bind.mp run
      obtain ⟨rfl, rfl⟩ := Build.gives_design.mp designRun
      obtain ⟨_, _, shapeRun, run⟩ := Build.gives_bind.mp run
      obtain ⟨found, rfl⟩ := Build.gives_ofExcept.mp shapeRun
      cases shaped.symm.trans found
      split at run
      · exact absurd rfl (plain _)
      · obtain ⟨given, _, castRun, run⟩ := Build.gives_bind.mp run
        obtain ⟨again, rfl⟩ := Build.gives_cast.mp castRun
        cases cast.symm.trans again
        obtain ⟨_, _, checkRun, _⟩ := Build.gives_bind.mp run
        exact (Build.gives_ofExcept.mp checkRun).1

theorem judge_of_gives {template : String} {arguments : Arguments Insert} {format : Format}
    {reading : Reading Insert} (subjected : Subject.Of session.design argument subject)
    (ofTemplate : Reading.Of template reading) (placed : Placed arguments reading.fields)
    (applies : reading.Applies (insertion session.design) argument specifier)
    (run : Build.Gives (compile template arguments) session format after) :
    subject.judge specifier = .ok () := by
  obtain ⟨other, again, otherPlaced, _, given⟩ := gives_compile.mp run
  have fields : reading.fields = other.fields :=
    placed.fields_eq otherPlaced (ofTemplate.names_eq again)
  cases ofTemplate.eq_of_fields_eq again fields
  obtain ⟨_, _, chunksRun, _⟩ := Build.gives_bind.mp given
  have found := applies.exists_inserted
    (fun object specifier => Build.compositional_remarking.insertChunks object specifier) chunksRun
  -- It stands inside a specifier, where it is rendered as text, or it is inserted on its own.
  rcases found with ⟨_, rendered⟩ | ⟨between, _, _, kept, insertRun⟩
  · exact subjected.judge_of_literal rendered
  · exact judge_of_inserted (kept ▸ subjected) insertRun

end Subject.Of

/-! ## A specifier from an argument -/

theorem stringText_empty (content : String) : stringText content "" = .ok content := by
  have plain : stringText content "" = .ok (pad "" content ' ' '<' none) := rfl
  rw [plain]
  simp [pad, Text.fill]

theorem Subject.Of.exists_inserted {session : Session} {argument : Arg Insert} {subject : Subject}
    {specifier : String} (subjected : Subject.Of session.design argument subject)
    (accepted : subject.judge specifier = .ok ()) :
    ∃ chunks, Build.Gives (inserted (insertion session.design) argument specifier) session chunks
      session := by
  cases subjected with
  | int number =>
      obtain ⟨literal, rendered, _⟩ := map_eq_ok.mp accepted
      exact ⟨_, Build.gives_bind.mpr
        ⟨literal, session, Build.gives_ofExcept.mpr ⟨rendered, rfl⟩, rfl⟩⟩
  | text content =>
      obtain ⟨literal, rendered, _⟩ := map_eq_ok.mp accepted
      exact ⟨_, Build.gives_bind.mpr
        ⟨literal, session, Build.gives_ofExcept.mpr ⟨rendered, rfl⟩, rfl⟩⟩
  | value tree =>
      exact ⟨_, Build.gives_bind.mpr ⟨(), session, Build.gives_ofExcept.mpr ⟨accepted, rfl⟩, rfl⟩⟩
  | @operand operand spec value shaped plain cast =>
      refine ⟨[.argument value specifier], Build.gives_bind.mpr
        ⟨_, session, Build.gives_design.mpr ⟨rfl, rfl⟩, Build.gives_bind.mpr
          ⟨spec, session, Build.gives_ofExcept.mpr ⟨shaped, rfl⟩, ?_⟩⟩⟩
      split
      · exact absurd rfl (plain _)
      · exact Build.gives_bind.mpr ⟨value, session, Build.gives_cast.mpr ⟨cast, rfl⟩,
          Build.gives_bind.mpr ⟨(), session, Build.gives_ofExcept.mpr ⟨accepted, rfl⟩, rfl⟩⟩

def borrowed (specifier : String) : Reading Insert :=
  .text "" (.field ⟨"", .positional 1, .text specifier⟩ none (.text "" .done) (.text "" .done))

def specified (argument : Arg Insert) (specifier : String) : Reading Insert :=
  .text "" (.field ⟨"", .positional 0, argument⟩ none (borrowed specifier) (.text "" .done))

section

variable {argument : Arg Insert} {specifier : String}

theorem of_specified : Reading.Of "\x7b:\x7b\x7d\x7d" (specified argument specifier) :=
  let first : Field Insert := ⟨"", .positional 0, argument⟩
  let second : Field Insert := ⟨"", .positional 1, .text specifier⟩
  have inner : Reading.OfPieces [.text "", .field second.name none "", .text ""]
      (borrowed specifier) := .text (.field rfl (.text .done) (.text .done))
  have outer : Reading.OfPieces [.text "", .field first.name none "\x7b\x7d", .text ""]
      (specified argument specifier) := .text (.field rfl inner (.text .done))
  ⟨_, rfl, outer⟩

theorem mem_fields_specified {field : Field Insert} :
    field ∈ (specified argument specifier).fields ↔
      field = ⟨"", .positional 0, argument⟩ ∨ field = ⟨"", .positional 1, .text specifier⟩ := by
  simp [specified, borrowed, Reading.fields]

theorem placed_specified :
    Placed { positional := [argument, .text specifier] } (specified argument specifier).fields := by
  have style {field : Field Insert} (listed : field ∈ (specified argument specifier).fields) :
      field.style = .automatic := by
    rcases mem_fields_specified.mp listed with rfl | rfl <;> rfl
  refine ⟨⟨fun field listed => ⟨?stored, fun numbered => ?numbered, fun named => ?named⟩, rfl⟩,
    fun ⟨_, field, listed, numbered⟩ => ?unmixed⟩
  case stored => rcases mem_fields_specified.mp listed with rfl | rfl <;> rfl
  case numbered => exact absurd ((style listed).symm.trans numbered) (by decide)
  case named => exact absurd ((style listed).symm.trans named) (by decide)
  case unmixed => exact absurd ((style listed).symm.trans numbered) (by decide)

theorem covers_specified :
    Covers { positional := [argument, .text specifier] } (specified argument specifier).fields where
  positional index inside := by
    match index, inside with
    | 0, _ => exact ⟨_, mem_fields_specified.mpr (Or.inl rfl), rfl⟩
    | 1, _ => exact ⟨_, mem_fields_specified.mpr (Or.inr rfl), rfl⟩
  named _ inside := absurd inside (Nat.not_lt_zero _)

theorem literal_borrowed {insertion : Insertion Insert} :
    (borrowed specifier).literal insertion = .ok specifier := by
  have rendered : Arg.literal insertion (.text specifier) "" = .ok specifier :=
    stringText_empty specifier
  simp [borrowed, Reading.literal, Arg.convert, rendered, bind, Except.bind, pure, Except.pure]

theorem applies_specified {insertion : Insertion Insert} :
    (specified argument specifier).Applies insertion argument specifier :=
  .afterText (.here rfl literal_borrowed)

theorem gives_format_specified {insertion : Insertion Insert} {session : Session}
    {chunks : List Chunk}
    (run : Build.Gives (inserted insertion argument specifier) session chunks session) :
    Build.Gives ((specified argument specifier).format insertion) session
      (ofChunks (.text "" :: (chunks ++ [.text ""]))) session := by
  have last : Build.Gives ((Reading.text "" .done : Reading Insert).chunks insertion) session
      [.text ""] session := rfl
  have field : Build.Gives ((Reading.field ⟨"", .positional 0, argument⟩ none (borrowed specifier)
      (.text "" .done)).chunks insertion) session (chunks ++ [.text ""]) session :=
    Build.gives_bind.mpr ⟨argument, session, Build.gives_ofExcept.mpr ⟨rfl, rfl⟩,
      Build.gives_bind.mpr ⟨specifier, session, Build.gives_ofExcept.mpr ⟨literal_borrowed, rfl⟩,
        Build.gives_bind.mpr ⟨chunks, session, run,
          Build.gives_bind.mpr ⟨[.text ""], session, last, rfl⟩⟩⟩⟩
  have all : Build.Gives ((specified argument specifier).chunks insertion) session
      (.text "" :: (chunks ++ [.text ""])) session :=
    Build.gives_bind.mpr ⟨chunks ++ [Chunk.text ""], session, field, rfl⟩
  exact Build.gives_bind.mpr ⟨_, session, all, rfl⟩

end

/-- A template whose field takes its specifier from an argument is refused exactly if the subject of
the field refuses the specifier. -/
theorem Subject.Of.compile_fails_iff {session : Session} {argument : Arg Insert}
    {subject : Subject} {specifier : String}
    (subjected : Subject.Of session.design argument subject) :
    (∃ fault, (Build.runIn session (compile "\x7b:\x7b\x7d\x7d"
        { positional := [argument, .text specifier] })).1 = .error fault) ↔
      subject.Refuses specifier := by
  rw [Build.fails_iff]
  constructor
  · intro fails
    by_contra passes
    obtain ⟨chunks, run⟩ := subjected.exists_inserted (judge_eq_ok_iff.mpr passes)
    exact fails _ session (gives_compile.mpr ⟨_, of_specified, placed_specified, covers_specified,
      gives_format_specified run⟩)
  · intro refuses result after run
    exact judge_eq_ok_iff.mp (subjected.judge_of_gives of_specified placed_specified
      applies_specified run) refuses

end Format

end Gateware
