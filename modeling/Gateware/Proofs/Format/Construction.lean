import Gateware.Format.Insert
import Gateware.Proofs.Session

/-!
# Constructed formats

Formats are made of text, by putting formats one after the other, by compiling a template, and
by compiling a printer.  In every format that is made so the texts are merged, and each specifier
is one in which its value can be printed.
-/

set_option autoImplicit false

namespace Gateware

namespace Printer

/-- Every format that the printer holds is in the family. -/
inductive Holds (family : Format → Prop) : Printer → Prop
  | format {compiled : Format} (made : family compiled) : Holds family (.format compiled)
  | labels {value : Value} {variants : List (Int × String)} {name : Option String} :
      Holds family (.labels value variants name)
  | fields {value : Value} {named : List (String × Printer)}
      (below : ∀ field ∈ named, Holds family field.2) : Holds family (.fields value named)
  | elements {value : Value} {printers : List Printer}
      (below : ∀ printer ∈ printers, Holds family printer) :
      Holds family (.elements value printers)

theorem Holds.imp {family other : Format → Prop} {printer : Printer}
    (weaken : ∀ format, family format → other format) (holds : printer.Holds family) :
    printer.Holds other := by
  induction holds with
  | format made => exact .format (weaken _ made)
  | labels => exact .labels
  | fields _ ih => exact .fields ih
  | elements _ ih => exact .elements ih

end Printer

namespace Format

/-! ## Merged chunks -/

namespace Chunk

/-- No text is empty, and no text stands beside another. -/
def Apart : List Chunk → Prop
  | [] => True
  | .argument _ _ :: rest => Apart rest
  | .text content :: rest =>
      content ≠ "" ∧ (∀ next, rest.head? ≠ some (.text next)) ∧ Apart rest

theorem apart_merge (chunks : List Chunk) : Apart (merge chunks) := by
  induction chunks with
  | nil => trivial
  | cons chunk rest ih =>
      cases chunk with
      | argument value specifier => exact ih
      | text content =>
          rw [merge]
          split
          · exact ih
          · rename_i full
            split
            · rename_i next others merged
              rw [merged] at ih
              obtain ⟨-, alone, apart⟩ := ih
              refine ⟨fun empty => full ?_, alone, apart⟩
              rw [(String.append_eq_empty_iff.mp empty).1]
              rfl
            · rename_i others single
              refine ⟨fun empty => full (by rw [empty]; rfl), ?_, ih⟩
              intro next first
              obtain ⟨tail, merged⟩ := List.head?_eq_some_iff.mp first
              exact single next tail merged

theorem merge_of_apart {chunks : List Chunk} (apart : Apart chunks) : merge chunks = chunks := by
  induction chunks with
  | nil => rfl
  | cons chunk rest ih =>
      cases chunk with
      | argument value specifier => rw [merge, ih apart]
      | text content =>
          obtain ⟨full, alone, apart⟩ := apart
          rw [merge, ih apart, if_neg (mt String.isEmpty_iff.mp full)]
          cases rest with
          | nil => rfl
          | cons next others =>
              cases next with
              | argument value specifier => rfl
              | text next => exact absurd rfl (alone next)

theorem mem_merge {value : Value} {specifier : String} {chunks : List Chunk} :
    .argument value specifier ∈ merge chunks ↔ .argument value specifier ∈ chunks := by
  induction chunks with
  | nil => rfl
  | cons chunk rest ih =>
      cases chunk with
      | argument other otherSpecifier => simp [merge, ih]
      | text content =>
          rw [merge]
          split
          · simp [ih]
          · split
            · rename_i next others merged
              rw [merged] at ih
              simpa using ih
            · simp [ih]

end Chunk

/-- Every value has a specifier in which it can be printed. -/
def Checked (chunks : List Chunk) : Prop :=
  ∀ value specifier, .argument value specifier ∈ chunks →
    Specifier.checkValue specifier value.shape = .ok ()

theorem Checked.append {left right : List Chunk} (leftChecked : Checked left)
    (rightChecked : Checked right) : Checked (left ++ right) :=
  fun value specifier listed => (List.mem_append.mp listed).elim (leftChecked value specifier)
    (rightChecked value specifier)

theorem checked_text (content : String) : Checked [.text content] := by
  simp [Checked]

theorem checked_argument {value : Value} {specifier : String}
    (printable : Specifier.checkValue specifier value.shape = .ok ()) :
    Checked [.argument value specifier] := by
  intro other otherSpecifier listed
  cases List.mem_singleton.mp listed
  exact printable

/-- A format with its texts merged and its specifiers checked. -/
structure Settled (format : Format) : Prop where
  apart : Chunk.Apart format.chunks
  checked : Checked format.chunks

theorem settled_ofChunks {chunks : List Chunk} (checked : Checked chunks) :
    (ofChunks chunks).Settled :=
  ⟨Chunk.apart_merge chunks,
    fun value specifier listed => checked value specifier (Chunk.mem_merge.mp listed)⟩

/-! ## Ways to make a format -/

def Arguments.all {Object : Type} (arguments : Arguments Object) : List (Arg Object) :=
  arguments.positional ++ arguments.named.map Prod.snd

section Ways

variable (family : Format → Prop)

/-- What an object is inserted as: a format of the family, or one value with a specifier in which
it can be printed. -/
def Inserts (chunks : List Chunk) : Prop :=
  (∃ format, family format ∧ chunks = format.chunks) ∨
    ∃ value : Value, ∃ specifier, Specifier.checkValue specifier value.shape = .ok () ∧
      chunks = [.argument value specifier]

/-- A family of formats that every way to make a format stays in.  The objects that a template
takes may be of any type, as long as what they are inserted as was made so too. -/
structure Construction : Prop where
  ofText (text : String) : family (.ofText text)
  append {left right : Format} (leftMade : family left) (rightMade : family right) :
    family (left ++ right)
  compile {Object : Type} {insertion : Insertion Object} {arguments : Arguments Object}
    {template : String} {session after : Session} {format : Format}
    (objects : ∀ object, .object object ∈ arguments.all →
      ∀ specifier session chunks after,
        Build.Gives (insertion.chunks object specifier) session chunks after →
        Inserts family chunks)
    (run : Build.Gives (compileWith insertion arguments template) session format after) :
    family format
  printer {printer : Printer} {session after : Session} {format : Format}
    (holds : printer.Holds family) (run : Build.Gives printer.compile session format after) :
    family format

end Ways

def Constructed (format : Format) : Prop := ∀ family, Construction family → family format

variable {family other : Format → Prop}

theorem Inserts.imp {chunks : List Chunk} (weaken : ∀ format, family format → other format)
    (inserts : Inserts family chunks) : Inserts other chunks :=
  inserts.imp_left fun ⟨format, made, same⟩ => ⟨format, weaken format made, same⟩

theorem construction_constructed : Construction Constructed where
  ofText text _ construction := construction.ofText text
  append left right family construction :=
    construction.append (left family construction) (right family construction)
  compile objects run family construction :=
    construction.compile
      (fun object listed specifier session chunks after inserted =>
        (objects object listed specifier session chunks after inserted).imp
          fun _ made => made family construction) run
  printer holds run family construction :=
    construction.printer (holds.imp fun _ made => made family construction) run

/-! ## What every format is -/

section Compiled

variable {Object : Type} {insertion : Insertion Object} {arguments : Arguments Object}

theorem mem_all_of_takeNumber {binding next : Binding} {index : Nat} {argument : Arg Object}
    (taken : binding.takeNumber arguments index = .ok (argument, next)) :
    argument ∈ arguments.all := by
  unfold Binding.takeNumber at taken
  split at taken
  · rename_i found stored
    cases taken
    exact List.mem_append_left _ (List.mem_of_getElem? stored)
  · cases taken

theorem mem_all_of_take {binding next : Binding} {name : String} {argument : Arg Object}
    (taken : binding.take arguments name = .ok (argument, next)) : argument ∈ arguments.all := by
  unfold Binding.take at taken
  split at taken
  · split at taken
    · cases taken
    · exact mem_all_of_takeNumber taken
  · split at taken
    · split at taken
      · cases taken
      · split at taken
        · cases taken
        · exact mem_all_of_takeNumber taken
    · split at taken
      · cases taken
      · split at taken
        · cases taken
        · rename_i found stored
          cases taken
          exact List.mem_append_right _ (List.mem_map_of_mem (List.mem_of_getElem? stored))

theorem eq_of_convert {argument : Arg Object} {conversion : Option Char} {object : Object}
    (converted : argument.convert insertion conversion = .ok (.object object)) :
    argument = .object object := by
  unfold Arg.convert at converted
  split at converted
  · cases converted
    rfl
  · obtain ⟨_, _, same⟩ := map_eq_ok.mp converted
    cases same
  · cases converted
  · split at converted <;> cases converted
  · split at converted <;> cases converted
  · cases converted

theorem checked_compilePiece {binding next : Binding} {piece : Piece} {session after : Session}
    {chunks : List Chunk}
    (objects : ∀ object, .object object ∈ arguments.all →
      ∀ specifier session chunks after,
        Build.Gives (insertion.chunks object specifier) session chunks after → Checked chunks)
    (run : Build.Gives (compilePiece insertion arguments binding piece) session (chunks, next)
      after) : Checked chunks := by
  cases piece with
  | text content =>
      cases (Build.gives_pure.mp run).1
      exact checked_text content
  | field name conversion specifier =>
      rw [compilePiece] at run
      obtain ⟨⟨argument, taken⟩, _, takenRun, run⟩ := Build.gives_bind.mp run
      obtain ⟨converted, _, convertRun, run⟩ := Build.gives_bind.mp run
      obtain ⟨⟨text, filled⟩, _, _, run⟩ := Build.gives_bind.mp run
      cases converted with
      | value tree =>
          obtain ⟨_, _, checkRun, run⟩ := Build.gives_bind.mp run
          cases (Build.gives_pure.mp run).1
          exact checked_argument (Build.gives_ofExcept.mp checkRun).1
      | object inserted =>
          obtain ⟨made, _, insertRun, run⟩ := Build.gives_bind.mp run
          cases (Build.gives_pure.mp run).1
          have taken := (Build.gives_ofExcept.mp takenRun).1
          cases eq_of_convert (Build.gives_ofExcept.mp convertRun).1
          exact objects inserted (mem_all_of_take taken) _ _ _ _ insertRun
      | int number =>
          obtain ⟨text, _, _, run⟩ := Build.gives_bind.mp run
          cases (Build.gives_pure.mp run).1
          exact checked_text text
      | text content =>
          obtain ⟨text, _, _, run⟩ := Build.gives_bind.mp run
          cases (Build.gives_pure.mp run).1
          exact checked_text text

theorem settled_compileWith {template : String} {session after : Session} {format : Format}
    (objects : ∀ object, .object object ∈ arguments.all →
      ∀ specifier session chunks after,
        Build.Gives (insertion.chunks object specifier) session chunks after → Checked chunks)
    (run : Build.Gives (compileWith insertion arguments template) session format after) :
    format.Settled := by
  rw [compileWith] at run
  obtain ⟨pieces, _, _, run⟩ := Build.gives_bind.mp run
  obtain ⟨⟨chunks, binding⟩, _, foldRun, run⟩ := Build.gives_bind.mp run
  obtain ⟨_, _, _, run⟩ := Build.gives_bind.mp run
  cases (Build.gives_pure.mp run).1
  apply settled_ofChunks
  refine foldRun.foldlM (fun state => Checked state.1) (by simp [Checked]) ?_
  rintro piece - ⟨before, binding⟩ ⟨after, next⟩ _ _ checked pieceRun
  obtain ⟨⟨more, _⟩, _, compiled, pieceRun⟩ := Build.gives_bind.mp pieceRun
  cases (Build.gives_pure.mp pieceRun).1
  exact checked.append (checked_compilePiece objects compiled)

end Compiled

/-! ## Printers -/

theorem checked_fieldChunks {separator : String} {named : List (String × Printer)}
    {session after : Session} {chunks : List Chunk}
    (below : ∀ field ∈ named, ∀ session format after,
      Build.Gives field.2.compile session format after → format.Settled)
    (run : Build.Gives (Printer.fieldChunks separator named) session chunks after) :
    Checked chunks := by
  induction named generalizing separator session after chunks with
  | nil =>
      cases (Build.gives_pure.mp run).1
      simp [Checked]
  | cons field rest ih =>
      obtain ⟨name, printer⟩ := field
      rw [Printer.fieldChunks] at run
      obtain ⟨format, _, printerRun, run⟩ := Build.gives_bind.mp run
      obtain ⟨others, _, restRun, run⟩ := Build.gives_bind.mp run
      cases (Build.gives_pure.mp run).1
      have here := (below _ List.mem_cons_self _ _ _ printerRun).checked
      have later := ih (fun field listed => below field (List.mem_cons_of_mem _ listed)) restRun
      exact (checked_text _).append (here.append later)

theorem checked_elementChunks {separator : String} {printers : List Printer}
    {session after : Session} {chunks : List Chunk}
    (below : ∀ printer ∈ printers, ∀ session format after,
      Build.Gives printer.compile session format after → format.Settled)
    (run : Build.Gives (Printer.elementChunks separator printers) session chunks after) :
    Checked chunks := by
  induction printers generalizing separator session after chunks with
  | nil =>
      cases (Build.gives_pure.mp run).1
      simp [Checked]
  | cons printer rest ih =>
      rw [Printer.elementChunks] at run
      obtain ⟨format, _, printerRun, run⟩ := Build.gives_bind.mp run
      obtain ⟨others, _, restRun, run⟩ := Build.gives_bind.mp run
      cases (Build.gives_pure.mp run).1
      have here := (below _ List.mem_cons_self _ _ _ printerRun).checked
      have later := ih (fun item listed => below item (List.mem_cons_of_mem _ listed)) restRun
      exact (checked_text _).append (here.append later)

theorem settled_ofValues {template : String} {values : List Value} {session after : Session}
    {format : Format} (run : Build.Gives (ofValues template values) session format after) :
    format.Settled :=
  settled_compileWith (fun object => nomatch object) run

theorem settled_printer {printer : Printer} {session after : Session} {format : Format}
    (holds : printer.Holds Settled) (run : Build.Gives printer.compile session format after) :
    format.Settled := by
  induction holds generalizing session format after with
  | format made =>
      cases (Build.gives_pure.mp run).1
      exact made
  | labels =>
      rw [Printer.compile, Printer.labelFormat] at run
      obtain ⟨_, _, _, run⟩ := Build.gives_bind.mp run
      exact settled_ofValues run
  | fields _ ih =>
      rw [Printer.compile] at run
      obtain ⟨chunks, _, chunksRun, run⟩ := Build.gives_bind.mp run
      cases (Build.gives_pure.mp run).1
      have inner := checked_fieldChunks (fun field listed _ _ _ => ih field listed) chunksRun
      exact settled_ofChunks ((checked_text _).append (inner.append (checked_text _)))
  | elements _ ih =>
      rw [Printer.compile] at run
      obtain ⟨chunks, _, chunksRun, run⟩ := Build.gives_bind.mp run
      cases (Build.gives_pure.mp run).1
      have inner := checked_elementChunks (fun item listed _ _ _ => ih item listed) chunksRun
      exact settled_ofChunks ((checked_text _).append (inner.append (checked_text _)))

theorem Inserts.checked {chunks : List Chunk} (inserts : Inserts Settled chunks) :
    Checked chunks := by
  obtain ⟨format, settled, rfl⟩ | ⟨value, specifier, printable, rfl⟩ := inserts
  · exact settled.checked
  · exact checked_argument printable

theorem construction_settled : Construction Settled where
  ofText text := settled_ofChunks (checked_text text)
  append left right := settled_ofChunks (left.checked.append right.checked)
  compile objects run :=
    settled_compileWith (fun object listed specifier session chunks after inserted =>
      (objects object listed specifier session chunks after inserted).checked) run
  printer holds run := settled_printer holds run

theorem Constructed.settled {format : Format} (constructed : format.Constructed) :
    format.Settled :=
  constructed Settled construction_settled

/-! ## Templates of a design -/

def Arguments.Hold (family : Format → Prop) (arguments : Arguments Insert) : Prop :=
  ∀ printer, .object (.printer printer) ∈ arguments.all → printer.Holds family

theorem constructed_ofValues {template : String} {values : List Value} {session after : Session}
    {format : Format} (run : Build.Gives (ofValues template values) session format after) :
    format.Constructed :=
  construction_constructed.compile (fun object => nomatch object) run

theorem constructed_ofCustomShape {shape : Custom} {operand : Operand} {specifier : String}
    {session after : Session} {format : Format}
    (run : Build.Gives (ofCustomShape shape operand specifier) session format after) :
    format.Constructed := by
  obtain ⟨design, _, _, run⟩ := Build.gives_bind.mp run
  split at run
  · exact absurd run Build.gives_throw
  · obtain ⟨_, _, _, run⟩ := Build.gives_bind.mp run
    obtain ⟨_, _, _, run⟩ := Build.gives_bind.mp run
    exact constructed_ofValues run

theorem inserts_insertChunks {object : Insert} {specifier : String} {session after : Session}
    {chunks : List Chunk}
    (holds : ∀ printer, object = .printer printer → printer.Holds Constructed)
    (run : Build.Gives (insertChunks object specifier) session chunks after) :
    Inserts Constructed chunks := by
  cases object with
  | printer inserted =>
      rw [insertChunks] at run
      dsimp only at run
      split at run
      · obtain ⟨_, _, thrown, _⟩ := Build.gives_bind.mp run
        exact absurd thrown Build.gives_throw
      · obtain ⟨format, _, printerRun, run⟩ := Build.gives_bind.mp run
        cases (Build.gives_pure.mp run).1
        have made := construction_constructed.printer (holds inserted rfl) printerRun
        exact Or.inl ⟨format, made, rfl⟩
  | operand inserted =>
      rw [insertChunks] at run
      obtain ⟨design, _, _, run⟩ := Build.gives_bind.mp run
      obtain ⟨spec, _, _, run⟩ := Build.gives_bind.mp run
      split at run
      · obtain ⟨format, _, shapeRun, run⟩ := Build.gives_bind.mp run
        cases (Build.gives_pure.mp run).1
        exact Or.inl ⟨format, constructed_ofCustomShape shapeRun, rfl⟩
      · obtain ⟨value, _, _, run⟩ := Build.gives_bind.mp run
        obtain ⟨_, _, checkRun, run⟩ := Build.gives_bind.mp run
        cases (Build.gives_pure.mp run).1
        exact Or.inr ⟨value, specifier, (Build.gives_ofExcept.mp checkRun).1, rfl⟩

theorem constructed_compile {template : String} {arguments : Arguments Insert}
    {session after : Session} {format : Format} (hold : arguments.Hold Constructed)
    (run : Build.Gives (compile template arguments) session format after) :
    format.Constructed := by
  obtain ⟨design, _, _, run⟩ := Build.gives_bind.mp run
  refine construction_constructed.compile (fun object listed _ _ _ _ inserted => ?_) run
  exact inserts_insertChunks (fun printer same => hold printer (same ▸ listed)) inserted

end Format

end Gateware
