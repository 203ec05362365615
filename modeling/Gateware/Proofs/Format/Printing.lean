import Gateware.Proofs.Diagnostic.Compositional
import Gateware.Proofs.Format.Filling
import Gateware.Proofs.Format.Joining
import Gateware.Statement

/-!
# Printed messages

A message is printed by way of a template, in which its texts are escaped and everything else
stands as a field.  The template is read back piece by piece, its fields take the arguments in
their order, and the format of the message is that of its parts, one after the other.
-/

set_option autoImplicit false

namespace Gateware

open Build

namespace Format

variable {Object : Type} (insertion : Insertion Object)

def Arg.isText : Arg Object → Bool
  | .text _ => true
  | _ => false

/-- What is printed of an item of a message: a text as it is, anything else without a specifier. -/
def printed : Arg Object → Build (List Chunk)
  | .text content => pure [.text content]
  | other => inserted insertion other ""

/-- How an item of a message is written in a template. -/
def slot : Arg Object → String
  | .text content => Template.escape content
  | _ => "\x7b\x7d"

def slotChunk : Arg Object → Chunk
  | .text content => .text content
  | _ => .argument .initial ""

theorem template_slotChunk (item : Arg Object) : (slotChunk item).template = slot item := by
  cases item <;> rfl

theorem read_slots (items : List (Arg Object)) :
    Template.read (String.join (items.map slot)) =
      .ok ((Template.spread "" (items.map slotChunk)).map Template.piece) := by
  have written : String.join (items.map slot) = template ⟨items.map slotChunk⟩ := by
    rw [template, List.map_map]
    congr 2
    funext item
    exact (template_slotChunk item).symm
  rw [written, Template.read_template]
  intro value specifier listed
  obtain ⟨item, _, same⟩ := List.mem_map.mp listed
  have empty : specifier = "" := by
    cases item <;> cases same <;> rfl
  rw [empty]
  exact ⟨by decide, by decide⟩

theorem exists_of_isText {item : Arg Object} (text : item.isText = true) :
    ∃ content, item = .text content := by
  cases item with
  | text content => exact ⟨content, rfl⟩
  | _ => cases text

theorem slotChunk_of_not_text {item : Arg Object} (notText : ¬ item.isText = true) :
    slotChunk item = .argument .initial "" := by
  cases item with
  | text content => exact absurd rfl notText
  | _ => rfl

theorem printed_of_not_text {item : Arg Object} (notText : ¬ item.isText = true) :
    printed insertion item = inserted insertion item "" := by
  cases item with
  | text content => exact absurd rfl notText
  | _ => rfl

/-! ## Compiling slots -/

def close (arguments : Arguments Object) (state : List Chunk × Binding) : Build Format := do
  Build.ofExcept (state.2.finish arguments)
  return ofChunks state.1

theorem compileWith_eq_close (arguments : Arguments Object) (template : String) :
    compileWith insertion arguments template = (do
      let pieces ← Build.ofExcept (Template.read template)
      pieces.foldlM (compileNext insertion arguments) ([], {}) >>= close arguments) :=
  rfl

theorem compileNext_text (arguments : Arguments Object) (made : List Chunk) (binding : Binding)
    (content : String) :
    compileNext insertion arguments (made, binding) (.text content) =
      pure (made ++ [.text content], binding) :=
  rfl

theorem compileNext_next {arguments : Arguments Object} {made : List Chunk} {count : Nat}
    {argument : Arg Object} (stored : arguments.positional[count]? = some argument) :
    compileNext insertion arguments (made, taken count) (.field "" none "") =
      inserted insertion argument "" >>= fun here => pure (made ++ here, taken (count + 1)) := by
  have empty : specifierText insertion arguments (taken (count + 1)) "" =
      .ok ("", taken (count + 1)) :=
    specifierText_braceless ⟨by decide, by decide⟩
  rw [compileNext, compilePiece_field, take_next stored]
  simp only [Build.ofExcept, Arg.convert, pure_bind, empty, bind_assoc]

theorem ofChunks_split (made : List Chunk) (before content : String) (rest : List Chunk) :
    ofChunks (made ++ .text (before ++ content) :: rest) =
      ofChunks (made ++ .text before :: .text content :: rest) := by
  rw [ofChunks, ofChunks, ← Chunk.merge_append_merge, Template.merge_text_text,
    Chunk.merge_append_merge]

theorem ofChunks_empty (made rest : List Chunk) :
    ofChunks (made ++ .text "" :: rest) = ofChunks (made ++ rest) := by
  have dropped : Chunk.merge (.text "" :: rest) = Chunk.merge rest := rfl
  rw [ofChunks, ofChunks, ← Chunk.merge_append_merge, dropped, Chunk.merge_append_merge]

/-- The pieces between the slots are their texts, and each slot that is a field takes the argument
that stands there. -/
theorem foldlM_slots {positional : List (Arg Object)} {items earlier : List (Arg Object)}
    (all : earlier ++ items.filter (fun item => !item.isText) = positional) (made : List Chunk)
    (before : String) :
    (((Template.spread before (items.map slotChunk)).map Template.piece).foldlM
        (compileNext insertion { positional }) (made, taken earlier.length) >>=
          close { positional }) =
      items.mapM (printed insertion) >>= fun parts =>
        pure (ofChunks (made ++ .text before :: parts.flatten)) := by
  induction items generalizing earlier made before with
  | nil =>
      rw [List.filter_nil, List.append_nil] at all
      subst all
      simp only [List.map_nil, Template.spread, List.map_cons, Template.piece, List.foldlM_cons,
        compileNext_text, pure_bind, List.foldlM_nil, close, finish_taken, Build.ofExcept,
        List.mapM_nil, List.flatten_nil]
  | cons item items ih =>
      by_cases text : item.isText = true
      · obtain ⟨content, rfl⟩ := exists_of_isText text
        rw [List.mapM_cons, printed, List.map_cons, slotChunk, Template.spread, ih all]
        simp only [pure_bind, bind_assoc, List.flatten_cons, List.singleton_append,
          ofChunks_split]
      · have kept : (item :: items).filter (fun item => !item.isText) =
            item :: items.filter fun item => !item.isText := by
          rw [List.filter_cons_of_pos (by simpa using text)]
        rw [kept, List.append_cons] at all
        have stored : positional[earlier.length]? = some item := by
          rw [← all]
          simp
        have later := ih all
        rw [List.length_append, List.length_singleton] at later
        rw [List.map_cons, slotChunk_of_not_text text, Template.spread, List.map_cons,
          List.map_cons, Template.piece, Template.piece, List.foldlM_cons, compileNext_text,
          pure_bind, List.foldlM_cons, compileNext_next insertion stored, List.mapM_cons,
          printed_of_not_text insertion text]
        simp only [bind_assoc, pure_bind, later, List.flatten_cons, List.append_assoc,
          List.cons_append, List.nil_append]
        refine bind_congr fun here => bind_congr fun parts => congrArg pure ?_
        have dropped := ofChunks_empty (made ++ .text before :: here) parts.flatten
        rwa [List.append_assoc, List.append_assoc] at dropped

theorem compileWith_slots (items : List (Arg Object)) :
    compileWith insertion { positional := items.filter fun item => !item.isText }
        (String.join (items.map slot)) =
      items.mapM (printed insertion) >>= fun parts => pure (ofChunks parts.flatten) := by
  have all : [] ++ items.filter (fun item => !item.isText) =
      items.filter fun item => !item.isText := List.nil_append _
  have started : taken ([] : List (Arg Object)).length = {} := rfl
  have run := foldlM_slots insertion all [] ""
  rw [started] at run
  rw [compileWith_eq_close, read_slots]
  exact run

end Format

namespace Statement

open Format (Arg Chunk Arguments)

/-- The items of a printed message: the arguments with a separator between neighbours, and the
text at the end. -/
def message (arguments : List (Arg Insert)) (separator finish : String) : List (Arg Insert) :=
  arguments.intersperse (.text separator) ++ [.text finish]

theorem message_cons (argument : Arg Insert) (rest : List (Arg Insert))
    (separator finish : String) :
    message (argument :: rest) separator finish =
      argument :: if rest.isEmpty then message rest separator finish
        else .text separator :: message rest separator finish := by
  cases rest <;> rfl

def withSlot (item : Arg Insert) (rest : String × List (Arg Insert)) :
    String × List (Arg Insert) :=
  (Format.slot item ++ rest.1, if item.isText then rest.2 else item :: rest.2)

theorem printTemplate_cons (argument : Arg Insert) (rest : List (Arg Insert))
    (separator finish : String) :
    printTemplate separator finish (argument :: rest) =
      withSlot argument (if rest.isEmpty then printTemplate separator finish rest
        else withSlot (.text separator) (printTemplate separator finish rest)) := by
  rw [printTemplate]
  cases rest <;> cases argument <;> rfl

def slots (items : List (Arg Insert)) : String × List (Arg Insert) :=
  (String.join (items.map Format.slot), items.filter fun item => !item.isText)

theorem slots_cons (item : Arg Insert) (items : List (Arg Insert)) :
    slots (item :: items) = withSlot item (slots items) := by
  rw [slots, slots, withSlot, List.map_cons, String.join_cons, List.filter_cons]
  cases item.isText <;> rfl

theorem printTemplate_eq (arguments : List (Arg Insert)) (separator finish : String) :
    printTemplate separator finish arguments = slots (message arguments separator finish) := by
  induction arguments with
  | nil => simp [printTemplate, slots, message, Format.slot, Arg.isText]
  | cons argument rest ih =>
      rw [printTemplate_cons, message_cons, slots_cons, ih]
      split
      · rfl
      · rw [slots_cons]

/-! ## The printed message -/

variable {session after : Session} {format : Format} {items : List (Arg Insert)}

/-- What an item of a message is printed as in a session: a text as it is, and anything else as the
format that it compiles to on its own. -/
inductive Prints (session : Session) : Arg Insert → List Chunk → Prop where
  | text (content : String) : Prints session (.text content) [.text content]
  | format {argument : Arg Insert} {format : Format} {after : Session}
      (notText : ∀ content, argument ≠ .text content)
      (run : Gives (Format.compile "\x7b\x7d" { positional := [argument] }) session format after) :
      Prints session argument format.chunks

theorem remarking_printed (design : Design) (item : Arg Insert) :
    Remarking (Format.printed (Format.insertion design) item) := by
  have closed := compositional_remarking
  cases item with
  | text content => exact closed.ends _
  | value tree => exact closed.bind (closed.ofExcept _) fun _ => closed.ends _
  | object inserted => exact closed.insertChunks inserted ""
  | int number => exact closed.bind (closed.ofExcept _) fun _ => closed.ends _

theorem gives_compile_slots :
    Gives (Format.compile (slots items).1 { positional := (slots items).2 }) session format after ↔
      ∃ parts, Gives (items.mapM (Format.printed (Format.insertion session.design))) session parts
          after ∧
        format = Format.ofChunks parts.flatten := by
  rw [Gives, Format.runIn_compile, slots, Format.compileWith_slots]
  constructor
  · intro run
    obtain ⟨parts, _, partsRun, last⟩ := gives_bind.mp run
    obtain ⟨rfl, rfl⟩ := gives_pure.mp last
    exact ⟨parts, partsRun, rfl⟩
  · rintro ⟨parts, partsRun, rfl⟩
    exact gives_bind.mpr ⟨parts, after, partsRun, gives_pure.mpr ⟨rfl, rfl⟩⟩

theorem gives_compile_single {argument : Arg Insert}
    (notText : ∀ content, argument ≠ .text content) :
    Gives (Format.compile "\x7b\x7d" { positional := [argument] }) session format after ↔
      ∃ part, Gives (Format.printed (Format.insertion session.design) argument) session part after ∧
        format = Format.ofChunks part := by
  have single : slots [argument] = ("\x7b\x7d", [argument]) := by
    cases argument with
    | text content => exact absurd rfl (notText content)
    | _ => rfl
  have compiled := @gives_compile_slots session after format [argument]
  rw [single] at compiled
  rw [compiled, List.mapM_cons, List.mapM_nil]
  constructor
  · rintro ⟨parts, run, rfl⟩
    obtain ⟨part, _, partRun, last⟩ := gives_bind.mp run
    obtain ⟨others, _, none, final⟩ := gives_bind.mp last
    obtain ⟨rfl, rfl⟩ := gives_pure.mp none
    obtain ⟨rfl, rfl⟩ := gives_pure.mp final
    exact ⟨part, partRun, by rw [List.flatten_cons, List.flatten_nil, List.append_nil]⟩
  · rintro ⟨part, partRun, rfl⟩
    refine ⟨[part], ?_, by rw [List.flatten_cons, List.flatten_nil, List.append_nil]⟩
    exact gives_bind.mpr ⟨part, after, partRun, rfl⟩

theorem mem_message {arguments : List (Arg Insert)} {separator finish : String}
    {item : Arg Insert} (notText : ∀ content, item ≠ .text content) :
    item ∈ message arguments separator finish ↔ item ∈ arguments := by
  induction arguments with
  | nil => simp [message, notText]
  | cons argument rest ih =>
      rw [message_cons, List.mem_cons, List.mem_cons]
      split
      · rw [ih]
      · rw [List.mem_cons, ih, or_iff_right (notText separator)]

theorem exists_prints {parts : List (List Chunk)}
    (given : List.Forall₂ (fun item part => ∃ left,
      Gives (Format.printed (Format.insertion session.design) item) session part left) items
      parts) :
    ∃ shown, List.Forall₂ (Prints session) items shown ∧
      Format.ofChunks parts.flatten = Format.ofChunks shown.flatten := by
  induction given with
  | nil => exact ⟨[], .nil, rfl⟩
  | @cons item part items parts here _ ih =>
      obtain ⟨shown, prints, same⟩ := ih
      obtain ⟨left, run⟩ := here
      by_cases text : ∃ content, item = .text content
      · obtain ⟨content, rfl⟩ := text
        obtain ⟨rfl, _⟩ := gives_pure.mp run
        refine ⟨[.text content] :: shown, .cons (.text content) prints, ?_⟩
        rw [List.flatten_cons, List.flatten_cons, Format.ofChunks_append, same,
          ← Format.ofChunks_append]
      · have notText : ∀ content, item ≠ .text content := not_exists.mp text
        have compiled := (gives_compile_single notText).mpr ⟨part, run, rfl⟩
        refine ⟨_, .cons (.format notText compiled) prints, ?_⟩
        have merged : Format.ofChunks (Format.ofChunks part).chunks = Format.ofChunks part :=
          congrArg Format.mk Chunk.merge_merge
        rw [List.flatten_cons, List.flatten_cons, Format.ofChunks_append, same,
          Format.ofChunks_append, merged]

theorem gives_printing {arguments : List (Arg Insert)} {separator finish : String}
    {statement : Statement} :
    Gives (printing arguments separator finish) session statement after ↔
      ∃ format, Gives (Format.compile (slots (message arguments separator finish)).1
        { positional := (slots (message arguments separator finish)).2 }) session format after ∧
        statement = .print format := by
  rw [printing, printTemplate_eq]
  constructor
  · intro run
    obtain ⟨format, _, formatRun, last⟩ := gives_bind.mp run
    obtain ⟨rfl, rfl⟩ := gives_pure.mp last
    exact ⟨format, formatRun, rfl⟩
  · rintro ⟨format, formatRun, rfl⟩
    exact gives_bind.mpr ⟨format, after, formatRun, gives_pure.mpr ⟨rfl, rfl⟩⟩

/-- Printing succeeds if and only if every argument that is no text can be printed on its own.  The
message is then made of its items one after the other: the arguments in their order with the
separator between neighbours, and the text at the end; every text stands in it as it is, whatever
braces it has, and every other argument as it is printed on its own. -/
theorem printing_verbatim (arguments : List (Arg Insert)) (separator finish : String)
    (session : Session) :
    ((∃ statement after, Gives (printing arguments separator finish) session statement after) ↔
      ∀ argument ∈ arguments, (∀ content, argument ≠ .text content) → ∃ format after,
        Gives (Format.compile "\x7b\x7d" { positional := [argument] }) session format after) ∧
    ∀ statement after,
      Gives (printing arguments separator finish) session statement after →
        ∃ parts, List.Forall₂ (Prints session)
            (arguments.intersperse (.text separator) ++ [.text finish]) parts ∧
          statement = .print (Format.ofChunks parts.flatten) := by
  have each := remarking_printed session.design
  have all := Remarking.exists_gives_mapM_iff each (message arguments separator finish) session
  constructor
  · constructor
    · rintro ⟨statement, after, run⟩ argument listed notText
      obtain ⟨format, formatRun, _⟩ := gives_printing.mp run
      obtain ⟨parts, partsRun, _⟩ := gives_compile_slots.mp formatRun
      obtain ⟨part, left, partRun⟩ :=
        all.mp ⟨parts, after, partsRun⟩ argument ((mem_message notText).mpr listed)
      exact ⟨_, left, (gives_compile_single notText).mpr ⟨part, partRun, rfl⟩⟩
    · intro alone
      obtain ⟨parts, after, partsRun⟩ := all.mpr fun item listed => by
        by_cases text : ∃ content, item = .text content
        · obtain ⟨content, rfl⟩ := text
          exact ⟨[.text content], session, rfl⟩
        · have notText : ∀ content, item ≠ .text content := not_exists.mp text
          obtain ⟨format, left, run⟩ := alone item ((mem_message notText).mp listed) notText
          obtain ⟨part, partRun, _⟩ := (gives_compile_single notText).mp run
          exact ⟨part, left, partRun⟩
      exact ⟨_, after, gives_printing.mpr ⟨_, gives_compile_slots.mpr ⟨parts, partsRun, rfl⟩, rfl⟩⟩
  · intro statement after run
    obtain ⟨format, formatRun, rfl⟩ := gives_printing.mp run
    obtain ⟨parts, partsRun, rfl⟩ := gives_compile_slots.mp formatRun
    obtain ⟨shown, prints, same⟩ := exists_prints (Remarking.gives_mapM each partsRun)
    exact ⟨shown, prints, by rw [same]⟩

example : Gives (printing [.text "\x7b", .value .initial] "\x7d" "\x7b\x7d") {}
    (.print ⟨[.text "\x7b\x7d", .argument .initial "", .text "\x7b\x7d"]⟩) {} :=
  rfl

end Statement

end Gateware
