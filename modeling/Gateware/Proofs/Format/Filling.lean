import Gateware.Format.Insert
import Gateware.Proofs.Format.Binding

/-!
# Formats from readings

A template is compiled to what a reading of it stands for, if the fields of the reading follow each
other and leave no argument.  Nested specifiers are filled in on the way: the argument of a field is
taken first, then those of the fields in its specifier, then those of the fields to its right.
-/

set_option autoImplicit false

namespace Gateware.Format

variable {Object : Type} {arguments : Arguments Object}

/-! ## Texts and chunks of readings -/

section

variable (insertion : Insertion Object)

def inserted (argument : Arg Object) (specifier : String) : Build (List Chunk) :=
  match argument with
  | .value tree => do
      Build.ofExcept (Specifier.checkValue specifier tree.shape)
      return [.argument tree specifier]
  | .object object => insertion.chunks object specifier
  | literal => do return [.text (← Build.ofExcept (literal.literal insertion specifier))]

namespace Reading

def literal : Reading Object → Except Fault String
  | .done => .ok ""
  | .text content rest => do return content ++ (← rest.literal)
  | .field head conversion inner rest => do
      let argument ← head.argument.convert insertion conversion
      let text ← argument.literal insertion (← inner.literal)
      return text ++ (← rest.literal)

def chunks : Reading Object → Build (List Chunk)
  | .done => return []
  | .text content rest => do return .text content :: (← rest.chunks)
  | .field head conversion inner rest => do
      let argument ← Build.ofExcept (head.argument.convert insertion conversion)
      let here ← inserted insertion argument (← Build.ofExcept (inner.literal insertion))
      return here ++ (← rest.chunks)

def format (reading : Reading Object) : Build Format := do
  return ofChunks (← reading.chunks insertion)

end Reading

end

/-! ## Filling in the fields of specifiers -/

section

variable {insertion : Insertion Object}

open Binding

theorem Reading.append_fields_field (seen : List (Field Object)) (head : Field Object)
    (conversion : Option Char) (inner rest : Reading Object) :
    seen ++ (Reading.field head conversion inner rest).fields =
      seen ++ [head] ++ inner.fields ++ rest.fields := by
  simp [Reading.fields]

/-- Filling in goes on after fields that were seen to the text of a reading whose fields may follow
them. -/
structure Reading.Continues (insertion : Insertion Object) (arguments : Arguments Object)
    (seen : List (Field Object)) (reading : Reading Object) (text : String) (left : Binding) :
    Prop where
  placed : Placed arguments (seen ++ reading.fields)
  literal : reading.literal insertion = .ok text
  there : left = after (seen ++ reading.fields)

/-- To a depth, filling in a specifier follows the readings of the specifier, whatever was seen
before it. -/
def FollowsReadings (insertion : Insertion Object) (arguments : Arguments Object) (depth : Nat)
    (specifier : String) : Prop :=
  ∀ (seen : List (Field Object)) (text : String) (left : Binding), Placed arguments seen →
    (specifierWithin insertion arguments depth (after seen) specifier = .ok (text, left) ↔
      ∃ inner : Reading Object, Reading.Of specifier inner ∧
        inner.Continues insertion arguments seen text left)

theorem take_fill {depth : Nat} {specifier name text : String} {seen : List (Field Object)}
    {argument : Arg Object} {left : Binding}
    (follows : FollowsReadings insertion arguments depth specifier)
    (placed : Placed arguments seen) :
    (∃ took, (after seen).take arguments name = .ok (argument, took) ∧
        specifierWithin insertion arguments depth took specifier = .ok (text, left)) ↔
      ∃ (head : Field Object) (inner : Reading Object), head.name = name ∧
        head.argument = argument ∧ Reading.Of specifier inner ∧
        inner.Continues insertion arguments (seen ++ [head]) text left := by
  constructor
  · intro ⟨took, take, filled⟩
    obtain ⟨head, named, given, placedHead, rfl⟩ := (take_eq_ok placed).mp take
    obtain ⟨inner, ofSpecifier, continues⟩ := (follows _ _ _ placedHead).mp filled
    exact ⟨head, inner, named, given, ofSpecifier, continues⟩
  · intro ⟨head, inner, named, given, ofSpecifier, continues⟩
    have placedHead := continues.placed.prefix
    exact ⟨_, (take_eq_ok placed).mpr ⟨head, named, given, placedHead, rfl⟩,
      (follows _ _ _ placedHead).mpr ⟨inner, ofSpecifier, continues⟩⟩

def fillPiece (insertion : Insertion Object) (arguments : Arguments Object) (depth : Nat)
    (state : String × Binding) : Piece → Except Fault (String × Binding)
  | .text content => pure (state.1 ++ content, state.2)
  | .field name conversion specifier => do
      let (argument, binding) ← state.2.take arguments name
      let argument ← argument.convert insertion conversion
      let (specifier, binding) ← specifierWithin insertion arguments depth binding specifier
      let literal ← argument.literal insertion specifier
      pure (state.1 ++ literal, binding)

theorem specifierWithin_succ (depth : Nat) (binding : Binding) (template : String) :
    specifierWithin insertion arguments (depth + 1) binding template =
      Template.read template >>= fun pieces =>
        pieces.foldlM (fillPiece insertion arguments depth) ("", binding) := by
  rw [specifierWithin]
  rfl

theorem fillPiece_field {depth : Nat} {name specifier text result : String}
    {conversion : Option Char} {seen : List (Field Object)} {left : Binding}
    (follows : FollowsReadings insertion arguments depth specifier)
    (placed : Placed arguments seen) :
    fillPiece insertion arguments depth (text, after seen) (.field name conversion specifier) =
        .ok (result, left) ↔
      ∃ (head : Field Object) (inner : Reading Object) (filled : String) (argument : Arg Object)
        (literal : String), head.name = name ∧ Reading.Of specifier inner ∧
        inner.Continues insertion arguments (seen ++ [head]) filled left ∧
        head.argument.convert insertion conversion = .ok argument ∧
        argument.literal insertion filled = .ok literal ∧ result = text ++ literal := by
  simp only [fillPiece, bind_eq_ok]
  constructor
  · intro ⟨⟨given, took⟩, take, argument, converted, ⟨filled, _⟩, fill, literal, rendered, same⟩
    cases same
    obtain ⟨head, inner, named, rfl, ofSpecifier, continues⟩ :=
      (take_fill follows placed).mp ⟨took, take, fill⟩
    exact ⟨head, inner, filled, argument, literal, named, ofSpecifier, continues, converted,
      rendered, rfl⟩
  · intro ⟨head, inner, filled, argument, literal, named, ofSpecifier, continues, converted,
      rendered, joined⟩
    obtain ⟨took, take, fill⟩ :=
      (take_fill follows placed).mpr ⟨head, inner, named, rfl, ofSpecifier, continues⟩
    rw [joined]
    exact ⟨_, take, argument, converted, _, fill, literal, rendered, rfl⟩

def PiecesFollow (insertion : Insertion Object) (arguments : Arguments Object) (depth : Nat)
    (pieces : List Piece) : Prop :=
  ∀ name conversion specifier, .field name conversion specifier ∈ pieces →
    FollowsReadings insertion arguments depth specifier

theorem PiecesFollow.of_cons {depth : Nat} {piece : Piece} {pieces : List Piece}
    (follows : PiecesFollow insertion arguments depth (piece :: pieces)) :
    PiecesFollow insertion arguments depth pieces :=
  fun _ _ _ listed => follows _ _ _ (List.mem_cons_of_mem _ listed)

theorem exists_reading_of_foldlM {depth : Nat} {pieces : List Piece} {seen : List (Field Object)}
    {text result : String} {left : Binding}
    (follows : PiecesFollow insertion arguments depth pieces) (placed : Placed arguments seen)
    (run : pieces.foldlM (fillPiece insertion arguments depth) (text, after seen) =
      .ok (result, left)) :
    ∃ (reading : Reading Object) (more : String), Reading.OfPieces pieces reading ∧
      reading.Continues insertion arguments seen more left ∧ result = text ++ more := by
  induction pieces generalizing seen text with
  | nil =>
      cases run
      refine ⟨.done, "", .done, ⟨?_, rfl, ?_⟩, String.append_empty.symm⟩
      · rwa [Reading.fields, List.append_nil]
      · rw [Reading.fields, List.append_nil]
  | cons piece pieces ih =>
      rw [List.foldlM_cons] at run
      obtain ⟨⟨middle, between⟩, step, rest⟩ := bind_eq_ok.mp run
      cases piece with
      | text content =>
          cases step
          obtain ⟨others, more, ofPieces, ⟨placedRest, restText, there⟩, rfl⟩ :=
            ih follows.of_cons placed rest
          refine ⟨.text content others, content ++ more, .text ofPieces,
            ⟨placedRest, ?_, there⟩, String.append_assoc⟩
          exact bind_eq_ok.mpr ⟨more, restText, rfl⟩
      | field name conversion specifier =>
          have here := follows name conversion specifier List.mem_cons_self
          obtain ⟨head, inner, filled, argument, literal, rfl, ⟨parts, read, ofParts⟩,
            ⟨placedInner, innerText, rfl⟩, converted, rendered, rfl⟩ :=
            (fillPiece_field here placed).mp step
          obtain ⟨others, more, ofPieces, ⟨placedRest, restText, rfl⟩, rfl⟩ :=
            ih follows.of_cons placedInner rest
          refine ⟨.field head conversion inner others, literal ++ more,
            .field read ofParts ofPieces, ⟨?_, ?_, ?_⟩, String.append_assoc⟩
          · rwa [Reading.append_fields_field]
          · simp only [Reading.literal, bind_eq_ok]
            exact ⟨argument, converted, filled, innerText, literal, rendered, more, restText, rfl⟩
          · rw [Reading.append_fields_field]

theorem Reading.Continues.foldlM {depth : Nat} {pieces : List Piece} {reading : Reading Object}
    {seen : List (Field Object)} {text more : String} {left : Binding}
    (continues : reading.Continues insertion arguments seen more left)
    (ofPieces : Reading.OfPieces pieces reading)
    (follows : PiecesFollow insertion arguments depth pieces) (placed : Placed arguments seen) :
    pieces.foldlM (fillPiece insertion arguments depth) (text, after seen) =
      .ok (text ++ more, left) := by
  obtain ⟨placedAll, literal, there⟩ := continues
  induction ofPieces generalizing seen text more with
  | done =>
      cases literal
      rw [there, Reading.fields, List.append_nil, String.append_empty]
      rfl
  | @text content pieces rest _ ih =>
      obtain ⟨others, restText, same⟩ := bind_eq_ok.mp literal
      cases same
      have later : pieces.foldlM (fillPiece insertion arguments depth) (text ++ content, after seen) =
          .ok (text ++ content ++ others, left) :=
        ih follows.of_cons placed placedAll restText there
      rw [← String.append_assoc]
      exact later
  | @field head conversion specifier parts pieces inner rest read ofParts _ _ ih =>
      rw [Reading.append_fields_field] at placedAll there
      simp only [Reading.literal, bind_eq_ok] at literal
      obtain ⟨argument, converted, filled, innerText, literal, rendered, others, restText, same⟩ :=
        literal
      cases same
      have here := follows head.name conversion specifier List.mem_cons_self
      have placedInner := placedAll.prefix
      have step : fillPiece insertion arguments depth (text, after seen)
          (.field head.name conversion specifier) =
            .ok (text ++ literal, after (seen ++ [head] ++ inner.fields)) :=
        (fillPiece_field here placed).mpr ⟨head, inner, filled, argument, literal, rfl,
          ⟨parts, read, ofParts⟩, ⟨placedInner, innerText, rfl⟩, converted, rendered, rfl⟩
      rw [List.foldlM_cons, step, ← String.append_assoc]
      exact ih follows.of_cons placedInner placedAll restText there

theorem followsReadings_of_lt {depth : Nat} {specifier : String} (short : specifier.length < depth) :
    FollowsReadings insertion arguments depth specifier := by
  induction depth generalizing specifier with
  | zero => exact absurd short (Nat.not_lt_zero _)
  | succ depth ih =>
      intro seen text left placed
      have deeper {pieces : List Piece} (read : Template.read specifier = .ok pieces) :
          PiecesFollow insertion arguments depth pieces := by
        intro name conversion nested listed
        have shorter := Template.read_specifier_lt read listed
        exact ih (by omega)
      rw [specifierWithin_succ, bind_eq_ok]
      constructor
      · intro ⟨pieces, read, run⟩
        obtain ⟨inner, more, ofPieces, continues, rfl⟩ :=
          exists_reading_of_foldlM (deeper read) placed run
        rw [String.empty_append]
        exact ⟨inner, ⟨pieces, read, ofPieces⟩, continues⟩
      · intro ⟨inner, ⟨pieces, read, ofPieces⟩, continues⟩
        have run : pieces.foldlM (fillPiece insertion arguments depth) ("", after seen) =
            .ok ("" ++ text, left) :=
          continues.foldlM ofPieces (deeper read) placed
        rw [String.empty_append] at run
        exact ⟨pieces, read, run⟩

/-! ## Compiling the fields of templates -/

theorem compilePiece_field (binding : Binding) (name specifier : String)
    (conversion : Option Char) :
    compilePiece insertion arguments binding (.field name conversion specifier) = (do
      let (argument, binding) ← Build.ofExcept (binding.take arguments name)
      let argument ← Build.ofExcept (argument.convert insertion conversion)
      let (specifier, binding) ←
        Build.ofExcept (specifierText insertion arguments binding specifier)
      return (← inserted insertion argument specifier, binding)) := by
  rw [compilePiece]
  refine bind_congr fun taken => bind_congr fun argument => bind_congr fun filled => ?_
  cases argument <;> simp [inserted]

theorem gives_compilePiece_field {name specifier : String} {conversion : Option Char}
    {seen : List (Field Object)} {left : Binding} {more : List Chunk} {session ended : Session}
    (placed : Placed arguments seen) :
    Build.Gives (compilePiece insertion arguments (after seen) (.field name conversion specifier))
        session (more, left) ended ↔
      ∃ (head : Field Object) (inner : Reading Object) (filled : String) (argument : Arg Object),
        head.name = name ∧ Reading.Of specifier inner ∧
        inner.Continues insertion arguments (seen ++ [head]) filled left ∧
        head.argument.convert insertion conversion = .ok argument ∧
        Build.Gives (inserted insertion argument filled) session more ended := by
  have follows : FollowsReadings insertion arguments (specifier.length + 1) specifier :=
    followsReadings_of_lt (Nat.lt_succ_self _)
  rw [compilePiece_field]
  simp only [Build.gives_bind, Build.gives_ofExcept, Build.gives_pure]
  constructor
  · intro ⟨⟨given, took⟩, _, ⟨take, here⟩, argument, _, ⟨converted, there⟩, ⟨filled, _⟩, _,
      ⟨fill, final⟩, chunks, _, made, same, last⟩
    cases same
    subst here there final last
    obtain ⟨head, inner, named, rfl, ofSpecifier, continues⟩ :=
      (take_fill follows placed).mp ⟨took, take, fill⟩
    exact ⟨head, inner, filled, argument, named, ofSpecifier, continues, converted, made⟩
  · intro ⟨head, inner, filled, argument, named, ofSpecifier, continues, converted, made⟩
    obtain ⟨took, take, fill⟩ :=
      (take_fill follows placed).mpr ⟨head, inner, named, rfl, ofSpecifier, continues⟩
    exact ⟨_, session, ⟨take, rfl⟩, argument, session, ⟨converted, rfl⟩, _, session, ⟨fill, rfl⟩,
      more, ended, made, rfl, rfl⟩

def compileNext (insertion : Insertion Object) (arguments : Arguments Object)
    (state : List Chunk × Binding) (piece : Piece) : Build (List Chunk × Binding) := do
  let (more, binding) ← compilePiece insertion arguments state.2 piece
  return (state.1 ++ more, binding)

theorem exists_reading_of_gives {pieces : List Piece} {seen : List (Field Object)}
    {made result : List Chunk} {left : Binding} {session ended : Session}
    (placed : Placed arguments seen)
    (run : Build.Gives (pieces.foldlM (compileNext insertion arguments) (made, after seen)) session
      (result, left) ended) :
    ∃ (reading : Reading Object) (more : List Chunk), Reading.OfPieces pieces reading ∧
      Placed arguments (seen ++ reading.fields) ∧
      Build.Gives (reading.chunks insertion) session more ended ∧
      result = made ++ more ∧ left = after (seen ++ reading.fields) := by
  induction pieces generalizing seen made session with
  | nil =>
      obtain ⟨same, rfl⟩ := Build.gives_pure.mp run
      cases same
      refine ⟨.done, [], .done, ?_, Build.gives_pure.mpr ⟨rfl, rfl⟩, (List.append_nil _).symm, ?_⟩
      · rwa [Reading.fields, List.append_nil]
      · rw [Reading.fields, List.append_nil]
  | cons piece pieces ih =>
      rw [List.foldlM_cons] at run
      obtain ⟨_, _, step, rest⟩ := Build.gives_bind.mp run
      obtain ⟨⟨here, _⟩, between, compiled, final⟩ := Build.gives_bind.mp step
      obtain ⟨rfl, rfl⟩ := Build.gives_pure.mp final
      cases piece with
      | text content =>
          obtain ⟨same, rfl⟩ := Build.gives_pure.mp compiled
          cases same
          obtain ⟨others, more, ofPieces, placedRest, given, rfl, there⟩ := ih placed rest
          refine ⟨.text content others, .text content :: more, .text ofPieces, placedRest, ?_,
            List.append_assoc _ _ _, there⟩
          exact Build.gives_bind.mpr ⟨more, ended, given, Build.gives_pure.mpr ⟨rfl, rfl⟩⟩
      | field name conversion specifier =>
          obtain ⟨head, inner, filled, argument, rfl, ⟨parts, read, ofParts⟩,
            ⟨placedInner, innerText, rfl⟩, converted, inserted⟩ :=
            (gives_compilePiece_field placed).mp compiled
          obtain ⟨others, more, ofPieces, placedRest, given, rfl, rfl⟩ := ih placedInner rest
          refine ⟨.field head conversion inner others, here ++ more,
            .field read ofParts ofPieces, ?_, ?_, List.append_assoc _ _ _, ?_⟩
          · rwa [Reading.append_fields_field]
          · simp only [Reading.chunks, Build.gives_bind, Build.gives_ofExcept, Build.gives_pure]
            exact ⟨argument, session, ⟨converted, rfl⟩, filled, session, ⟨innerText, rfl⟩, here,
              between, inserted, more, ended, given, rfl, rfl⟩
          · rw [Reading.append_fields_field]

theorem Reading.OfPieces.gives_foldlM {pieces : List Piece} {reading : Reading Object}
    {seen : List (Field Object)} {made more : List Chunk} {session ended : Session}
    (ofPieces : Reading.OfPieces pieces reading) (placed : Placed arguments seen)
    (placedAll : Placed arguments (seen ++ reading.fields))
    (given : Build.Gives (reading.chunks insertion) session more ended) :
    Build.Gives (pieces.foldlM (compileNext insertion arguments) (made, after seen)) session
      (made ++ more, after (seen ++ reading.fields)) ended := by
  induction ofPieces generalizing seen made more session with
  | done =>
      obtain ⟨rfl, rfl⟩ := Build.gives_pure.mp given
      rw [Reading.fields, List.append_nil, List.append_nil]
      exact Build.gives_pure.mpr ⟨rfl, rfl⟩
  | @text content pieces rest _ ih =>
      obtain ⟨others, ended, restChunks, last⟩ := Build.gives_bind.mp given
      obtain ⟨rfl, rfl⟩ := Build.gives_pure.mp last
      have step : Build.Gives (compileNext insertion arguments (made, after seen) (.text content))
          session (made ++ [.text content], after seen) session :=
        Build.gives_bind.mpr ⟨([.text content], after seen), session,
          Build.gives_pure.mpr ⟨rfl, rfl⟩, Build.gives_pure.mpr ⟨rfl, rfl⟩⟩
      have later : Build.Gives
          (pieces.foldlM (compileNext insertion arguments) (made ++ [.text content], after seen))
          session (made ++ [.text content] ++ others, after (seen ++ rest.fields)) ended :=
        ih placed placedAll restChunks
      rw [List.append_assoc made] at later
      rw [List.foldlM_cons]
      exact Build.gives_bind.mpr ⟨_, session, step, later⟩
  | @field head conversion specifier parts pieces inner rest read ofParts _ _ ih =>
      rw [Reading.append_fields_field] at placedAll ⊢
      simp only [Reading.chunks, Build.gives_bind, Build.gives_ofExcept, Build.gives_pure] at given
      obtain ⟨argument, _, ⟨converted, rfl⟩, filled, _, ⟨innerText, rfl⟩, here, between, inserted,
        others, ended, restChunks, rfl, rfl⟩ := given
      have placedInner := placedAll.prefix
      have compiled : Build.Gives (compilePiece insertion arguments (after seen)
          (.field head.name conversion specifier)) session
          (here, after (seen ++ [head] ++ inner.fields)) between :=
        (gives_compilePiece_field placed).mpr ⟨head, inner, filled, argument, rfl,
          ⟨parts, read, ofParts⟩, ⟨placedInner, innerText, rfl⟩, converted, inserted⟩
      have step : Build.Gives (compileNext insertion arguments (made, after seen)
          (.field head.name conversion specifier)) session
          (made ++ here, after (seen ++ [head] ++ inner.fields)) between :=
        Build.gives_bind.mpr ⟨_, between, compiled, Build.gives_pure.mpr ⟨rfl, rfl⟩⟩
      have later : Build.Gives (pieces.foldlM (compileNext insertion arguments)
          (made ++ here, after (seen ++ [head] ++ inner.fields))) between
          (made ++ here ++ others, after (seen ++ [head] ++ inner.fields ++ rest.fields)) ended :=
        ih placedInner placedAll restChunks
      rw [List.append_assoc made] at later
      rw [List.foldlM_cons]
      exact Build.gives_bind.mpr ⟨_, between, step, later⟩

theorem compileWith_eq (template : String) :
    compileWith insertion arguments template = (do
      let pieces ← Build.ofExcept (Template.read template)
      let (chunks, binding) ← pieces.foldlM (compileNext insertion arguments) ([], {})
      Build.ofExcept (binding.finish arguments)
      return ofChunks chunks) :=
  rfl

/-- A template is compiled if and only if it has a reading whose fields may stand in it and leave
no argument, and then to the format of that reading. -/
theorem gives_compileWith {template : String} {result : Format} {session ended : Session} :
    Build.Gives (compileWith insertion arguments template) session result ended ↔
      ∃ reading : Reading Object, Reading.Of template reading ∧ Placed arguments reading.fields ∧
        Covers arguments reading.fields ∧
        Build.Gives (reading.format insertion) session result ended := by
  rw [compileWith_eq]
  simp only [Build.gives_bind, Build.gives_ofExcept, Build.gives_pure]
  constructor
  · intro ⟨pieces, _, ⟨read, start⟩, ⟨chunks, _⟩, _, run, _, _, ⟨finish, final⟩, joined, last⟩
    subst start final joined last
    obtain ⟨reading, more, ofPieces, placed, given, rfl, rfl⟩ :=
      exists_reading_of_gives placed_nil run
    refine ⟨reading, ⟨pieces, read, ofPieces⟩, placed, finish_eq_ok.mp finish, ?_⟩
    exact Build.gives_bind.mpr ⟨_, _, given, Build.gives_pure.mpr ⟨rfl, rfl⟩⟩
  · intro ⟨reading, ⟨pieces, read, ofPieces⟩, placed, covers, whole⟩
    obtain ⟨more, _, given, last⟩ := Build.gives_bind.mp whole
    obtain ⟨rfl, rfl⟩ := Build.gives_pure.mp last
    exact ⟨pieces, session, ⟨read, rfl⟩, (more, after reading.fields), _,
      ofPieces.gives_foldlM placed_nil placed given, (), _, ⟨finish_eq_ok.mpr covers, rfl⟩,
      rfl, rfl⟩

/-- The second argument is the width of the first field, and the third one follows it. -/
example : (Build.runIn {} (compileWith Insertion.none
      { positional := [.int 5, .int 3, .int 7] } "\x7b:\x7b\x7d\x7d\x7b\x7d")).1 =
    .ok (Format.mk [.text "  57"]) := by
  rfl

theorem Reading.Of.not_gives_compileWith {template : String} {reading : Reading Object}
    (ofTemplate : Reading.Of template reading)
    (wrong : Mixed reading.fields ∨
      Denotes arguments reading.fields ∧ ¬ Covers arguments reading.fields)
    {result : Format} {session ended : Session} :
    ¬ Build.Gives (compileWith insertion arguments template) session result ended := by
  intro gives
  obtain ⟨other, again, placed, covers, _⟩ := gives_compileWith.mp gives
  have names := ofTemplate.names_eq again
  rcases wrong with mixed | ⟨denotes, left⟩
  · exact placed.unmixed (mixed.of_names_eq names)
  · have unmixed : ¬ Mixed reading.fields := fun mixed => placed.unmixed (mixed.of_names_eq names)
    exact left (covers.of_references_eq (placed.references_eq ⟨denotes, unmixed⟩ names.symm))

end

theorem runIn_compile {session : Session} (template : String) (arguments : Arguments Insert) :
    Build.runIn session (compile template arguments) =
      Build.runIn session (compileWith (insertion session.design) arguments template) := by
  rw [compile, Build.runIn_bind, Build.runIn_design]

theorem gives_compile {template : String} {arguments : Arguments Insert} {result : Format}
    {session ended : Session} :
    Build.Gives (compile template arguments) session result ended ↔
      ∃ reading : Reading Insert, Reading.Of template reading ∧ Placed arguments reading.fields ∧
        Covers arguments reading.fields ∧
        Build.Gives (reading.format (insertion session.design)) session result ended := by
  rw [Build.Gives, runIn_compile]
  exact gives_compileWith

/-- Compiling succeeds exactly for templates with a reading in which every field takes the argument
that it stands for, the fields without names all arguments that have a place, one after the other,
and in which no argument is left.  A template whose fields are mixed, or leave an argument, is not
compiled. -/
theorem compile_binds_exactly (template : String) (arguments : Arguments Insert) :
    (∀ session result ended,
      Build.Gives (compile template arguments) session result ended ↔
        ∃ reading : Reading Insert, Reading.Of template reading ∧
          Denotes arguments reading.fields ∧ ¬ Mixed reading.fields ∧
          Covers arguments reading.fields ∧
          Build.Gives (reading.format (insertion session.design)) session result ended) ∧
    (∀ reading : Reading Insert, Reading.Of template reading →
      Denotes arguments reading.fields → ¬ Mixed reading.fields →
      Covers arguments reading.fields → (∃ field ∈ reading.fields, field.style = .automatic) →
      (automatics reading.fields).length = arguments.positional.length) ∧
    (∀ reading : Reading Insert, Reading.Of template reading → Mixed reading.fields →
      ∀ session result ended, ¬ Build.Gives (compile template arguments) session result ended) ∧
    (∀ reading : Reading Insert, Reading.Of template reading →
      Denotes arguments reading.fields → ¬ Covers arguments reading.fields →
      ∀ session result ended, ¬ Build.Gives (compile template arguments) session result ended) := by
  have start (session ended : Session) (result : Format) :
      Build.Gives (compile template arguments) session result ended ↔
        Build.Gives (compileWith (insertion session.design) arguments template) session result
          ended := by
    rw [compile, Build.gives_bind]
    simp only [Build.gives_design]
    constructor
    · intro ⟨_, _, ⟨found, here⟩, given⟩
      rwa [found, here]
    · exact fun given => ⟨_, _, ⟨rfl, rfl⟩, given⟩
  refine ⟨fun session result ended => ?binds, ?counts, ?mixed, ?leaves⟩
  case binds =>
    rw [start, gives_compileWith]
    constructor
    · intro ⟨reading, ofTemplate, placed, covers, given⟩
      exact ⟨reading, ofTemplate, placed.toDenotes, placed.unmixed, covers, given⟩
    · intro ⟨reading, ofTemplate, denotes, unmixed, covers, given⟩
      exact ⟨reading, ofTemplate, ⟨denotes, unmixed⟩, covers, given⟩
  case counts =>
    intro reading _ denotes unmixed covers present
    exact Placed.length_automatics_eq ⟨denotes, unmixed⟩ covers present
  case mixed =>
    intro reading ofTemplate mixed session result ended
    rw [start]
    exact ofTemplate.not_gives_compileWith (Or.inl mixed)
  case leaves =>
    intro reading ofTemplate denotes left session result ended
    rw [start]
    exact ofTemplate.not_gives_compileWith (Or.inr ⟨denotes, left⟩)

end Gateware.Format
