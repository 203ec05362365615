import Gateware.Proofs.Format.Construction

/-!
# Templates read back

The template of a format, compiled with the values of the format, gives the format again.  The
text between two fields is read up to the brace that opens a field: a doubled brace is taken
first, so that braces of the text never run into those of the field beside them.
-/

set_option autoImplicit false

namespace Gateware.Format

def Braceless (text : String) : Prop := '\x7b' ∉ text.toList ∧ '\x7d' ∉ text.toList

namespace Template

/-! ## Reading -/

def escapeChar (c : Char) : List Char := if c = '\x7b' || c = '\x7d' then [c, c] else [c]

theorem readFrom_escape (content done rest : List Char) :
    readFrom .text done (content.flatMap escapeChar ++ rest) =
      readFrom .text (content.reverse ++ done) rest := by
  induction content generalizing done with
  | nil => rfl
  | cons c content ih =>
      rw [List.flatMap_cons, List.append_assoc, List.reverse_cons, List.append_assoc,
        List.singleton_append, ← ih (c :: done)]
      by_cases opens : c = '\x7b'
      · subst opens
        rfl
      · by_cases closes : c = '\x7d'
        · subst closes
          rfl
        · simp [escapeChar, opens, closes, readFrom]

theorem readFrom_specifier {specifier : List Char} (opens : '\x7b' ∉ specifier)
    (closes : '\x7d' ∉ specifier) (done rest : List Char) :
    readFrom (.field 0) done (specifier ++ '\x7d' :: rest) =
      (readField (done.reverse ++ specifier)).bind fun piece =>
        (readFrom .text [] rest).map (piece :: ·) := by
  induction specifier generalizing done with
  | nil =>
      rw [List.nil_append, List.append_nil, readFrom]
      cases readField done.reverse with
      | error fault => rfl
      | ok piece => cases readFrom .text [] rest <;> rfl
  | cons c specifier ih =>
      simp only [List.mem_cons, not_or] at opens closes
      have step : readFrom (.field 0) done (c :: (specifier ++ '\x7d' :: rest)) =
          readFrom (.field 0) (c :: done) (specifier ++ '\x7d' :: rest) := by
        rw [readFrom]
        · exact fun opened => opens.1 opened.symm
        · exact fun _ _ closed => closes.1 closed.symm
        · exact fun _ closed => closes.1 closed.symm
      rw [List.cons_append, step, ih opens.2 closes.2, List.reverse_cons, List.append_assoc]
      rfl

theorem readFrom_field {field : List Char} (opens : '\x7b' ∉ field) (closes : '\x7d' ∉ field)
    (done rest : List Char) :
    readFrom .text done ('\x7b' :: (field ++ '\x7d' :: rest)) =
      (readField field).bind fun piece =>
        (readFrom .text [] rest).map fun pieces =>
          .text (String.ofList done.reverse) :: piece :: pieces := by
  have single : readFrom .text done ('\x7b' :: (field ++ '\x7d' :: rest)) =
      (readFrom (.field 0) [] (field ++ '\x7d' :: rest)).map
        (.text (String.ofList done.reverse) :: ·) := by
    cases field with
    | nil => rfl
    | cons c field =>
        rw [List.cons_append, readFrom]
        intro _ doubled
        exact opens (by rw [(List.cons.inj doubled).1]; exact List.mem_cons_self)
  rw [single, readFrom_specifier opens closes, List.reverse_nil, List.nil_append]
  cases readField field with
  | error fault => rfl
  | ok piece => cases readFrom .text [] rest <;> rfl

theorem readField_specifier (specifier : String) :
    readField (':' :: specifier.toList) = .ok (.field "" none specifier) := by
  simp [readField, endsName]

/-! ## Pieces of chunks -/

/-- What is read back of a chunk. -/
def piece : Chunk → Piece
  | .text content => .text content
  | .argument _ specifier => .field "" none specifier

/-- The chunks as a template gives them again: before and after every field there is a text, which
may be empty. -/
def spread (before : String) : List Chunk → List Chunk
  | [] => [.text before]
  | .text content :: rest => spread (before ++ content) rest
  | .argument value specifier :: rest =>
      .text before :: .argument value specifier :: spread "" rest

theorem merge_text_text (left right : String) (rest : List Chunk) :
    Chunk.merge (.text (left ++ right) :: rest) =
      Chunk.merge (.text left :: .text right :: rest) := by
  by_cases leftEmpty : left = ""
  · rw [leftEmpty, String.empty_append]
    rfl
  · by_cases rightEmpty : right = ""
    · rw [rightEmpty, String.append_empty]
      rfl
    · have joined : left ++ right ≠ "" :=
        fun empty => leftEmpty (String.append_eq_empty_iff.mp empty).1
      rw [Chunk.merge, if_neg (mt String.isEmpty_iff.mp joined), Chunk.merge,
        if_neg (mt String.isEmpty_iff.mp leftEmpty), Chunk.merge,
        if_neg (mt String.isEmpty_iff.mp rightEmpty)]
      cases Chunk.merge rest with
      | nil => rfl
      | cons next others =>
          cases next with
          | text next => simp [String.append_assoc]
          | argument value specifier => rfl

theorem merge_spread (before : String) (chunks : List Chunk) :
    Chunk.merge (spread before chunks) = Chunk.merge (.text before :: chunks) := by
  induction chunks generalizing before with
  | nil => rfl
  | cons chunk rest ih =>
      cases chunk with
      | text content =>
          rw [spread, ih, merge_text_text]
      | argument value specifier =>
          have empty : Chunk.merge (spread "" rest) = Chunk.merge rest := ih ""
          simp only [spread, Chunk.merge, empty]

theorem mem_spread {value : Value} {specifier : String} {before : String} {chunks : List Chunk} :
    .argument value specifier ∈ spread before chunks ↔ .argument value specifier ∈ chunks := by
  induction chunks generalizing before with
  | nil => simp [spread]
  | cons chunk rest ih => cases chunk <;> simp [spread, ih]

theorem values_spread (before : String) (chunks : List Chunk) :
    (spread before chunks).filterMap Chunk.value? = chunks.filterMap Chunk.value? := by
  induction chunks generalizing before with
  | nil => rfl
  | cons chunk rest ih =>
      cases chunk with
      | text content => exact ih (before ++ content)
      | argument value specifier => exact congrArg (value :: ·) (ih "")

theorem readFrom_template {chunks : List Chunk}
    (plain : ∀ value specifier, .argument value specifier ∈ chunks → Braceless specifier)
    (done : List Char) :
    readFrom .text done (chunks.flatMap fun chunk => chunk.template.toList) =
      .ok ((spread (String.ofList done.reverse) chunks).map piece) := by
  induction chunks generalizing done with
  | nil => rfl
  | cons chunk rest ih =>
      have later := ih fun value specifier listed =>
        plain value specifier (List.mem_cons_of_mem _ listed)
      rw [List.flatMap_cons]
      cases chunk with
      | text content =>
          have escaped : (Chunk.text content).template.toList = content.toList.flatMap escapeChar :=
            String.toList_ofList
          rw [escaped, readFrom_escape, later, spread]
          simp
      | argument value specifier =>
          obtain ⟨opens, closes⟩ := plain value specifier List.mem_cons_self
          rw [Chunk.template]
          split
          · rename_i empty
            have field := @readFrom_field [] (by simp) (by simp) done
              (rest.flatMap fun chunk => chunk.template.toList)
            rw [later] at field
            rw [String.isEmpty_iff.mp empty]
            exact field
          · have field := @readFrom_field (':' :: specifier.toList) (by simpa using opens)
              (by simpa using closes) done (rest.flatMap fun chunk => chunk.template.toList)
            rw [later, readField_specifier] at field
            have written : ("\x7b:" ++ specifier ++ "\x7d").toList = '\x7b' :: (':' ::
                specifier.toList ++ ['\x7d']) := by
              simp
            rw [written, List.cons_append, List.append_assoc]
            exact field

theorem read_template {format : Format}
    (plain : ∀ value specifier, .argument value specifier ∈ format.chunks → Braceless specifier) :
    read format.template = .ok ((spread "" format.chunks).map piece) := by
  rw [read, Format.template, String.toList_join, List.flatMap_map]
  exact readFrom_template plain []

theorem read_braceless {text : String} (plain : Braceless text) : read text = .ok [.text text] := by
  have escaped : text.toList.flatMap escapeChar = text.toList := by
    have single : ∀ c ∈ text.toList, escapeChar c = [c] := by
      intro c listed
      have opens : c ≠ '\x7b' := fun same => plain.1 (same ▸ listed)
      have closes : c ≠ '\x7d' := fun same => plain.2 (same ▸ listed)
      simp [escapeChar, opens, closes]
    rw [List.flatMap_congr single, List.flatMap_singleton']
  have same := readFrom_escape text.toList [] []
  rw [escaped, List.append_nil, List.append_nil] at same
  rw [read, same, readFrom, List.reverse_reverse, String.ofList_toList]

end Template

/-! ## Compiling again -/

open Template

def taken (count : Nat) : Binding :=
  { next := some count, positional := (List.range count).reverse }

section Compile

variable {Object : Type} {insertion : Insertion Object} {values : List Value}

theorem take_next {arguments : Arguments Object} {count : Nat} {argument : Arg Object}
    (stored : arguments.positional[count]? = some argument) :
    (taken count).take arguments "" = .ok (argument, taken (count + 1)) := by
  have more : count :: (List.range count).reverse = (List.range (count + 1)).reverse := by
    rw [List.range_succ, List.reverse_append]
    rfl
  simp [Binding.take, Binding.takeNumber, taken, stored, more]

theorem finish_taken (positional : List (Arg Object)) :
    (taken positional.length).finish { positional } = .ok () := by
  have used : (List.range positional.length).find?
      (fun index => !(List.range positional.length).reverse.contains index) = none := by
    rw [List.find?_eq_none]
    intro index listed
    simpa using List.mem_range.mp listed
  simp only [Binding.finish, taken, used]
  rfl

theorem specifierText_braceless {arguments : Arguments Object} {binding : Binding}
    {specifier : String} (plain : Braceless specifier) :
    specifierText insertion arguments binding specifier = .ok (specifier, binding) := by
  rw [specifierText, specifierWithin, read_braceless plain]
  change Except.ok ("" ++ specifier, binding) = _
  rw [String.empty_append]

theorem gives_compilePiece {session : Session} {chunk : Chunk} {chunks : List Chunk}
    (checked : Checked (chunk :: chunks))
    (plain : ∀ value specifier, .argument value specifier ∈ chunk :: chunks →
      Braceless specifier)
    {before : List Value} (all : before ++ (chunk :: chunks).filterMap Chunk.value? = values) :
    Build.Gives (compilePiece insertion { positional := values.map Arg.value }
      (taken before.length) (piece chunk)) session
      ([chunk], taken (before ++ [chunk].filterMap Chunk.value?).length) session := by
  cases chunk with
  | text content =>
      have none : [Chunk.text content].filterMap Chunk.value? = [] := rfl
      rw [none, List.append_nil]
      exact Build.gives_pure.mpr ⟨rfl, rfl⟩
  | argument value specifier =>
      have stored : (values.map (@Arg.value Object))[before.length]? = some (.value value) := by
        rw [← all]
        simp [Chunk.value?]
      have here := List.mem_cons_self (a := Chunk.argument value specifier) (l := chunks)
      rw [piece, compilePiece]
      refine Build.gives_bind.mpr ⟨_, session, Build.gives_ofExcept.mpr ⟨take_next stored, rfl⟩, ?_⟩
      refine Build.gives_bind.mpr ⟨_, session, Build.gives_ofExcept.mpr ⟨rfl, rfl⟩, ?_⟩
      refine Build.gives_bind.mpr ⟨_, session,
        Build.gives_ofExcept.mpr ⟨specifierText_braceless (plain _ _ here), rfl⟩, ?_⟩
      refine Build.gives_bind.mpr ⟨_, session,
        Build.gives_ofExcept.mpr ⟨checked _ _ here, rfl⟩, ?_⟩
      refine Build.gives_pure.mpr ⟨?_, rfl⟩
      rw [List.length_append]
      rfl

theorem gives_pieces {session : Session} {chunks : List Chunk} (checked : Checked chunks)
    (plain : ∀ value specifier, .argument value specifier ∈ chunks → Braceless specifier)
    {before : List Value} (all : before ++ chunks.filterMap Chunk.value? = values)
    (made : List Chunk) :
    Build.Gives
      ((chunks.map piece).foldlM (fun (chunks, binding) piece => do
        let (more, binding) ←
          compilePiece insertion { positional := values.map Arg.value } binding piece
        return (chunks ++ more, binding)) (made, taken before.length))
      session (made ++ chunks, taken values.length) session := by
  induction chunks generalizing before made with
  | nil =>
      rw [List.filterMap_nil, List.append_nil] at all
      rw [List.append_nil, ← all]
      exact Build.gives_pure.mpr ⟨rfl, rfl⟩
  | cons chunk rest ih =>
      rw [List.map_cons, List.foldlM_cons]
      refine Build.gives_bind.mpr ⟨(made ++ [chunk],
        taken (before ++ [chunk].filterMap Chunk.value?).length), session, ?_, ?_⟩
      · exact Build.gives_bind.mpr ⟨_, session, gives_compilePiece checked plain all,
          Build.gives_pure.mpr ⟨rfl, rfl⟩⟩
      · have later : before ++ [chunk].filterMap Chunk.value? ++ rest.filterMap Chunk.value? =
            values := by
          rw [List.append_assoc, ← List.filterMap_append]
          exact all
        have again := ih (fun value specifier listed =>
            checked value specifier (List.mem_cons_of_mem _ listed))
          (fun value specifier listed =>
            plain value specifier (List.mem_cons_of_mem _ listed)) later (made ++ [chunk])
        rw [List.append_assoc] at again
        exact again

theorem Settled.gives_template {format : Format} (settled : format.Settled)
    (plain : ∀ value specifier, .argument value specifier ∈ format.chunks → Braceless specifier)
    (insertion : Insertion Object) (session : Session) :
    Build.Gives (compileWith insertion { positional := format.values.map Arg.value }
      format.template) session format session := by
  have checked : Checked (spread "" format.chunks) :=
    fun value specifier listed => settled.checked value specifier (mem_spread.mp listed)
  have braceless : ∀ value specifier, .argument value specifier ∈ spread "" format.chunks →
      Braceless specifier :=
    fun value specifier listed => plain value specifier (mem_spread.mp listed)
  have same : ofChunks (spread "" format.chunks) = format := by
    rw [ofChunks, merge_spread]
    exact congrArg Format.mk (Chunk.merge_of_apart settled.apart)
  rw [compileWith]
  refine Build.gives_bind.mpr ⟨_, session, Build.gives_ofExcept.mpr ⟨read_template plain, rfl⟩, ?_⟩
  have all : [] ++ (spread "" format.chunks).filterMap Chunk.value? = format.values :=
    values_spread "" format.chunks
  refine Build.gives_bind.mpr ⟨_, session, gives_pieces checked braceless all [], ?_⟩
  have finished := finish_taken (format.values.map (@Arg.value Object))
  rw [List.length_map] at finished
  refine Build.gives_bind.mpr ⟨(), session, Build.gives_ofExcept.mpr ⟨finished, rfl⟩, ?_⟩
  exact Build.gives_pure.mpr ⟨same, rfl⟩

end Compile

theorem Settled.constructed {format : Format} (settled : format.Settled)
    (plain : ∀ value specifier, .argument value specifier ∈ format.chunks → Braceless specifier) :
    format.Constructed :=
  constructed_ofValues (settled.gives_template plain Insertion.none {})

/-- A format that was made is what its template compiles to with its values, whatever braces stand
in its texts. -/
theorem compileWith_template {format : Format} (constructed : format.Constructed)
    (plain : ∀ value specifier, .argument value specifier ∈ format.chunks → Braceless specifier)
    {Object : Type} (insertion : Insertion Object) (session : Session) :
    Build.Gives (compileWith insertion { positional := format.values.map Arg.value }
      format.template) session format session :=
  constructed.settled.gives_template plain insertion session

def inBraces : Format :=
  ⟨[.text "\x7b", .argument .initial "x", .text "\x7d\x7d"]⟩

theorem compileWith_inBraces :
    inBraces.template = "\x7b\x7b\x7b:x\x7d\x7d\x7d\x7d\x7d" ∧
      Build.Gives (compileWith Insertion.none { positional := [.value .initial] }
        "\x7b\x7b\x7b:x\x7d\x7d\x7d\x7d\x7d") {} inBraces {} := by
  have only {value : Value} {specifier : String}
      (listed : .argument value specifier ∈ inBraces.chunks) :
      value = .initial ∧ specifier = "x" := by
    simpa [inBraces] using listed
  have settled : inBraces.Settled := by
    refine ⟨⟨by decide, by simp, by decide, by simp, trivial⟩, fun value specifier listed => ?_⟩
    obtain ⟨rfl, rfl⟩ := only listed
    decide
  have plain : ∀ value specifier, .argument value specifier ∈ inBraces.chunks →
      Braceless specifier := by
    intro value specifier listed
    obtain ⟨rfl, rfl⟩ := only listed
    exact ⟨by decide, by decide⟩
  refine ⟨by decide +kernel, ?_⟩
  exact compileWith_template (settled.constructed plain) plain Insertion.none {}

end Gateware.Format
