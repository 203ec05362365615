import Gateware.Proofs.Format.Template

/-!
# Formats one after the other

Merging the chunks of a part first changes nothing in the chunks of the whole.  So joining formats
is associative, with the empty format on either side as good as none, and a format that is spliced
between two texts is joined with them.
-/

set_option autoImplicit false

namespace Gateware.Format

/-! ## Merging parts -/

namespace Chunk

variable {left right rest chunks : List Chunk}

theorem merge_merge : merge (merge chunks) = merge chunks := merge_of_apart (apart_merge chunks)

theorem merge_cons_merge (chunk : Chunk) : merge (chunk :: merge rest) = merge (chunk :: rest) := by
  cases chunk with
  | text content => simp only [merge, merge_merge]
  | argument value specifier => simp only [merge, merge_merge]

theorem merge_append_merge : merge (left ++ merge right) = merge (left ++ right) := by
  induction left with
  | nil => exact merge_merge
  | cons chunk left ih =>
      calc merge (chunk :: (left ++ merge right))
          = merge (chunk :: merge (left ++ merge right)) := (merge_cons_merge chunk).symm
        _ = merge (chunk :: merge (left ++ right)) := by rw [ih]
        _ = merge (chunk :: (left ++ right)) := merge_cons_merge chunk

theorem merge_cons_append (chunk : Chunk) :
    merge (merge (chunk :: rest) ++ right) = merge (chunk :: (merge rest ++ right)) := by
  cases chunk with
  | argument value specifier => rfl
  | text content =>
      rw [merge]
      split
      · rename_i empty
        rw [merge, if_pos empty]
      · split
        · rename_i next others merged
          rw [merged]
          exact Template.merge_text_text content next (others ++ right)
        · rfl

theorem merge_merge_append : merge (merge left ++ right) = merge (left ++ right) := by
  induction left with
  | nil => rfl
  | cons chunk left ih =>
      calc merge (merge (chunk :: left) ++ right)
          = merge (chunk :: (merge left ++ right)) := merge_cons_append chunk
        _ = merge (chunk :: merge (merge left ++ right)) := (merge_cons_merge chunk).symm
        _ = merge (chunk :: merge (left ++ right)) := by rw [ih]
        _ = merge (chunk :: (left ++ right)) := merge_cons_merge chunk

/-- What is read of the chunks one by one is read of the merged ones, if it is read of a text as of
its parts. -/
theorem flatMap_merge {Item : Type} {items : Chunk → List Item} (none : items (.text "") = [])
    (joined : ∀ left right,
      items (.text (left ++ right)) = items (.text left) ++ items (.text right)) :
    (merge chunks).flatMap items = chunks.flatMap items := by
  induction chunks with
  | nil => rfl
  | cons chunk rest ih =>
      cases chunk with
      | argument value specifier => rw [merge, List.flatMap_cons, ih, List.flatMap_cons]
      | text content =>
          rw [merge, List.flatMap_cons, ← ih]
          split
          · rename_i empty
            rw [String.isEmpty_iff.mp empty, none, List.nil_append]
          · split
            · rename_i next others merged
              rw [merged, List.flatMap_cons, List.flatMap_cons, joined, List.append_assoc]
            · rfl

theorem values_merge : (merge chunks).filterMap value? = chunks.filterMap value? := by
  rw [List.filterMap_eq_flatMap_toList, List.filterMap_eq_flatMap_toList]
  exact flatMap_merge rfl fun _ _ => rfl

theorem template_merge :
    String.join ((merge chunks).map template) = String.join (chunks.map template) := by
  rw [← String.toList_inj, String.toList_join, String.toList_join, List.flatMap_map,
    List.flatMap_map]
  refine flatMap_merge rfl fun left right => ?_
  simp [template, Template.escape]

end Chunk

/-! ## Joining -/

variable {first second third : Format}

theorem template_append : (first ++ second).template = first.template ++ second.template := by
  change String.join ((Chunk.merge (first.chunks ++ second.chunks)).map Chunk.template) = _
  rw [Chunk.template_merge, List.map_append, String.join_append]
  rfl

theorem values_append : (first ++ second).values = first.values ++ second.values := by
  change (Chunk.merge (first.chunks ++ second.chunks)).filterMap Chunk.value? = _
  rw [Chunk.values_merge, List.filterMap_append]
  rfl

theorem ofChunks_append (left right : List Chunk) :
    ofChunks (left ++ right) = ofChunks left ++ ofChunks right := by
  change ofChunks (left ++ right) = ofChunks (Chunk.merge left ++ Chunk.merge right)
  simp only [ofChunks, Chunk.merge_append_merge, Chunk.merge_merge_append]

theorem append_assoc : first ++ second ++ third = first ++ (second ++ third) := by
  change ofChunks (Chunk.merge (first.chunks ++ second.chunks) ++ third.chunks) =
    ofChunks (first.chunks ++ Chunk.merge (second.chunks ++ third.chunks))
  rw [ofChunks, Chunk.merge_merge_append, List.append_assoc, ofChunks, Chunk.merge_append_merge]

theorem Settled.ofChunks_chunks (settled : first.Settled) : ofChunks first.chunks = first :=
  congrArg Format.mk (Chunk.merge_of_apart settled.apart)

theorem Settled.empty_append (settled : first.Settled) : {} ++ first = first :=
  settled.ofChunks_chunks

theorem Settled.append_empty (settled : first.Settled) : first ++ {} = first := by
  change ofChunks (first.chunks ++ []) = first
  rw [List.append_nil, settled.ofChunks_chunks]

/-! ## Splicing -/

theorem read_between (before after : String) :
    Template.read (Template.escape before ++ "\x7b\x7d" ++ Template.escape after) =
      .ok [.text before, .field "" none "", .text after] := by
  -- It is that of a format with a value in the place of the field.
  have written : Template.escape before ++ "\x7b\x7d" ++ Template.escape after =
      template ⟨[.text before, .argument .initial "", .text after]⟩ := by
    simp [template, Chunk.template, String.append_assoc]
  rw [written, Template.read_template]
  · simp [Template.spread, Template.piece]
  · intro value specifier listed
    obtain ⟨-, rfl⟩ : value = .initial ∧ specifier = "" := by simpa using listed
    exact ⟨by decide, by decide⟩

theorem Settled.gives_splice (settled : first.Settled) (before after : String) (session : Session) :
    Build.Gives (compile (Template.escape before ++ "\x7b\x7d" ++ Template.escape after)
      { positional := [.object (.printer (.format first))] }) session
      (ofText before ++ first ++ ofText after) session := by
  have joined : ofText before ++ first ++ ofText after =
      ofChunks ([] ++ [.text before] ++ first.chunks ++ [.text after]) := by
    rw [ofChunks_append, ofChunks_append, settled.ofChunks_chunks]
    rfl
  rw [joined]
  refine Build.gives_bind.mpr ⟨_, session, Build.gives_design.mpr ⟨rfl, rfl⟩, ?_⟩
  refine Build.gives_bind.mpr ⟨_, session,
    Build.gives_ofExcept.mpr ⟨read_between before after, rfl⟩, ?_⟩
  -- The three pieces are compiled as they stand, and the field takes the only argument.
  refine Build.gives_bind.mpr ⟨([] ++ [Chunk.text before] ++ first.chunks ++ [Chunk.text after],
    { next := some 1, positional := [0] }), session, rfl, ?_⟩
  exact Build.gives_bind.mpr ⟨(), session, rfl, rfl⟩

/-- Joining formats is associative with the empty format as its unit, it joins their templates and
their values, and it is what splicing a format between two texts does. -/
theorem append_laws (first second third : Format) (constructed : first.Constructed) :
    first ++ second ++ third = first ++ (second ++ third) ∧
    {} ++ first = first ∧ first ++ {} = first ∧
    (first ++ second).template = first.template ++ second.template ∧
    (first ++ second).values = first.values ++ second.values ∧
    ∀ (before after : String) (session : Session),
      Build.Gives (compile (Template.escape before ++ "\x7b\x7d" ++ Template.escape after)
        { positional := [.object (.printer (.format first))] }) session
        (ofText before ++ first ++ ofText after) session := by
  have settled := constructed.settled
  exact ⟨append_assoc, settled.empty_append, settled.append_empty, template_append, values_append,
    settled.gives_splice⟩

/-- A lone brace before a number between braces, and spliced between two more. -/
theorem append_laws_braces :
    (ofText "\x7b" ++ inBraces).template = (ofText "\x7b").template ++ inBraces.template ∧
      ofText "\x7b" ++ inBraces ++ {} = ofText "\x7b" ++ (inBraces ++ {}) ∧
      Build.Gives (compile "\x7d\x7d\x7b\x7d\x7b\x7b"
        { positional := [.object (.printer (.format (ofText "\x7b")))] }) {}
        (ofText "\x7d" ++ ofText "\x7b" ++ ofText "\x7b") {} := by
  have constructed : (ofText "\x7b").Constructed := construction_constructed.ofText "\x7b"
  obtain ⟨associative, -, -, templates, -, spliced⟩ :=
    append_laws (ofText "\x7b") inBraces {} constructed
  exact ⟨templates, associative, spliced "\x7d" "\x7b" {}⟩

end Gateware.Format
