import Mathlib.Data.List.Induction
import Gateware.Proofs.Format.Reading

/-!
# Arguments of formats

A template is compiled to what its fields stand for: no argument is left, the fields are numbered
in one way only, and the fields without names take the arguments in the order in which they stand,
each before those in its specifier.  Every template of which this holds is compiled, unless what
its fields stand for is refused for its own sake.
-/

set_option autoImplicit false

namespace Gateware.Format

variable {Object : Type} {arguments : Arguments Object}

def Arguments.get? (arguments : Arguments Object) : Reference → Option (Arg Object)
  | .positional index => arguments.positional[index]?
  | .named index => arguments.named[index]?.map Prod.snd

def automatics (fields : List (Field Object)) : List (Field Object) :=
  fields.filter fun field => field.style = .automatic

/-- A field takes the argument that it refers to, and refers to what its name says: a number to
the argument of that number, and another name to the first argument of that name. -/
structure Field.Refers (arguments : Arguments Object) (field : Field Object) : Prop where
  stored : arguments.get? field.reference = some field.argument
  numbered : field.style = .numbered →
    ∃ index, Specifier.number field.name.toList = some index ∧ field.reference = .positional index
  named : field.style = .named →
    ∃ index, (arguments.named.findIdx? fun argument => argument.1 = field.name) = some index ∧
      field.reference = .named index

/-- What the fields of a template stand for: those without a name refer to the arguments in
order. -/
structure Denotes (arguments : Arguments Object) (fields : List (Field Object)) : Prop where
  refers : ∀ field ∈ fields, field.Refers arguments
  automatic : (automatics fields).map Field.reference =
    (List.range (automatics fields).length).map Reference.positional

def Mixed (fields : List (Field Object)) : Prop :=
  (∃ field ∈ fields, field.style = .automatic) ∧ ∃ field ∈ fields, field.style = .numbered

structure Covers (arguments : Arguments Object) (fields : List (Field Object)) : Prop where
  positional : ∀ index < arguments.positional.length,
    ∃ field ∈ fields, field.reference = .positional index
  named : ∀ index < arguments.named.length, ∃ field ∈ fields, field.reference = .named index

/-- Fields as they may stand in a template, from its start. -/
structure Placed (arguments : Arguments Object) (fields : List (Field Object)) : Prop
    extends Denotes arguments fields where
  unmixed : ¬ Mixed fields

/-! ## Taking one more argument -/

/-- What a field may stand for after those that were seen before it. -/
structure Follows (arguments : Arguments Object) (seen : List (Field Object))
    (field : Field Object) : Prop where
  refers : field.Refers arguments
  automatic : field.style = .automatic → field.reference = .positional (automatics seen).length
  unmixed : ¬ Mixed (seen ++ [field])

theorem placed_nil : Placed arguments [] where
  refers := by simp
  automatic := rfl
  unmixed := by simp [Mixed]

theorem automatics_append_one (seen : List (Field Object)) (field : Field Object) :
    automatics (seen ++ [field]) =
      automatics seen ++ if field.style = .automatic then [field] else [] := by
  by_cases automatic : field.style = .automatic <;> simp [automatics, automatic]

theorem mixed_append_one {seen : List (Field Object)} {field : Field Object} :
    Mixed (seen ++ [field]) ↔ Mixed seen ∨
      (field.style = .automatic ∧ ∃ other ∈ seen, other.style = .numbered) ∨
      (field.style = .numbered ∧ ∃ other ∈ seen, other.style = .automatic) := by
  simp only [Mixed, List.mem_append, List.mem_singleton, or_and_right, exists_or, exists_eq_left]
  cases style : field.style with
  | automatic => simp
  | numbered => simp; tauto
  | named => simp

theorem automatic_append_one {seen : List (Field Object)} {field : Field Object} :
    (automatics (seen ++ [field])).map Field.reference =
        (List.range (automatics (seen ++ [field])).length).map Reference.positional ↔
      (automatics seen).map Field.reference =
          (List.range (automatics seen).length).map Reference.positional ∧
        (field.style = .automatic → field.reference = .positional (automatics seen).length) := by
  rw [automatics_append_one]
  by_cases automatic : field.style = .automatic
  · rw [if_pos automatic, List.length_append, List.length_singleton, List.range_succ,
      List.map_append, List.map_append, List.map_singleton, List.map_singleton]
    constructor
    · intro same
      obtain ⟨earlier, last⟩ := List.append_inj' same rfl
      exact ⟨earlier, fun _ => List.singleton_inj.mp last⟩
    · intro ⟨earlier, last⟩
      rw [earlier, last automatic]
  · simp [automatic]

theorem placed_append_one {seen : List (Field Object)} {field : Field Object} :
    Placed arguments (seen ++ [field]) ↔ Placed arguments seen ∧ Follows arguments seen field := by
  constructor
  · intro placed
    obtain ⟨earlier, last⟩ := automatic_append_one.mp placed.automatic
    have seenRefers : ∀ other ∈ seen, other.Refers arguments :=
      fun other listed => placed.refers other (List.mem_append_left _ listed)
    have refers : field.Refers arguments :=
      placed.refers field (List.mem_append_right _ List.mem_cons_self)
    have apart : ¬ Mixed seen := fun mixed => placed.unmixed (mixed_append_one.mpr (Or.inl mixed))
    exact ⟨⟨⟨seenRefers, earlier⟩, apart⟩, ⟨refers, last, placed.unmixed⟩⟩
  · intro ⟨placed, follows⟩
    have refers : ∀ other ∈ seen ++ [field], other.Refers arguments := by
      intro other listed
      rcases List.mem_append.mp listed with earlier | last
      · exact placed.refers other earlier
      · rw [List.mem_singleton.mp last]
        exact follows.refers
    have automatic := automatic_append_one.mpr ⟨placed.automatic, follows.automatic⟩
    exact ⟨⟨refers, automatic⟩, follows.unmixed⟩

theorem Placed.prefix {seen more : List (Field Object)}
    (placed : Placed arguments (seen ++ more)) : Placed arguments seen := by
  induction more using List.reverseRecOn with
  | nil => rwa [List.append_nil] at placed
  | append_singleton more field ih =>
      rw [← List.append_assoc] at placed
      exact ih (placed_append_one.mp placed).1

/-! ## Names tell references -/

theorem length_automatics (fields : List (Field Object)) :
    (automatics fields).length = (fields.map Field.name).countP fun name =>
      decide (Style.of name = .automatic) := by
  rw [List.countP_map, automatics, ← List.countP_eq_length_filter]
  rfl

theorem Field.Refers.reference_eq {field other : Field Object} (refers : field.Refers arguments)
    (others : other.Refers arguments) (names : field.name = other.name)
    (manual : field.style ≠ .automatic) : field.reference = other.reference := by
  have styles : other.style = field.style := congrArg Style.of names.symm
  cases style : field.style with
  | automatic => exact absurd style manual
  | numbered =>
      obtain ⟨index, number, here⟩ := refers.numbered style
      obtain ⟨again, same, there⟩ := others.numbered (styles.trans style)
      rw [← names, number] at same
      cases same
      rw [here, there]
  | named =>
      obtain ⟨index, found, here⟩ := refers.named style
      obtain ⟨again, same, there⟩ := others.named (styles.trans style)
      rw [← names, found] at same
      cases same
      rw [here, there]

theorem Placed.references_eq {first second : List (Field Object)}
    (left : Placed arguments first) (right : Placed arguments second)
    (names : first.map Field.name = second.map Field.name) :
    first.map Field.reference = second.map Field.reference := by
  induction first using List.reverseRecOn generalizing second with
  | nil => simpa using names
  | append_singleton seen field ih =>
      rw [List.map_append, List.map_singleton] at names
      obtain ⟨others, tail, rfl, seenNames, last⟩ := List.map_eq_append_iff.mp names.symm
      obtain ⟨other, rfl, named⟩ := List.map_eq_singleton_iff.mp last
      obtain ⟨left, leftLast⟩ := placed_append_one.mp left
      obtain ⟨right, rightLast⟩ := placed_append_one.mp right
      have earlier := ih left right seenNames.symm
      have reference : field.reference = other.reference := by
        by_cases automatic : field.style = .automatic
        · have again : other.style = .automatic := (congrArg Style.of named).trans automatic
          rw [leftLast.automatic automatic, rightLast.automatic again, length_automatics,
            length_automatics, seenNames]
        · exact leftLast.refers.reference_eq rightLast.refers named.symm automatic
      rw [List.map_append, List.map_append, earlier, List.map_singleton, List.map_singleton,
        reference]

theorem Placed.fields_eq {first second : List (Field Object)} (left : Placed arguments first)
    (right : Placed arguments second)
    (names : first.map Field.name = second.map Field.name) : first = second := by
  have references := left.references_eq right names
  apply List.ext_getElem
  · simpa using congrArg List.length names
  · intro place inside otherInside
    have mapped {α : Type} (part : Field Object → α) : place < (first.map part).length := by
      rwa [List.length_map]
    have name : first[place].name = second[place].name := by
      simpa using List.getElem_of_eq names (mapped Field.name)
    have reference : first[place].reference = second[place].reference := by
      simpa using List.getElem_of_eq references (mapped Field.reference)
    have stored := (left.refers _ (List.getElem_mem inside)).stored
    have otherStored := (right.refers _ (List.getElem_mem otherInside)).stored
    rw [reference, otherStored, Option.some.injEq] at stored
    generalize first[place] = field at name reference stored ⊢
    generalize second[place] = other at name reference stored ⊢
    cases field
    cases other
    simp_all

theorem Covers.of_references_eq {first second : List (Field Object)}
    (covers : Covers arguments first)
    (references : first.map Field.reference = second.map Field.reference) :
    Covers arguments second := by
  have transfer {reference : Reference} (used : ∃ field ∈ first, field.reference = reference) :
      ∃ field ∈ second, field.reference = reference := by
    rw [← List.mem_map] at used ⊢
    rwa [← references]
  exact ⟨fun index inside => transfer (covers.positional index inside),
    fun index inside => transfer (covers.named index inside)⟩

theorem Mixed.of_names_eq {first second : List (Field Object)} (mixed : Mixed first)
    (names : first.map Field.name = second.map Field.name) : Mixed second := by
  have transfer {style : Style} (present : ∃ field ∈ first, field.style = style) :
      ∃ field ∈ second, field.style = style := by
    obtain ⟨field, listed, rfl⟩ := present
    have there : field.name ∈ second.map Field.name := names ▸ List.mem_map_of_mem listed
    obtain ⟨other, here, same⟩ := List.mem_map.mp there
    exact ⟨other, here, congrArg Style.of same⟩
  exact ⟨transfer mixed.1, transfer mixed.2⟩

/-- If fields without names take arguments, they take all that have a place, one each. -/
theorem Placed.length_automatics_eq {fields : List (Field Object)}
    (placed : Placed arguments fields) (covers : Covers arguments fields)
    (present : ∃ field ∈ fields, field.style = .automatic) :
    (automatics fields).length = arguments.positional.length := by
  have mem_automatics {field : Field Object} :
      field ∈ automatics fields ↔ field ∈ fields ∧ field.style = .automatic := by
    simp [automatics]
  refine Nat.le_antisymm (Nat.le_of_not_lt fun many => ?_) (Nat.le_of_not_lt fun few => ?_)
  · -- One of them refers to the place after the last argument.
    have beyond : Reference.positional arguments.positional.length ∈
        (automatics fields).map Field.reference := by
      rw [placed.automatic]
      exact List.mem_map_of_mem (List.mem_range.mpr many)
    obtain ⟨field, listed, refers⟩ := List.mem_map.mp beyond
    have stored := (placed.refers field (mem_automatics.mp listed).1).stored
    simp [refers, Arguments.get?] at stored
  · -- No other field has a number, so that one of them refers to the argument after theirs.
    obtain ⟨field, listed, refers⟩ := covers.positional _ few
    cases style : field.style with
    | automatic =>
        have own : field.reference ∈ (automatics fields).map Field.reference :=
          List.mem_map_of_mem (mem_automatics.mpr ⟨listed, style⟩)
        rw [placed.automatic, refers] at own
        simp at own
    | numbered => exact placed.unmixed ⟨present, field, listed, style⟩
    | named =>
        obtain ⟨index, _, other⟩ := (placed.refers field listed).named style
        rw [refers] at other
        cases other

namespace Binding

def after (seen : List (Field Object)) : Binding where
  next := if ∃ field ∈ seen, field.style = .numbered then none else some (automatics seen).length
  positional := (seen.filterMap fun field => field.reference.positional?).reverse
  named := (seen.filterMap fun field => field.reference.named?).reverse

theorem takeNumber_eq_ok {binding left : Binding} {index : Nat} {argument : Arg Object} :
    binding.takeNumber arguments index = .ok (argument, left) ↔
      arguments.get? (.positional index) = some argument ∧
        left = { binding with positional := index :: binding.positional } := by
  rw [takeNumber, Arguments.get?]
  cases arguments.positional[index]? with
  | none => simp
  | some stored => simp [eq_comm]

section

variable {seen : List (Field Object)} {field : Field Object} {index : Nat}

theorem after_automatic (automatic : field.style = .automatic)
    (refers : field.reference = .positional index) :
    after (seen ++ [field]) =
      { after seen with
        next := if ∃ other ∈ seen, other.style = .numbered then none
          else some ((automatics seen).length + 1)
        positional := index :: (after seen).positional } := by
  simp [after, automatics_append_one, automatic, refers, Reference.positional?, Reference.named?]

theorem after_numbered (numbered : field.style = .numbered)
    (refers : field.reference = .positional index) :
    after (seen ++ [field]) =
      { after seen with next := none, positional := index :: (after seen).positional } := by
  simp [after, numbered, refers, Reference.positional?, Reference.named?]

theorem after_named (named : field.style = .named) (refers : field.reference = .named index) :
    after (seen ++ [field]) = { after seen with named := index :: (after seen).named } := by
  simp [after, automatics_append_one, named, refers, Reference.positional?, Reference.named?]

end

section

variable {seen : List (Field Object)} {name : String} {argument : Arg Object} {left : Binding}

theorem take_automatic (automatic : Style.of name = .automatic) :
    (after seen).take arguments name = .ok (argument, left) ↔
      (¬ ∃ other ∈ seen, other.style = .numbered) ∧
        arguments.get? (.positional (automatics seen).length) = some argument ∧
        left = { after seen with
          next := some ((automatics seen).length + 1)
          positional := (automatics seen).length :: (after seen).positional } := by
  have empty := Style.of_eq_automatic.mp automatic
  by_cases numbered : ∃ other ∈ seen, other.style = .numbered
  · have none : (after seen).next = none := if_pos numbered
    simp [take, empty, none, numbered]
  · have next : (after seen).next = some (automatics seen).length := if_neg numbered
    simp [take, empty, next, numbered, takeNumber_eq_ok]

theorem take_numbered (unmixed : ¬ Mixed seen) (numbered : Style.of name = .numbered) :
    (after seen).take arguments name = .ok (argument, left) ↔
      (¬ ∃ other ∈ seen, other.style = .automatic) ∧
        ∃ index, Specifier.number name.toList = some index ∧
          arguments.get? (.positional index) = some argument ∧
          left = { after seen with
            next := none, positional := index :: (after seen).positional } := by
  obtain ⟨nonempty, digits⟩ := Style.of_eq_numbered.mp numbered
  have begun : (after seen).next.any (0 < ·) ↔ ∃ other ∈ seen, other.style = .automatic := by
    by_cases earlier : ∃ other ∈ seen, other.style = .numbered
    · have none : (after seen).next = none := if_pos earlier
      rw [none]
      exact ⟨fun any => absurd any (by simp), fun automatic => absurd ⟨automatic, earlier⟩ unmixed⟩
    · have next : (after seen).next = some (automatics seen).length := if_neg earlier
      simp [next, automatics, List.length_pos_iff_exists_mem]
  rw [take, if_neg nonempty, if_pos digits]
  by_cases automatic : ∃ other ∈ seen, other.style = .automatic
  · rw [if_pos (begun.mpr automatic)]
    simp [automatic]
  · rw [if_neg (mt begun.mp automatic)]
    cases Specifier.number name.toList with
    | none => simp
    | some index => simp [takeNumber_eq_ok, automatic]

theorem take_named (named : Style.of name = .named) :
    (after seen).take arguments name = .ok (argument, left) ↔
      ∃ index, (arguments.named.findIdx? fun argument => argument.1 = name) = some index ∧
        arguments.get? (.named index) = some argument ∧
        left = { after seen with named := index :: (after seen).named } := by
  obtain ⟨nonempty, digits⟩ := Style.of_eq_named.mp named
  rw [take, if_neg nonempty, if_neg digits]
  cases arguments.named.findIdx? fun argument => argument.1 = name with
  | none => simp
  | some index =>
      simp only [Option.some.injEq, Arguments.get?, exists_eq_left']
      cases arguments.named[index]? with
      | none => simp
      | some stored => simp [eq_comm]

theorem take_of_follows {field : Field Object} (unmixed : ¬ Mixed seen)
    (follows : Follows arguments seen field) :
    (after seen).take arguments field.name = .ok (field.argument, after (seen ++ [field])) := by
  have stored := follows.refers.stored
  have apart := mt mixed_append_one.mpr follows.unmixed
  simp only [not_or, not_and] at apart
  cases style : field.style with
  | automatic =>
      have refers := follows.automatic style
      have manual := apart.2.1 style
      rw [refers] at stored
      rw [after_automatic style refers, if_neg manual]
      exact (take_automatic style).mpr ⟨manual, stored, rfl⟩
  | numbered =>
      obtain ⟨index, number, refers⟩ := follows.refers.numbered style
      rw [refers] at stored
      rw [after_numbered style refers]
      exact (take_numbered unmixed style).mpr ⟨apart.2.2 style, index, number, stored, rfl⟩
  | named =>
      obtain ⟨index, found, refers⟩ := follows.refers.named style
      rw [refers] at stored
      rw [after_named style refers]
      exact (take_named style).mpr ⟨index, found, stored, rfl⟩

theorem exists_follows_of_take (unmixed : ¬ Mixed seen)
    (taken : (after seen).take arguments name = .ok (argument, left)) :
    ∃ field : Field Object, field.name = name ∧ field.argument = argument ∧
      Follows arguments seen field ∧ left = after (seen ++ [field]) := by
  cases style : Style.of name with
  | automatic =>
      obtain ⟨manual, stored, rfl⟩ := (take_automatic style).mp taken
      let field : Field Object := ⟨name, .positional (automatics seen).length, argument⟩
      have automatic : field.style = .automatic := style
      have refers : field.Refers arguments := ⟨stored, by simp [automatic], by simp [automatic]⟩
      have apart : ¬ Mixed (seen ++ [field]) := by
        simp [mixed_append_one, unmixed, automatic, manual]
      refine ⟨field, rfl, rfl, ⟨refers, fun _ => rfl, apart⟩, ?_⟩
      rw [after_automatic automatic rfl, if_neg manual]
  | numbered =>
      obtain ⟨manual, index, number, stored, rfl⟩ := (take_numbered unmixed style).mp taken
      let field : Field Object := ⟨name, .positional index, argument⟩
      have numbered : field.style = .numbered := style
      have refers : field.Refers arguments :=
        ⟨stored, fun _ => ⟨index, number, rfl⟩, by simp [numbered]⟩
      have apart : ¬ Mixed (seen ++ [field]) := by
        simp [mixed_append_one, unmixed, numbered, manual]
      refine ⟨field, rfl, rfl, ⟨refers, by simp [numbered], apart⟩, ?_⟩
      rw [after_numbered numbered rfl]
  | named =>
      obtain ⟨index, found, stored, rfl⟩ := (take_named style).mp taken
      let field : Field Object := ⟨name, .named index, argument⟩
      have named : field.style = .named := style
      have refers : field.Refers arguments :=
        ⟨stored, by simp [named], fun _ => ⟨index, found, rfl⟩⟩
      have apart : ¬ Mixed (seen ++ [field]) := by
        simp [mixed_append_one, unmixed, named]
      refine ⟨field, rfl, rfl, ⟨refers, by simp [named], apart⟩, ?_⟩
      rw [after_named named rfl]

theorem take_eq_ok (placed : Placed arguments seen) :
    (after seen).take arguments name = .ok (argument, left) ↔
      ∃ field : Field Object, field.name = name ∧ field.argument = argument ∧
        Placed arguments (seen ++ [field]) ∧ left = after (seen ++ [field]) := by
  constructor
  · intro taken
    obtain ⟨field, named, given, follows, there⟩ := exists_follows_of_take placed.unmixed taken
    exact ⟨field, named, given, placed_append_one.mpr ⟨placed, follows⟩, there⟩
  · intro ⟨field, named, given, more, there⟩
    subst named given there
    exact take_of_follows placed.unmixed (placed_append_one.mp more).2

end

/-! ## Nothing is left -/

theorem mem_after_positional {fields : List (Field Object)} {index : Nat} :
    index ∈ (after fields).positional ↔ ∃ field ∈ fields, field.reference = .positional index := by
  simp [after]

theorem mem_after_named {fields : List (Field Object)} {index : Nat} :
    index ∈ (after fields).named ↔ ∃ field ∈ fields, field.reference = .named index := by
  simp [after]

theorem find_unused_eq_none {count : Nat} {used : List Nat} :
    ((List.range count).find? fun index => !used.contains index) = none ↔
      ∀ index < count, index ∈ used := by
  simp [List.find?_eq_none]

theorem finish_eq_ok {fields : List (Field Object)} :
    (after fields).finish arguments = .ok () ↔ Covers arguments fields := by
  have covers : Covers arguments fields ↔
      (∀ index < arguments.positional.length, index ∈ (after fields).positional) ∧
        ∀ index < arguments.named.length, index ∈ (after fields).named := by
    simp only [mem_after_positional, mem_after_named]
    exact ⟨fun covers => ⟨covers.positional, covers.named⟩, fun both => ⟨both.1, both.2⟩⟩
  rw [covers, ← find_unused_eq_none, ← find_unused_eq_none, finish]
  dsimp only
  cases (List.range arguments.positional.length).find? fun index =>
      !(after fields).positional.contains index with
  | some index => simp [bind, Except.bind, throw, throwThe, MonadExceptOf.throw]
  | none =>
      cases (List.range arguments.named.length).find? fun index =>
          !(after fields).named.contains index with
      | some index => simp [throw]
      | none => simp [pure, Except.pure]

end Binding

end Gateware.Format
