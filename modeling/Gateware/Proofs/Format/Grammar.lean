import Mathlib.Data.Bool.AllAny
import Mathlib.Data.List.TakeWhile
import Gateware.Format.Specifier
import Gateware.Proofs.Text.Word

/-!
# The grammar of specifiers

A specifier is `[[fill]align][sign][#][0][width][grouping][.precision][type]`, and a spelling says
which characters each of its parts has.  A text has at most two spellings, which differ in whether a
zero before the digits of the width is the flag or the first of them; the flag is meant.  The reader
goes from left to right without going back, and still it accepts exactly the texts that can be
spelled, since no part can start with what the part after it needs.
-/

set_option autoImplicit false

namespace Gateware.Format.Specifier

/-- The characters of each part of a specifier. -/
structure Spelling where
  fill : Option Char := none
  align : Option Char := none
  sign : Option Char := none
  alternate : Bool := false
  zero : Bool := false
  width : List Char := []
  grouping : Option Char := none
  precision : Option (List Char) := none
  type : Option Char := none

def size (digits : List Char) : Nat := Nat.ofDigitChars 10 digits 0

/-- Every run of digits in a text denotes a number that fits a word. -/
def Fits (text : List Char) : Prop :=
  ∀ run, run <:+: text → (∀ c ∈ run, c.isDigit) → size run < 2 ^ 64

namespace Spelling

def flag (mark : Char) (set : Bool) : List Char := if set then [mark] else []

def pointed : Option (List Char) → List Char
  | none => []
  | some digits => '.' :: digits

def text (spelling : Spelling) : List Char :=
  spelling.fill.toList ++ spelling.align.toList ++ spelling.sign.toList ++
    flag '#' spelling.alternate ++ flag '0' spelling.zero ++ spelling.width ++
    spelling.grouping.toList ++ pointed spelling.precision ++ spelling.type.toList

/-- What the grammar allows in each part. -/
structure Proper (spelling : Spelling) : Prop where
  fill : spelling.fill.isSome → spelling.align.isSome
  align : ∀ c ∈ spelling.align, c ∈ ['<', '>', '=', '^']
  sign : ∀ c ∈ spelling.sign, c ∈ ['+', '-', ' ']
  width : ∀ c ∈ spelling.width, c.isDigit
  grouping : ∀ c ∈ spelling.grouping, c ∈ ['_', ',']
  precision : ∀ digits ∈ spelling.precision, digits ≠ [] ∧ ∀ c ∈ digits, c.isDigit
  type : ∀ c ∈ spelling.type,
    c ∈ ['b', 'c', 'd', 'e', 'E', 'f', 'F', 'g', 'G', 'n', 'o', 's', 'x', 'X', '%']

/-- The spelling that is meant: a character before an alignment is the fill, and the first zero is
the flag. -/
structure Meant (spelling : Spelling) : Prop where
  fill : ∀ c align rest, spelling.text = c :: align :: rest → align ∈ ['<', '>', '=', '^'] →
    spelling.fill = some c
  zero : spelling.width.head? = some '0' → spelling.zero = true

def specifier (spelling : Spelling) : Specifier where
  fill := spelling.fill
  align := spelling.align
  sign := spelling.sign
  alternate := spelling.alternate
  zero := spelling.zero
  width := if spelling.width = [] then none else some (size spelling.width)
  grouping := spelling.grouping
  precision := spelling.precision.map size
  type := spelling.type

/-! ## What follows each part -/

def afterGrouping (spelling : Spelling) : List Char :=
  pointed spelling.precision ++ spelling.type.toList

def afterWidth (spelling : Spelling) : List Char :=
  spelling.grouping.toList ++ spelling.afterGrouping

def afterZero (spelling : Spelling) : List Char := spelling.width ++ spelling.afterWidth

def afterAlternate (spelling : Spelling) : List Char :=
  flag '0' spelling.zero ++ spelling.afterZero

def afterSign (spelling : Spelling) : List Char :=
  flag '#' spelling.alternate ++ spelling.afterAlternate

def afterAlign (spelling : Spelling) : List Char := spelling.sign.toList ++ spelling.afterSign

theorem text_eq (spelling : Spelling) :
    spelling.text = spelling.fill.toList ++ spelling.align.toList ++ spelling.afterAlign := by
  simp [text, afterAlign, afterSign, afterAlternate, afterZero, afterWidth, afterGrouping]

variable {spelling : Spelling} {c : Char}

theorem mem_flag {mark : Char} {set : Bool} : c ∈ flag mark set → c = mark := by
  cases set <;> simp [flag]

theorem Proper.mem_afterGrouping (proper : spelling.Proper) (listed : c ∈ spelling.afterGrouping) :
    c.isDigit ∨ c ∈ '.' :: types := by
  rcases List.mem_append.mp listed with precise | typed
  · cases given : spelling.precision with
    | none => simp [given, pointed] at precise
    | some digits =>
        rw [given, pointed, List.mem_cons] at precise
        rcases precise with rfl | digit
        · exact Or.inr List.mem_cons_self
        · exact Or.inl ((proper.precision digits given).2 c digit)
  · exact Or.inr (List.mem_cons_of_mem _ (proper.type c (Option.mem_toList.mp typed)))

theorem Proper.mem_afterWidth (proper : spelling.Proper) (listed : c ∈ spelling.afterWidth) :
    c.isDigit ∨ c ∈ groupings ++ '.' :: types := by
  rcases List.mem_append.mp listed with grouped | later
  · exact Or.inr (List.mem_append_left _ (proper.grouping c (Option.mem_toList.mp grouped)))
  · exact (proper.mem_afterGrouping later).imp_right (List.mem_append_right _)

theorem Proper.mem_afterAlternate (proper : spelling.Proper)
    (listed : c ∈ spelling.afterAlternate) : c.isDigit ∨ c ∈ groupings ++ '.' :: types := by
  rcases List.mem_append.mp listed with flagged | later
  · rw [mem_flag flagged]
    exact Or.inl (by decide)
  · rcases List.mem_append.mp later with digit | later
    · exact Or.inl (proper.width c digit)
    · exact proper.mem_afterWidth later

theorem Proper.mem_afterSign (proper : spelling.Proper) (listed : c ∈ spelling.afterSign) :
    c.isDigit ∨ c ∈ '#' :: groupings ++ '.' :: types := by
  rcases List.mem_append.mp listed with flagged | later
  · rw [mem_flag flagged]
    exact Or.inr (by decide)
  · exact (proper.mem_afterAlternate later).imp_right (List.mem_cons_of_mem _)

theorem Proper.mem_afterAlign (proper : spelling.Proper) (listed : c ∈ spelling.afterAlign) :
    c.isDigit ∨ c ∈ signs ++ ('#' :: groupings ++ '.' :: types) := by
  rcases List.mem_append.mp listed with signed | later
  · exact Or.inr (List.mem_append_left _ (proper.sign c (Option.mem_toList.mp signed)))
  · exact (proper.mem_afterSign later).imp_right (List.mem_append_right _)

theorem mem_head?_append {left right : List Char} (first : c ∈ (left ++ right).head?) :
    c ∈ left ∨ c ∈ right.head? := by
  cases left with
  | nil => exact Or.inr first
  | cons head tail =>
      cases first
      exact Or.inl List.mem_cons_self

theorem Proper.head?_afterWidth (proper : spelling.Proper)
    (first : c ∈ spelling.afterWidth.head?) : c ∈ groupings ++ '.' :: types := by
  rcases mem_head?_append first with grouped | later
  · exact List.mem_append_left _ (proper.grouping c (Option.mem_toList.mp grouped))
  · apply List.mem_append_right
    rcases mem_head?_append later with precise | typed
    · cases given : spelling.precision with
      | none => simp [given, pointed] at precise
      | some digits =>
          rw [afterGrouping, given] at later
          cases later
          exact List.mem_cons_self
    · exact List.mem_cons_of_mem _ (proper.type c
        (Option.mem_toList.mp (List.mem_of_mem_head? typed)))

/-! ## Reading what is spelled -/

end Spelling

variable {text rest : List Char}

theorem number_eq (digits : List Char) :
    number digits = if digits = [] ∨ 2 ^ 64 ≤ size digits then none else some (size digits) := by
  have past : Width.max < size digits ↔ 2 ^ 64 ≤ size digits := by
    unfold Width.max
    omega
  simp only [number, Bool.or_eq_true, List.isEmpty_iff, decide_eq_true_eq, ← past]
  rfl

theorem takeOne_append {wanted : List Char} (found : Option Char)
    (listed : ∀ c ∈ found, c ∈ wanted) (stops : found = none → ∀ c ∈ rest.head?, c ∉ wanted) :
    takeOne wanted (found.toList ++ rest) = (found, rest) := by
  cases found with
  | some c =>
      rw [Option.toList_some, List.singleton_append, takeOne,
        if_pos (List.contains_iff_mem.mpr (listed c rfl))]
  | none =>
      cases rest with
      | nil => rfl
      | cons c rest =>
          have unlisted : ¬ wanted.contains c = true :=
            mt List.contains_iff_mem.mp (stops rfl c rfl)
          rw [Option.toList_none, List.nil_append, takeOne, if_neg unlisted]

theorem takeOne_flag {mark : Char} {set : Bool}
    (stops : set = false → ∀ c ∈ rest.head?, c ≠ mark) :
    takeOne [mark] (Spelling.flag mark set ++ rest) = (if set then some mark else none, rest) := by
  cases set with
  | true => exact takeOne_append (some mark) (by simp) nofun
  | false => exact takeOne_append none nofun (by simpa using stops)

theorem takeAlign_append {fill align : Option Char} (filled : fill.isSome → align.isSome)
    (listed : ∀ c ∈ align, c ∈ alignments) (later : ∀ c ∈ rest, c ∉ alignments) :
    takeAlign (fill.toList ++ align.toList ++ rest) = (fill, align, rest) := by
  have unlisted {c : Char} (among : c ∈ rest) : ¬ alignments.contains c = true :=
    mt List.contains_iff_mem.mp (later c among)
  cases align with
  | some align =>
      have aligned : alignments.contains align = true := List.contains_iff_mem.mpr (listed align rfl)
      cases fill with
      | some fill =>
          simp only [Option.toList_some, List.cons_append, List.nil_append, takeAlign,
            if_pos aligned]
      | none =>
          cases rest with
          | nil =>
              simp only [Option.toList_none, Option.toList_some, List.nil_append, List.append_nil,
                takeAlign, if_pos aligned]
          | cons c rest =>
              simp only [Option.toList_none, Option.toList_some, List.nil_append,
                List.singleton_append, takeAlign, if_neg (unlisted List.mem_cons_self),
                if_pos aligned]
  | none =>
      cases fill with
      | some fill => exact absurd (filled rfl) (by simp)
      | none =>
          match rest with
          | [] => rfl
          | [c] => simp [takeAlign, later]
          | c :: second :: rest => simp [takeAlign, later]

theorem takeNumber_append {digits : List Char} (numeric : ∀ c ∈ digits, c.isDigit)
    (stops : ∀ c ∈ rest.head?, ¬ c.isDigit) :
    takeNumber (digits ++ rest) = (number digits, rest) := by
  have taken : rest.takeWhile Char.isDigit = [] ∧ rest.dropWhile Char.isDigit = rest := by
    cases rest with
    | nil => exact ⟨rfl, rfl⟩
    | cons c rest =>
        have stop : ¬ c.isDigit = true := stops c rfl
        simp [stop]
  rw [takeNumber, List.takeWhile_append_of_pos numeric, List.dropWhile_append_of_pos numeric,
    taken.1, taken.2, List.append_nil]

theorem takePrecision_append {precision : Option (List Char)}
    (numeric : ∀ digits ∈ precision, ∀ c ∈ digits, c.isDigit)
    (stops : ∀ c ∈ rest.head?, ¬ c.isDigit ∧ c ≠ '.') :
    takePrecision (Spelling.pointed precision ++ rest) =
      if precision.all fun digits => (number digits).isSome then some (precision.bind number, rest)
      else none := by
  cases precision with
  | none =>
      rw [Spelling.pointed, List.nil_append, takePrecision]
      · rfl
      · rintro rest rfl
        exact (stops '.' rfl).2 rfl
  | some digits =>
      rw [Spelling.pointed, List.cons_append, takePrecision,
        takeNumber_append (numeric digits rfl) fun c first => (stops c first).1]
      cases counted : number digits <;> simp [counted]

namespace Spelling

variable {spelling : Spelling}

/-- The specifier that is read: a width that leaves a word counts as none. -/
def held (spelling : Spelling) : Specifier :=
  { spelling.specifier with
    width := number spelling.width
    precision := spelling.precision.bind number }

theorem Proper.takeAlign_text (proper : spelling.Proper) :
    takeAlign spelling.text = (spelling.fill, spelling.align, spelling.afterAlign) := by
  have apart : ∀ c ∈ alignments,
      ¬ (c.isDigit ∨ c ∈ signs ++ ('#' :: groupings ++ '.' :: types)) :=
    List.all_iff_forall_prop.mp rfl
  rw [text_eq]
  exact takeAlign_append proper.fill proper.align fun c later aligned =>
    apart c aligned (proper.mem_afterAlign later)

theorem Proper.takeOne_signs (proper : spelling.Proper) :
    takeOne signs spelling.afterAlign = (spelling.sign, spelling.afterSign) := by
  have apart : ∀ c ∈ signs, ¬ (c.isDigit ∨ c ∈ '#' :: groupings ++ '.' :: types) :=
    List.all_iff_forall_prop.mp rfl
  exact takeOne_append _ proper.sign fun _ c first signed =>
    apart c signed (proper.mem_afterSign (List.mem_of_mem_head? first))

theorem Proper.takeOne_alternate (proper : spelling.Proper) :
    takeOne ['#'] spelling.afterSign =
      (if spelling.alternate then some '#' else none, spelling.afterAlternate) := by
  refine takeOne_flag fun _ c first same => ?_
  have later := proper.mem_afterAlternate (List.mem_of_mem_head? first)
  subst same
  revert later
  decide

theorem Proper.takeOne_zero (proper : spelling.Proper) (meant : spelling.Meant) :
    takeOne ['0'] spelling.afterAlternate =
      (if spelling.zero then some '0' else none, spelling.afterZero) := by
  refine takeOne_flag fun unset c first same => ?_
  subst same
  rcases width : spelling.width with - | ⟨digit, digits⟩
  · rw [afterZero, width, List.nil_append] at first
    have later := proper.head?_afterWidth first
    revert later
    decide
  · rw [afterZero, width] at first
    cases first
    have set := meant.zero (by rw [width]; rfl)
    rw [unset] at set
    cases set

theorem Proper.takeNumber_width (proper : spelling.Proper) :
    takeNumber spelling.afterZero = (number spelling.width, spelling.afterWidth) := by
  have apart : ∀ c ∈ groupings ++ '.' :: types, ¬ c.isDigit := List.all_iff_forall_prop.mp rfl
  exact takeNumber_append proper.width fun c first => apart c (proper.head?_afterWidth first)

theorem Proper.takeOne_groupings (proper : spelling.Proper) :
    takeOne groupings spelling.afterWidth = (spelling.grouping, spelling.afterGrouping) := by
  have apart : ∀ c ∈ groupings, ¬ (c.isDigit ∨ c ∈ '.' :: types) :=
    List.all_iff_forall_prop.mp rfl
  exact takeOne_append _ proper.grouping fun _ c first grouped =>
    apart c grouped (proper.mem_afterGrouping (List.mem_of_mem_head? first))

theorem Proper.takePrecision_text (proper : spelling.Proper) :
    takePrecision spelling.afterGrouping =
      if spelling.precision.all fun digits => (number digits).isSome then
        some (spelling.precision.bind number, spelling.type.toList)
      else none := by
  have apart : ∀ c ∈ types, ¬ c.isDigit ∧ c ≠ '.' := List.all_iff_forall_prop.mp rfl
  exact takePrecision_append (fun digits given => (proper.precision digits given).2)
    fun c first => apart c (proper.type c (Option.mem_toList.mp (List.mem_of_mem_head? first)))

theorem Proper.takeOne_types (proper : spelling.Proper) :
    takeOne types spelling.type.toList = (spelling.type, []) := by
  have taken : takeOne types (spelling.type.toList ++ []) = (spelling.type, []) :=
    takeOne_append _ proper.type nofun
  rwa [List.append_nil] at taken

theorem Proper.read?_text (proper : spelling.Proper) (meant : spelling.Meant) {text : String}
    (same : spelling.text = text.toList) :
    read? text = if spelling.precision.all fun digits => (number digits).isSome then
      some spelling.held else none := by
  simp only [read?, ← same, proper.takeAlign_text, proper.takeOne_signs, proper.takeOne_alternate,
    proper.takeOne_zero meant, proper.takeNumber_width, proper.takeOne_groupings,
    proper.takePrecision_text]
  split
  · have set (mark : Char) (flag : Bool) : (if flag then some mark else none).isSome = flag := by
      cases flag <;> rfl
    simp only [proper.takeOne_types, set, Option.bind_eq_bind, Option.bind_some,
      List.isEmpty_nil, if_true, held, specifier]
  · rfl

end Spelling

/-! ## Spelling what is read -/

theorem takeOne_cases {wanted : List Char} {found : Option Char}
    (taken : takeOne wanted text = (found, rest)) :
    text = found.toList ++ rest ∧ (∀ c ∈ found, c ∈ wanted) ∧
      (found = none → ∀ c ∈ rest.head?, c ∉ wanted) := by
  cases text with
  | nil =>
      cases taken
      exact ⟨rfl, nofun, nofun⟩
  | cons c text =>
      rw [takeOne] at taken
      split at taken
      · rename_i listed
        cases taken
        refine ⟨rfl, ?_, nofun⟩
        intro _ same
        cases same
        exact List.contains_iff_mem.mp listed
      · rename_i unlisted
        cases taken
        refine ⟨rfl, nofun, fun _ => ?_⟩
        intro _ same
        cases same
        exact mt List.contains_iff_mem.mpr unlisted

theorem takeFlag_cases {mark : Char} {found : Option Char}
    (taken : takeOne [mark] text = (found, rest)) :
    text = Spelling.flag mark found.isSome ++ rest ∧
      (found.isSome = false → ∀ c ∈ rest.head?, c ≠ mark) := by
  obtain ⟨rfl, listed, stops⟩ := takeOne_cases taken
  cases found with
  | none => exact ⟨rfl, fun _ c first => mt List.mem_singleton.mpr (stops rfl c first)⟩
  | some c =>
      cases List.mem_singleton.mp (listed c rfl)
      exact ⟨rfl, nofun⟩

theorem takeAlign_cases {fill align : Option Char} (taken : takeAlign text = (fill, align, rest)) :
    text = fill.toList ++ align.toList ++ rest ∧ (fill.isSome → align.isSome) ∧
      (∀ c ∈ align, c ∈ alignments) ∧
      (∀ c second tail, text = c :: second :: tail → second ∈ alignments → fill = some c) := by
  unfold takeAlign at taken
  split at taken
  · rename_i first second others
    have next {c other : Char} {tail : List Char} (same : first :: second :: others =
        c :: other :: tail) : c = first ∧ other = second := by
      cases same
      exact ⟨rfl, rfl⟩
    split at taken
    · rename_i aligned
      cases taken
      refine ⟨rfl, fun _ => rfl, ?_, fun c _ _ same _ => congrArg some (next same).1.symm⟩
      intro _ same
      cases same
      exact List.contains_iff_mem.mp aligned
    · rename_i unaligned
      have absent : ∀ c other tail, first :: second :: others = c :: other :: tail →
          other ∉ alignments := by
        intro c other tail same among
        exact unaligned (List.contains_iff_mem.mpr ((next same).2 ▸ among))
      split at taken
      · rename_i aligned
        cases taken
        refine ⟨rfl, nofun, ?_, fun c other tail same among =>
          absurd among (absent c other tail same)⟩
        intro _ same
        cases same
        exact List.contains_iff_mem.mp aligned
      · cases taken
        exact ⟨rfl, nofun, nofun, fun c other tail same among =>
          absurd among (absent c other tail same)⟩
  · split at taken
    · rename_i aligned
      cases taken
      refine ⟨rfl, nofun, ?_, nofun⟩
      intro _ same
      cases same
      exact List.contains_iff_mem.mp aligned
    · cases taken
      exact ⟨rfl, nofun, nofun, nofun⟩
  · cases taken
    exact ⟨rfl, nofun, nofun, nofun⟩

theorem takeNumber_cases {found : Option Nat} (taken : takeNumber text = (found, rest)) :
    ∃ digits, text = digits ++ rest ∧ (∀ c ∈ digits, c.isDigit) ∧ number digits = found := by
  cases taken
  exact ⟨text.takeWhile Char.isDigit, List.takeWhile_append_dropWhile.symm,
    fun _ listed => List.mem_takeWhile_imp listed, rfl⟩

theorem takePrecision_cases {found : Option Nat}
    (taken : takePrecision text = some (found, rest)) :
    ∃ precision, text = Spelling.pointed precision ++ rest ∧
      ∀ digits ∈ precision, digits ≠ [] ∧ ∀ c ∈ digits, c.isDigit := by
  unfold takePrecision at taken
  split at taken
  · split at taken
    · rename_i tail precision other counted
      cases taken
      obtain ⟨digits, rfl, numeric, counts⟩ := takeNumber_cases counted
      refine ⟨some digits, rfl, ?_⟩
      intro _ same
      cases same
      refine ⟨?_, numeric⟩
      rintro rfl
      cases counts
    · cases taken
  · cases taken
    exact ⟨none, rfl, nofun⟩

/-- Nothing of a specifier is skipped, dropped or read twice. -/
theorem exists_spelling {text : String} {found : Specifier} (read : read? text = some found) :
    ∃ spelling : Spelling, spelling.Proper ∧ spelling.Meant ∧ spelling.text = text.toList := by
  unfold read? at read
  rcases aligned : takeAlign text.toList with ⟨fill, align, afterAlign⟩
  rcases signed : takeOne signs afterAlign with ⟨sign, afterSign⟩
  rcases alternated : takeOne ['#'] afterSign with ⟨alternate, afterAlternate⟩
  rcases zeroed : takeOne ['0'] afterAlternate with ⟨zero, afterZero⟩
  rcases widened : takeNumber afterZero with ⟨width, afterWidth⟩
  rcases grouped : takeOne groupings afterWidth with ⟨grouping, afterGrouping⟩
  simp only [aligned, signed, alternated, zeroed, widened, grouped] at read
  obtain ⟨⟨precision, afterPrecision⟩, pointed, last⟩ := Option.bind_eq_some_iff.mp read
  rcases typed : takeOne types afterPrecision with ⟨type, left⟩
  simp only [typed] at last
  split at last
  · rename_i empty
    cases List.isEmpty_iff.mp empty
    obtain ⟨sameText, filled, alignListed, fillMeant⟩ := takeAlign_cases aligned
    obtain ⟨rfl, signListed, -⟩ := takeOne_cases signed
    obtain ⟨rfl, -⟩ := takeFlag_cases alternated
    obtain ⟨rfl, zeroMeant⟩ := takeFlag_cases zeroed
    obtain ⟨digits, rfl, numeric, -⟩ := takeNumber_cases widened
    obtain ⟨rfl, groupingListed, -⟩ := takeOne_cases grouped
    obtain ⟨precision, rfl, precise⟩ := takePrecision_cases pointed
    obtain ⟨rfl, typeListed, -⟩ := takeOne_cases typed
    let spelling : Spelling :=
      ⟨fill, align, sign, alternate.isSome, zero.isSome, digits, grouping, precision, type⟩
    have same : spelling.text = text.toList := by
      simp [sameText, spelling, Spelling.text]
    refine ⟨spelling, ⟨filled, alignListed, signListed, numeric, groupingListed, precise,
      typeListed⟩, ⟨?_, fun first => ?_⟩, same⟩
    · rw [same]
      exact fillMeant
    · by_contra unset
      refine zeroMeant (Bool.eq_false_iff.mpr unset) '0' ?_ rfl
      rw [List.head?_append, Option.mem_def, show digits.head? = some '0' from first]
      rfl
  · cases last

theorem exists_held {text : String} {found : Specifier} (read : read? text = some found) :
    ∃ spelling : Spelling, spelling.Proper ∧ spelling.text = text.toList ∧
      spelling.held = found := by
  obtain ⟨spelling, proper, meant, same⟩ := exists_spelling read
  have again := proper.read?_text meant same
  rw [read] at again
  split at again
  · exact ⟨spelling, proper, same, (Option.some.inj again).symm⟩
  · cases again

theorem read_eq_ok {text : String} {found : Specifier} :
    read text = .ok found ↔ read? text = some found := by
  rw [read]
  cases read? text <;> simp

/-! ## Acceptance -/

namespace Spelling

variable {spelling other : Spelling}

theorem pointed_append_inj {precision given : Option (List Char)} {rest later : List Char}
    (numeric : ∀ digits ∈ precision, ∀ c ∈ digits, c.isDigit)
    (otherNumeric : ∀ digits ∈ given, ∀ c ∈ digits, c.isDigit)
    (stops : ∀ c ∈ rest.head?, ¬ c.isDigit ∧ c ≠ '.')
    (otherStops : ∀ c ∈ later.head?, ¬ c.isDigit ∧ c ≠ '.')
    (same : pointed precision ++ rest = pointed given ++ later) :
    precision = given ∧ rest = later := by
  cases precision with
  | none =>
      cases given with
      | none => exact ⟨rfl, same⟩
      | some digits =>
          rw [pointed, List.nil_append] at same
          exact absurd rfl (stops '.' (by rw [same]; rfl)).2
  | some digits =>
      cases given with
      | none =>
          rw [pointed, pointed, List.nil_append] at same
          exact absurd rfl (otherStops '.' (by rw [← same]; rfl)).2
      | some others =>
          have tails : digits ++ rest = others ++ later := (List.cons.inj same).2
          have digit : ∀ c ∈ digits, ¬ ¬ c.isDigit :=
            fun c listed => not_not.mpr (numeric digits rfl c listed)
          have otherDigit : ∀ c ∈ others, ¬ ¬ c.isDigit :=
            fun c listed => not_not.mpr (otherNumeric others rfl c listed)
          obtain ⟨rfl, ends⟩ := append_inj_of_stops digit otherDigit
            (fun c first => (stops c first).1) (fun c first => (otherStops c first).1) tails
          exact ⟨rfl, ends⟩

/-- A text has one spelling that is meant. -/
theorem Proper.eq_of_text_eq (proper : spelling.Proper) (meant : spelling.Meant)
    (otherProper : other.Proper) (otherMeant : other.Meant) (same : spelling.text = other.text) :
    spelling = other := by
  have flag_inj {mark : Char} {left right : Bool}
      (flags : (if left then some mark else none) = if right then some mark else none) :
      left = right := by
    cases left <;> cases right <;> simp_all
  have typeStops : ∀ c ∈ types, ¬ c.isDigit ∧ c ≠ '.' := List.all_iff_forall_prop.mp rfl
  have aligned := proper.takeAlign_text
  rw [same, otherProper.takeAlign_text, Prod.mk.injEq, Prod.mk.injEq] at aligned
  obtain ⟨fill, align, afterAlign⟩ := aligned
  have signed := proper.takeOne_signs
  rw [← afterAlign, otherProper.takeOne_signs, Prod.mk.injEq] at signed
  obtain ⟨sign, afterSign⟩ := signed
  have alternated := proper.takeOne_alternate
  rw [← afterSign, otherProper.takeOne_alternate, Prod.mk.injEq] at alternated
  obtain ⟨alternate, afterAlternate⟩ := alternated
  have zeroed := proper.takeOne_zero meant
  rw [← afterAlternate, otherProper.takeOne_zero otherMeant, Prod.mk.injEq] at zeroed
  obtain ⟨zero, afterZero⟩ := zeroed
  have widened := proper.takeNumber_width
  rw [← afterZero, otherProper.takeNumber_width, Prod.mk.injEq] at widened
  have width : other.width = spelling.width := by
    rw [Spelling.afterZero, Spelling.afterZero, widened.2] at afterZero
    exact List.append_cancel_right afterZero
  have grouped := proper.takeOne_groupings
  rw [← widened.2, otherProper.takeOne_groupings, Prod.mk.injEq] at grouped
  obtain ⟨grouping, afterGrouping⟩ := grouped
  obtain ⟨precision, typed⟩ := pointed_append_inj
    (fun digits given => (otherProper.precision digits given).2)
    (fun digits given => (proper.precision digits given).2)
    (fun c first => typeStops c
      (otherProper.type c (Option.mem_toList.mp (List.mem_of_mem_head? first))))
    (fun c first => typeStops c
      (proper.type c (Option.mem_toList.mp (List.mem_of_mem_head? first))))
    afterGrouping
  have type : other.type = spelling.type := by
    have taken := proper.takeOne_types
    rw [← typed, otherProper.takeOne_types, Prod.mk.injEq] at taken
    exact taken.1
  have alternateSame := flag_inj alternate
  have zeroSame := flag_inj zero
  cases spelling
  cases other
  simp_all

theorem Proper.fill_meant (proper : spelling.Proper) :
    ∀ c align rest, spelling.text = c :: align :: rest → align ∈ ['<', '>', '=', '^'] →
      spelling.fill = some c :=
  (takeAlign_cases proper.takeAlign_text).2.2.2

theorem Proper.exists_meant (proper : spelling.Proper) :
    ∃ other : Spelling, other.Proper ∧ other.Meant ∧ other.text = spelling.text := by
  by_cases decided : spelling.width.head? = some '0' → spelling.zero = true
  · exact ⟨spelling, proper, ⟨proper.fill_meant, decided⟩, rfl⟩
  · obtain ⟨first, unset⟩ := Classical.not_imp.mp decided
    obtain ⟨digits, width⟩ := List.head?_eq_some_iff.mp first
    let other : Spelling := { spelling with zero := true, width := digits }
    have otherProper : other.Proper :=
      ⟨proper.fill, proper.align, proper.sign,
        fun c listed => proper.width c (width ▸ List.mem_cons_of_mem _ listed), proper.grouping,
        proper.precision, proper.type⟩
    refine ⟨other, otherProper, ⟨otherProper.fill_meant, fun _ => rfl⟩, ?_⟩
    simp [text, other, width, flag, unset]

theorem number_of_fits {digits text : List Char} (fits : Fits text) (inside : digits <:+: text)
    (numeric : ∀ c ∈ digits, c.isDigit) :
    number digits = if digits = [] then none else some (size digits) := by
  have small : ¬ 2 ^ 64 ≤ size digits := Nat.not_le.mpr (fits digits inside numeric)
  simp only [number_eq, small, or_false]

theorem width_within (spelling : Spelling) : spelling.width <:+: spelling.text :=
  ⟨spelling.fill.toList ++ spelling.align.toList ++ spelling.sign.toList ++
    flag '#' spelling.alternate ++ flag '0' spelling.zero, spelling.afterWidth, by
    simp [text, afterWidth, afterGrouping]⟩

theorem precision_within {digits : List Char} (given : spelling.precision = some digits) :
    digits <:+: spelling.text :=
  ⟨spelling.fill.toList ++ spelling.align.toList ++ spelling.sign.toList ++
    flag '#' spelling.alternate ++ flag '0' spelling.zero ++ spelling.width ++
    spelling.grouping.toList ++ ['.'], spelling.type.toList, by simp [text, given, pointed]⟩

theorem Proper.held_of_fits (proper : spelling.Proper) (fits : Fits spelling.text) :
    (spelling.precision.all fun digits => (number digits).isSome) ∧
      spelling.held = spelling.specifier := by
  have width : number spelling.width = spelling.specifier.width :=
    number_of_fits fits spelling.width_within proper.width
  cases given : spelling.precision with
  | none => exact ⟨rfl, by simp [held, width, specifier, given]⟩
  | some digits =>
      obtain ⟨full, numeric⟩ := proper.precision digits given
      have counted : number digits = some (size digits) := by
        rw [number_of_fits fits (precision_within given) numeric, if_neg full]
      exact ⟨by simp [counted], by simp [held, width, specifier, given, counted]⟩

end Spelling

/-- On a text whose numbers fit a word, the reader accepts exactly what the grammar spells, and
answers the parts of the one spelling that is meant. -/
theorem read?_spells {text : String} (fits : Fits text.toList) :
    ((∃ found, read? text = some found) ↔
        ∃ spelling : Spelling, spelling.Proper ∧ spelling.text = text.toList) ∧
      ∀ found, read? text = some found ↔
        ∃ spelling : Spelling, (spelling.Proper ∧ spelling.Meant ∧ spelling.text = text.toList) ∧
          (∀ other : Spelling, other.Proper → other.Meant → other.text = text.toList →
            other = spelling) ∧
          spelling.specifier = found := by
  have reads {spelling : Spelling} (proper : spelling.Proper) (meant : spelling.Meant)
      (same : spelling.text = text.toList) : read? text = some spelling.specifier := by
    obtain ⟨precise, held⟩ := proper.held_of_fits (same ▸ fits)
    rw [proper.read?_text meant same, if_pos precise, held]
  refine ⟨⟨?accepted, ?spelled⟩, fun found => ⟨fun read => ?parts, ?only⟩⟩
  case accepted =>
    intro ⟨found, read⟩
    obtain ⟨spelling, proper, _, same⟩ := exists_spelling read
    exact ⟨spelling, proper, same⟩
  case spelled =>
    intro ⟨spelling, proper, same⟩
    obtain ⟨other, otherProper, meant, sameText⟩ := proper.exists_meant
    exact ⟨_, reads otherProper meant (sameText.trans same)⟩
  case parts =>
    obtain ⟨spelling, proper, meant, same⟩ := exists_spelling read
    refine ⟨spelling, ⟨proper, meant, same⟩, fun other otherProper otherMeant otherSame =>
      otherProper.eq_of_text_eq otherMeant proper meant (otherSame.trans same.symm), ?_⟩
    exact Option.some.inj ((reads proper meant same).symm.trans read)
  case only =>
    intro ⟨spelling, ⟨proper, meant, same⟩, _, found⟩
    rw [reads proper meant same, found]

theorem size_lt {digits : List Char} (numeric : ∀ c ∈ digits, c.isDigit) :
    size digits < 10 ^ digits.length := by
  induction digits with
  | nil => decide
  | cons c digits ih =>
      have digit : c.toNat - '0'.toNat + 1 ≤ 10 := by
        have bounds := Char.isDigit_iff_toNat.mp (numeric c List.mem_cons_self)
        have nine : '9'.toNat = '0'.toNat + 9 := rfl
        omega
      have later := ih fun c listed => numeric c (List.mem_cons_of_mem _ listed)
      rw [size, Nat.ofDigitChars_cons, Nat.mul_zero, Nat.zero_add,
        Nat.ofDigitChars_eq_ofDigitChars_zero, List.length_cons, Nat.pow_succ]
      calc 10 ^ digits.length * (c.toNat - '0'.toNat) + size digits
          < 10 ^ digits.length * (c.toNat - '0'.toNat) + 10 ^ digits.length :=
            Nat.add_lt_add_left later _
        _ = 10 ^ digits.length * (c.toNat - '0'.toNat + 1) := by rw [Nat.mul_succ]
        _ ≤ 10 ^ digits.length * 10 := Nat.mul_le_mul_left _ digit

theorem fits_of_length_le {text : List Char} (short : text.length ≤ 19) : Fits text := by
  intro run inside numeric
  calc size run < 10 ^ run.length := size_lt numeric
    _ ≤ 10 ^ 19 := Nat.pow_le_pow_right (by decide) (inside.length_le.trans short)
    _ < 2 ^ 64 := by decide

/-- A digit before the alignment is the fill, and the first of three zeros is the flag. -/
theorem read?_spells_everyPart :
    Fits "0^+#00012_.3x".toList ∧ read? "0^+#00012_.3x" = some
      { fill := some '0', align := some '^', sign := some '+', alternate := true, zero := true
        width := some 12, grouping := some '_', precision := some 3, type := some 'x' } := by
  have fits : Fits "0^+#00012_.3x".toList := fits_of_length_le (by decide)
  let spelling : Spelling :=
    ⟨some '0', some '^', some '+', true, true, ['0', '0', '1', '2'], some '_', some ['3'], some 'x'⟩
  have proper : spelling.Proper :=
    ⟨fun _ => rfl, by simp [spelling], by simp [spelling], by simp [spelling], by simp [spelling],
      by simp [spelling], by simp [spelling]⟩
  have meant : spelling.Meant := ⟨proper.fill_meant, fun _ => rfl⟩
  exact ⟨fits, ((read?_spells fits).2 _).mpr ⟨spelling, ⟨proper, meant, rfl⟩,
    fun other otherProper otherMeant same => otherProper.eq_of_text_eq otherMeant proper meant same,
    rfl⟩⟩

end Gateware.Format.Specifier
