import Gateware.Format.Literal
import Gateware.Proofs.Format.Grammar
import Gateware.Proofs.Session
import Gateware.Proofs.Text.Numeral

/-!
# Integers as they are printed

The text of an integer is a layout: a sign, the mark of a radix and a body, with one run of fill
where the alignment wants it.  The body is the numeral of the magnitude, with separators between
groups of digits.
-/

set_option autoImplicit false

namespace Gateware.Format

/-! ## Groups of digits -/

/-- Counted from the right, a separator stands after every `size` characters, and nowhere else. -/
def Separated (separator : Char) (size : Nat) (body : List Char) : Prop :=
  ∀ place c, body.reverse[place]? = some c → (c = separator ↔ place % (size + 1) = size)

/-- Separators stand before every group of digits but the first. -/
structure Grouped (separator : Char) (size : Nat) (body : List Char) : Prop where
  separated : Separated separator size body
  front : body.head? ≠ some separator

variable {separator c : Char} {size : Nat} {body digits : List Char}

theorem Separated.cons (later : Separated separator size body)
    (here : c = separator ↔ body.length % (size + 1) = size) :
    Separated separator size (c :: body) := by
  intro place other found
  rw [List.reverse_cons, List.getElem?_append] at found
  split at found
  · exact later place other found
  · rename_i outside
    obtain ⟨inside, same⟩ := List.getElem?_eq_some_iff.mp found
    have last : place = body.length := by
      rw [List.length_reverse] at outside inside
      rw [List.length_singleton] at inside
      omega
    subst last
    rw [List.getElem_singleton] at same
    rwa [← same]

theorem length_group :
    (group separator size digits).length = digits.length + (digits.length - 1) / size := by
  induction digits with
  | nil => simp [group]
  | cons digit rest ih =>
      cases rest with
      | nil => simp [group]
      | cons second rest =>
          -- A separator is added exactly where the quotient goes up.
          have step : (rest.length + 1) / size =
              rest.length / size + if (rest.length + 1) % size = 0 then 1 else 0 := by
            rw [Nat.succ_div]
            simp only [Nat.dvd_iff_mod_eq_zero]
          rw [group]
          · split
            all_goals
              rename_i ends
              simp only [List.length_cons, Nat.add_sub_cancel] at ih ends ⊢
              simp only [step, ends, if_true, if_false, ih]
              omega
          · simp

theorem filter_group (absent : separator ∉ digits) :
    (group separator size digits).filter (fun c => c ≠ separator) = digits := by
  fun_induction group separator size digits with
  | case1 => rfl
  | case2 last => simpa using Ne.symm (List.ne_of_not_mem_cons absent)
  | case3 digit rest _ _ ih =>
      have here : digit ≠ separator := Ne.symm (List.ne_of_not_mem_cons absent)
      simpa [here] using ih (List.not_mem_of_not_mem_cons absent)
  | case4 digit rest _ _ ih =>
      have here : digit ≠ separator := Ne.symm (List.ne_of_not_mem_cons absent)
      simpa [here] using ih (List.not_mem_of_not_mem_cons absent)

theorem head?_group : (group separator size digits).head? = digits.head? := by
  fun_cases group separator size digits <;> rfl

/-- The place before `count` digits in their groups. -/
theorem place_group {count : Nat} (full : 0 < count) (positive : 0 < size) :
    (count + (count - 1) / size) % (size + 1) = size ↔ count % size = 0 := by
  obtain ⟨before, rfl⟩ : ∃ before, count = before + 1 := ⟨count - 1, by omega⟩
  have small : before % size < size := Nat.mod_lt _ positive
  have place : (before + 1 + before / size) % (size + 1) = before % size + 1 := by
    have split : before + 1 + before / size =
        (before % size + 1) + (size + 1) * (before / size) := by
      have parts := Nat.div_add_mod before size
      rw [Nat.add_mul, Nat.one_mul]
      omega
    rw [split, Nat.add_mul_mod_self_left, Nat.mod_eq_of_lt (by omega)]
  rw [Nat.add_sub_cancel, place, ← Nat.mod_add_mod]
  by_cases last : before % size + 1 = size
  · simp [last]
  · have within : before % size + 1 < size := by omega
    rw [Nat.mod_eq_of_lt within]
    omega

theorem grouped_group (positive : 0 < size) (absent : separator ∉ digits) :
    Grouped separator size (group separator size digits) := by
  refine ⟨?separated, ?front⟩
  case separated =>
    fun_induction group separator size digits with
    | case1 => exact nofun
    | case2 last =>
        have here : last ≠ separator := Ne.symm (List.ne_of_not_mem_cons absent)
        have nothing : Separated separator size [] := nofun
        exact nothing.cons (by simp [here, positive.ne])
    | case3 digit rest many ends ih =>
        have here : digit ≠ separator := Ne.symm (List.ne_of_not_mem_cons absent)
        have later := ih (List.not_mem_of_not_mem_cons absent)
        have full : 0 < rest.length := List.length_pos_iff.mpr many
        have place := (place_group full positive).mpr ends
        have length : (group separator size rest).length =
            rest.length + (rest.length - 1) / size := length_group
        rw [← length] at place
        -- The digit before the separator starts the next group.
        refine (later.cons (iff_of_true rfl place)).cons (iff_of_false here ?_)
        rw [List.length_cons, ← Nat.mod_add_mod, place, Nat.mod_self]
        exact positive.ne
    | case4 digit rest many goes ih =>
        have here : digit ≠ separator := Ne.symm (List.ne_of_not_mem_cons absent)
        have later := ih (List.not_mem_of_not_mem_cons absent)
        have full : 0 < rest.length := List.length_pos_iff.mpr many
        refine later.cons (iff_of_false here ?_)
        rw [length_group]
        exact mt (place_group full positive).mp goes
  case front =>
    rw [head?_group]
    exact fun first => absent (List.mem_of_mem_head? first)

/-! ## Fill -/

/-- The fill that an alignment puts on the left, in the middle and on the right. -/
inductive Spread : Char → Nat → Nat → Nat → Prop
  | after (count : Nat) : Spread '<' 0 0 count
  | before (count : Nat) : Spread '>' count 0 0
  | between (count : Nat) : Spread '=' 0 count 0
  | around {left right : Nat} (smaller : left ≤ right) (halves : right ≤ left + 1) :
      Spread '^' left 0 right

theorem exists_spread_pad {align : Char} (listed : align ∈ Specifier.alignments)
    (mark body : String) (fill : Char) (width : Option Nat) :
    ∃ left middle right, Spread align left middle right ∧
      left + middle + right = width.getD 0 - (mark.length + body.length) ∧
      (pad mark body fill align width).toList =
        List.replicate left fill ++ mark.toList ++ List.replicate middle fill ++ body.toList ++
          List.replicate right fill := by
  generalize missing : width.getD 0 - (mark.length + body.length) = count
  simp only [Specifier.alignments, List.mem_cons, List.not_mem_nil, or_false] at listed
  rcases listed with rfl | rfl | rfl | rfl
  · exact ⟨0, 0, count, .after count, by simp, by simp [pad, Text.fill, missing]⟩
  · exact ⟨count, 0, 0, .before count, by simp, by simp [pad, Text.fill, missing]⟩
  · exact ⟨0, count, 0, .between count, by simp, by simp [pad, Text.fill, missing]⟩
  · exact ⟨count / 2, 0, count - count / 2, .around (by omega) (by omega), by omega,
      by simp [pad, Text.fill, missing]⟩

/-- The parts of the text of an integer, with the amounts of fill between them. -/
structure Layout where
  left : Nat
  sign : List Char
  mark : List Char
  middle : Nat
  body : List Char
  right : Nat

def Layout.text (fill : Char) (layout : Layout) : List Char :=
  List.replicate layout.left fill ++ (layout.sign ++ layout.mark) ++
    List.replicate layout.middle fill ++ layout.body ++ List.replicate layout.right fill

def Layout.bare (layout : Layout) : List Char := layout.sign ++ layout.mark ++ layout.body

theorem Layout.length_text (fill : Char) (layout : Layout) :
    (layout.text fill).length =
      layout.left + layout.middle + layout.right + layout.bare.length := by
  simp only [text, bare, List.length_append, List.length_replicate]
  omega

/-! ## Integers -/

/-- How a type of a specifier writes magnitudes. -/
structure Numbering where
  radix : Nat
  mark : List Char := []
  upper : Bool := false

def numbering? : Option Char → Option Numbering
  | none | some 'd' | some 'n' => some { radix := 10 }
  | some 'b' => some { radix := 2, mark := ['0', 'b'] }
  | some 'o' => some { radix := 8, mark := ['0', 'o'] }
  | some 'x' => some { radix := 16, mark := ['0', 'x'] }
  | some 'X' => some { radix := 16, mark := ['0', 'X'], upper := true }
  | some _ => none

def Numbering.groupSize (numbering : Numbering) : Nat := if numbering.radix = 10 then 3 else 4

namespace Specifier

/-- The fill in force: that of the zero flag, unless an alignment is given. -/
def filler (specifier : Specifier) : Char :=
  if specifier.zero && specifier.align.isNone then '0' else specifier.fill.getD ' '

def alignment (specifier : Specifier) : Char :=
  if specifier.zero && specifier.align.isNone then '=' else specifier.align.getD '>'

end Specifier

/-- A layout is that of an integer under a specifier. -/
structure Renders (value : Int) (specifier : Specifier) (numbering : Numbering)
    (layout : Layout) : Prop where
  negative : layout.sign = ['-'] ↔ value < 0
  positive : 0 ≤ value → layout.sign = (specifier.sign.filter fun c => c ≠ '-').toList
  mark : layout.mark = if specifier.alternate then numbering.mark else []
  numerates : Text.Numerates numbering.radix value.natAbs numbering.upper
    (layout.body.filter fun c => some c ≠ specifier.grouping)
  grouped : ∀ separator ∈ specifier.grouping,
    Grouped separator numbering.groupSize layout.body
  count : (layout.text specifier.filler).length =
    max (specifier.width.getD 0) layout.bare.length
  spread : Spread specifier.alignment layout.left layout.middle layout.right

variable {value : Int} {text : String} {specifier : Specifier} {numbering : Numbering}
  {type : Option Char}

theorem style_of_numbering (numbered : numbering? type = some numbering) :
    intStyle? (type.getD 'd') =
        some (.numeral numbering.radix (String.ofList numbering.mark)) ∧
      decide (type.getD 'd' = 'X') = numbering.upper ∧
      1 < numbering.radix ∧ numbering.radix ≤ 16 := by
  unfold numbering? at numbered
  split at numbered <;> cases numbered <;>
    exact ⟨rfl, by decide, by decide, by decide⟩

theorem numerates_not_mem {radix n : Nat} {upper : Bool} (short : radix ≤ 16)
    (numerates : Text.Numerates radix n upper digits)
    (listed : separator ∈ Specifier.groupings) : separator ∉ digits := by
  have apart : ∀ place < 16, ∀ upper, Text.digitOf upper place ∉ Specifier.groupings := by decide
  obtain ⟨places, known, rfl⟩ := numerates
  intro among
  obtain ⟨place, found, rfl⟩ := List.mem_map.mp among
  exact apart place ((known.small place found).trans_le short) upper listed

theorem digitText_spec (numbered : numbering? type = some numbering) (n : Nat)
    {grouping : Option Char} (listed : ∀ c ∈ grouping, c ∈ Specifier.groupings) :
    let body := (digitText numbering.radix n numbering.upper grouping).toList
    Text.Numerates numbering.radix n numbering.upper (body.filter fun c => some c ≠ grouping) ∧
      ∀ separator ∈ grouping, Grouped separator numbering.groupSize body := by
  obtain ⟨_, _, proper, short⟩ := style_of_numbering numbered
  obtain ⟨digits, numerates, same⟩ : ∃ digits,
      Text.Numerates numbering.radix n numbering.upper digits ∧
        (if numbering.upper then (Nat.toDigits numbering.radix n).map Char.toUpper
          else Nat.toDigits numbering.radix n) = digits := by
    cases numbering.upper
    · exact ⟨_, Text.numerates_toDigits proper short, rfl⟩
    · exact ⟨_, Text.numerates_toUpper proper short, rfl⟩
  simp only [digitText, same, String.toList_ofList]
  cases grouping with
  | none => exact ⟨by simpa using numerates, nofun⟩
  | some separator =>
      have absent := numerates_not_mem short numerates (listed separator rfl)
      have positive : 0 < numbering.groupSize := by
        unfold Numbering.groupSize
        split <;> decide
      refine ⟨?_, fun other same => ?_⟩
      · have kept : (group separator numbering.groupSize digits).filter (fun c => c ≠ separator) =
            digits := filter_group absent
        simp only [ne_eq, Option.some.injEq] at kept ⊢
        rw [Numbering.groupSize] at kept
        rwa [kept]
      · cases same
        exact grouped_group positive absent

theorem intText_eq (read : Specifier.read? text = some specifier)
    (numbered : numbering? specifier.type = some numbering) (value : Int) :
    intText value text =
      if specifier.precision.isSome then .error .integerPrecision
      else if specifier.grouping = some ',' ∧ numbering.radix ≠ 10 then
        .error (.groupedType ',' (specifier.type.getD 'd'))
      else .ok (pad
        (signText (value < 0) specifier.sign ++
          if specifier.alternate then String.ofList numbering.mark else "")
        (digitText numbering.radix value.natAbs numbering.upper specifier.grouping)
        specifier.filler specifier.alignment specifier.width) := by
  obtain ⟨style, upper, _⟩ := style_of_numbering numbered
  have ends (mark body : String) :
      (if specifier.zero && specifier.align.isNone then
        (pure (pad mark body '0' '=' specifier.width) : Except Fault String)
      else pure (pad mark body (specifier.fill.getD ' ') (specifier.align.getD '>')
        specifier.width)) =
      .ok (pad mark body specifier.filler specifier.alignment specifier.width) := by
    unfold Specifier.filler Specifier.alignment
    split <;> rfl
  rw [intText, Specifier.read_eq_ok.mpr read]
  simp only [bind, Except.bind, style, upper, ends]
  split
  · rfl
  · simp only [pure, Except.pure, mayGroup]
    cases grouping : specifier.grouping with
    | none => rfl
    | some separator =>
        by_cases commas : separator = ','
        · subst commas
          by_cases decimal : numbering.radix = 10
          · simp [decimal]
          · simp [decimal, throw, throwThe, MonadExceptOf.throw]
        · simp [commas]

theorem alignment_mem (aligned : ∀ c ∈ specifier.align, c ∈ Specifier.alignments) :
    specifier.alignment ∈ Specifier.alignments := by
  unfold Specifier.alignment
  split
  · decide
  · cases align : specifier.align with
    | none => decide
    | some c => exact aligned c align

theorem sign_spec {sign : Option Char} (listed : ∀ c ∈ sign, c ∈ Specifier.signs) (value : Int) :
    ((signText (value < 0) sign).toList = ['-'] ↔ value < 0) ∧
      (0 ≤ value → (signText (value < 0) sign).toList =
        (sign.filter fun c => c ≠ '-').toList) := by
  by_cases negative : value < 0
  · have minus : signText true sign = "-" := if_pos rfl
    simp only [negative, decide_true, minus]
    exact ⟨by decide, fun positive => absurd positive (Int.not_le.mpr negative)⟩
  · have shown : (signText false sign).toList = (sign.filter fun c => c ≠ '-').toList := by
      cases sign with
      | none => rfl
      | some c =>
          have among := listed c rfl
          simp only [Specifier.signs, List.mem_cons, List.not_mem_nil, or_false] at among
          rcases among with rfl | rfl | rfl <;> decide
    rw [decide_eq_false negative, shown]
    refine ⟨iff_of_false (fun same => ?_) negative, fun _ => rfl⟩
    have kept : '-' ∈ (sign.filter fun c => c ≠ '-').toList := same ▸ List.mem_singleton_self _
    simp at kept

theorem exists_renders_pad (numbered : numbering? specifier.type = some numbering)
    (aligned : ∀ c ∈ specifier.align, c ∈ Specifier.alignments)
    (signed : ∀ c ∈ specifier.sign, c ∈ Specifier.signs)
    (grouped : ∀ c ∈ specifier.grouping, c ∈ Specifier.groupings) (value : Int) :
    ∃ layout : Layout, Renders value specifier numbering layout ∧
      (pad
        (signText (value < 0) specifier.sign ++
          if specifier.alternate then String.ofList numbering.mark else "")
        (digitText numbering.radix value.natAbs numbering.upper specifier.grouping)
        specifier.filler specifier.alignment specifier.width).toList =
        layout.text specifier.filler := by
  generalize marked : signText (value < 0) specifier.sign ++
    (if specifier.alternate then String.ofList numbering.mark else "") = mark
  generalize written :
    digitText numbering.radix value.natAbs numbering.upper specifier.grouping = body
  obtain ⟨left, middle, right, spread, missing, laid⟩ := exists_spread_pad
    (alignment_mem aligned) mark body specifier.filler specifier.width
  obtain ⟨numerates, separated⟩ := digitText_spec numbered value.natAbs grouped
  obtain ⟨negative, positive⟩ := sign_spec signed value
  have marking : (if specifier.alternate then String.ofList numbering.mark else "").toList =
      if specifier.alternate then numbering.mark else [] := by
    cases specifier.alternate
    · rfl
    · exact String.toList_ofList
  let layout : Layout :=
    { left, middle, right
      sign := (signText (value < 0) specifier.sign).toList
      mark := if specifier.alternate then numbering.mark else []
      body := body.toList }
  have marks : mark.toList = layout.sign ++ layout.mark := by
    rw [← marked, String.toList_append, marking]
  have bare : layout.bare.length = mark.length + body.length := by
    rw [Layout.bare, ← marks, List.length_append]
    rfl
  rw [written] at numerates separated
  refine ⟨layout, ⟨negative, positive, rfl, numerates, separated, ?count, spread⟩, ?laid⟩
  case count =>
    rw [layout.length_text, bare, missing]
    omega
  case laid => rw [laid, marks, Layout.text]

/-- An integer is printed under every specifier of a numeric type, unless that asks for a precision
or for commas in a radix other than ten, and then as the layout of the integer. -/
theorem intText_renders (read : Specifier.read? text = some specifier)
    (numbered : numbering? specifier.type = some numbering) :
    ((∃ out, intText value text = .ok out) ↔
        specifier.precision = none ∧ (specifier.grouping = some ',' → numbering.radix = 10)) ∧
      ∀ out, intText value text = .ok out →
        ∃ layout : Layout, out.toList = layout.text specifier.filler ∧
          Renders value specifier numbering layout := by
  have written := intText_eq read numbered value
  refine ⟨?accepted, fun out printed => ?rendered⟩
  case accepted =>
    rw [written]
    cases precision : specifier.precision with
    | some digits => simp
    | none =>
        by_cases commas : specifier.grouping = some ',' ∧ numbering.radix ≠ 10
        · simp [commas]
        · have decimal : specifier.grouping = some ',' → numbering.radix = 10 := fun asked =>
            by_contra fun other => commas ⟨asked, other⟩
          simpa [commas] using decimal
  case rendered =>
    obtain ⟨spelling, proper, _, held⟩ := Specifier.exists_held read
    have aligned : ∀ c ∈ specifier.align, c ∈ Specifier.alignments := held ▸ proper.align
    have signed : ∀ c ∈ specifier.sign, c ∈ Specifier.signs := held ▸ proper.sign
    have grouped : ∀ c ∈ specifier.grouping, c ∈ Specifier.groupings := held ▸ proper.grouping
    obtain ⟨layout, renders, laid⟩ := exists_renders_pad numbered aligned signed grouped value
    rw [written] at printed
    split at printed
    · cases printed
    · split at printed
      · cases printed
      · cases printed
        exact ⟨layout, laid, renders⟩

/-- Two of five stars go to the left of the grouped numeral. -/
theorem intText_renders_centred :
    Specifier.read? "*^15," =
        some { fill := some '*', align := some '^', width := some 15, grouping := some ',' } ∧
      ∃ layout : Layout, "**-1,234,567***".toList = layout.text '*' ∧
        Renders (-1234567)
          { fill := some '*', align := some '^', width := some 15, grouping := some ',' }
          { radix := 10 } layout := by
  have read : Specifier.read? "*^15," =
      some { fill := some '*', align := some '^', width := some 15, grouping := some ',' } := rfl
  have printed : intText (-1234567) "*^15," = .ok "**-1,234,567***" := rfl
  exact ⟨read, (intText_renders read rfl).2 _ printed⟩

end Gateware.Format
