import Mathlib.Data.Bool.AllAny
import Gateware.Proofs.Text.Numeral
import Gateware.Text.Quoted

/-!
# Reading quoted texts

A string literal is read from its first character, the delimiter, to the next one that no escape
takes.  Every quoted text is read so, as the text that was quoted, and what is missing its end is
not read at all.
-/

set_option autoImplicit false

namespace Gateware.Text

/-! ## Reading string literals -/

/-- The character that a letter after a backslash stands for by itself. -/
def plainEscape? : Char → Option Char
  | '\\' => some '\\'
  | 'n' => some '\n'
  | 'r' => some '\r'
  | 't' => some '\t'
  | '\x27' => some singleQuote
  | '\x22' => some doubleQuote
  | _ => none

/-- The number of hexadecimal digits that a letter after a backslash asks for. -/
def codeLength? : Char → Option Nat
  | 'x' => some 2
  | 'u' => some 4
  | 'U' => some 8
  | _ => none

def coded? (digits : List Char) : Option Char := do
  let places ← digits.mapM hexDigit?
  let code := Nat.ofDigits 16 places.reverse
  if code.isValidChar then some (Char.ofNat code) else none

/-- The character of an escape whose backslash was taken, and what follows it. -/
def readEscape : List Char → Option (Char × List Char)
  | [] => none
  | letter :: rest =>
      match plainEscape? letter with
      | some c => some (c, rest)
      | none => do
          let length ← codeLength? letter
          if length ≤ rest.length then
            (coded? (rest.take length)).map fun c => (c, rest.drop length)
          else none

def readChar : List Char → Option (Char × List Char)
  | [] => none
  | c :: rest => if c = '\\' then readEscape rest else some (c, rest)

variable {mark c : Char} {text rest : List Char}

theorem readEscape_length_lt (read : readEscape text = some (c, rest)) :
    rest.length < text.length := by
  cases text with
  | nil => cases read
  | cons letter text =>
      rw [readEscape] at read
      split at read
      · cases read
        exact Nat.lt_succ_self _
      · obtain ⟨length, _, read⟩ := Option.bind_eq_some_iff.mp read
        split at read
        · obtain ⟨_, _, same⟩ := Option.map_eq_some_iff.mp read
          cases same
          rw [List.length_drop, List.length_cons]
          omega
        · cases read

theorem readChar_length_lt (read : readChar text = some (c, rest)) :
    rest.length < text.length := by
  cases text with
  | nil => cases read
  | cons first text =>
      rw [readChar] at read
      split at read
      · exact (readEscape_length_lt read).trans (Nat.lt_succ_self _)
      · cases read
        exact Nat.lt_succ_self _

/-- The content of a literal up to its closing delimiter, and what follows that. -/
def readBody (mark : Char) (text : List Char) : Option (List Char × List Char) :=
  if text.head? = some mark then some ([], text.tail)
  else match _ : readChar text with
    | none => none
    | some (c, rest) => (readBody mark rest).map fun (content, later) => (c :: content, later)
termination_by text.length
decreasing_by exact readChar_length_lt ‹_›

/-- A literal at the start of a text, whose delimiter is a quote, and what follows it. -/
def readLiteral : List Char → Option (List Char × List Char)
  | [] => none
  | mark :: text =>
      if mark = singleQuote ∨ mark = doubleQuote then readBody mark text else none

theorem readBody_mark : readBody mark (mark :: rest) = some ([], rest) := by
  rw [readBody]
  exact if_pos rfl

theorem readBody_of_readChar (inside : text.head? ≠ some mark)
    (read : readChar text = some (c, rest)) :
    readBody mark text =
      (readBody mark rest).map fun (content, later) => (c :: content, later) := by
  rw [readBody, if_neg inside]
  split
  · rename_i failed
    rw [read] at failed
    cases failed
  · rename_i again
    rw [read] at again
    cases again
    rfl

/-! ## What is read goes on with what follows -/

theorem readEscape_append (read : readEscape text = some (c, rest)) (more : List Char) :
    readEscape (text ++ more) = some (c, rest ++ more) := by
  cases text with
  | nil => cases read
  | cons letter text =>
      rw [List.cons_append, readEscape]
      rw [readEscape] at read
      split at read
      · cases read
        rfl
      · obtain ⟨length, asked, read⟩ := Option.bind_eq_some_iff.mp read
        split at read
        · rename_i inside
          obtain ⟨_, coded, same⟩ := Option.map_eq_some_iff.mp read
          cases same
          refine Option.bind_eq_some_iff.mpr ⟨length, asked, ?_⟩
          have further : length ≤ (text ++ more).length := by
            rw [List.length_append]
            omega
          rw [if_pos further, List.take_append_of_le_length inside, coded,
            List.drop_append_of_le_length inside]
          rfl
        · cases read

theorem readChar_append (read : readChar text = some (c, rest)) (more : List Char) :
    readChar (text ++ more) = some (c, rest ++ more) := by
  cases text with
  | nil => cases read
  | cons first text =>
      rw [List.cons_append, readChar]
      rw [readChar] at read
      by_cases slash : first = '\\'
      · rw [if_pos slash] at read ⊢
        exact readEscape_append read more
      · rw [if_neg slash] at read ⊢
        cases read
        rfl

theorem readBody_append {content : List Char} (read : readBody mark text = some (content, rest))
    (more : List Char) : readBody mark (text ++ more) = some (content, rest ++ more) := by
  -- The induction follows the reader, so `rest` and `content` change with the text.
  induction text using readBody.induct mark generalizing content rest with
  | case1 text ends =>
      obtain ⟨later, rfl⟩ := List.head?_eq_some_iff.mp ends
      rw [readBody_mark] at read
      cases read
      exact readBody_mark
  | case2 text inside failed =>
      rw [readBody, if_neg inside] at read
      split at read
      · cases read
      · rename_i found
        rw [failed] at found
        cases found
  | case3 text inside c later found ih =>
      rw [readBody_of_readChar inside found] at read
      obtain ⟨⟨tail, _⟩, body, same⟩ := Option.map_eq_some_iff.mp read
      cases same
      have still : (text ++ more).head? ≠ some mark := by
        cases text with
        | nil => cases found
        | cons => exact inside
      rw [readBody_of_readChar still (readChar_append found more), ih body]
      rfl

theorem readLiteral_append {content : List Char} (read : readLiteral text = some (content, rest))
    (more : List Char) : readLiteral (text ++ more) = some (content, rest ++ more) := by
  cases text with
  | nil => cases read
  | cons mark text =>
      rw [List.cons_append, readLiteral]
      rw [readLiteral] at read
      by_cases quoted : mark = singleQuote ∨ mark = doubleQuote
      · rw [if_pos quoted] at read ⊢
        exact readBody_append read more
      · rw [if_neg quoted] at read
        cases read

theorem readLiteral_of_prefix {content part : List Char}
    (whole : readLiteral text = some (content, [])) (starts : part <+: text)
    (proper : part ≠ text) : readLiteral part = none := by
  cases read : readLiteral part with
  | none => rfl
  | some found =>
      obtain ⟨more, rfl⟩ := starts
      obtain ⟨early, left⟩ := found
      -- Read with the missing end, the part leaves that end over, but the whole leaves nothing.
      have again := (readLiteral_append read more).symm.trans whole
      have none : left ++ more = [] := congrArg Prod.snd (Option.some.inj again)
      rw [(List.append_eq_nil_iff.mp none).2, List.append_nil] at proper
      exact absurd rfl proper

/-! ## Reading what is escaped -/

theorem exists_hexEscape {code : Nat} (fits : code < 16 ^ 8) :
    ∃ letter width, hexEscape code =
        '\\' :: letter :: (padLeft '0' width (numeral 16 code)).toList ∧
      letter ∈ ['x', 'u', 'U'] ∧ codeLength? letter = some width ∧ 0 < width ∧
      code < 16 ^ width := by
  unfold hexEscape
  split
  · exact ⟨'x', 2, rfl, by decide, rfl, by decide, by omega⟩
  · split
    · exact ⟨'u', 4, rfl, by decide, rfl, by decide, by omega⟩
    · exact ⟨'U', 8, rfl, by decide, rfl, by decide, fits⟩

theorem toNat_lt (c : Char) : c.toNat < 16 ^ 8 := by
  have bounds : c.toNat < 0xd800 ∨ 0xdfff < c.toNat ∧ c.toNat < 0x110000 := c.valid
  omega

theorem coded?_padLeft (c : Char) (width : Nat) :
    coded? (padLeft '0' width (numeral 16 c.toNat)).toList = some c := by
  obtain ⟨places, small, value, digits⟩ :=
    exists_paddedPlaces (by decide : 1 < 16) width c.toNat
  have valid : c.toNat.isValidChar := c.valid
  rw [coded?, digits, mapM_hexDigit? small, Option.bind_eq_bind, Option.bind_some, value,
    if_pos valid, Char.ofNat_toNat]

theorem readEscape_code {letter : Char} {digits : List Char} (common : plainEscape? letter = none)
    (asked : codeLength? letter = some digits.length) (rest : List Char) :
    readEscape (letter :: (digits ++ rest)) = (coded? digits).map fun c => (c, rest) := by
  have inside : digits.length ≤ (digits ++ rest).length := by
    rw [List.length_append]
    omega
  rw [readEscape, common, asked, Option.bind_eq_bind, Option.bind_some, if_pos inside,
    List.take_left, List.drop_left]

theorem readChar_hexEscape (c : Char) (rest : List Char) :
    readChar (hexEscape c.toNat ++ rest) = some (c, rest) := by
  obtain ⟨letter, width, escaped, letters, asked, positive, fits⟩ := exists_hexEscape (toNat_lt c)
  have length := length_padLeft_numeral (by decide) positive fits
  have coded := coded?_padLeft c width
  have uncommon : ∀ letter ∈ ['x', 'u', 'U'], plainEscape? letter = none :=
    List.all_iff_forall_prop.mp rfl
  rw [escaped, List.cons_append, List.cons_append, readChar, if_pos rfl,
    readEscape_code (uncommon letter letters) (length.symm ▸ asked), coded]
  rfl

theorem readChar_escapeChar (asciiOnly : Bool) (quoted : mark = singleQuote ∨ mark = doubleQuote)
    (c : Char) (rest : List Char) :
    readChar (escapeChar asciiOnly mark c ++ rest) = some (c, rest) := by
  unfold escapeChar
  split_ifs with slash feed carriage tab delimits hidden
  · rw [slash]
    rfl
  · rw [feed]
    rfl
  · rw [carriage]
    rfl
  · rw [tab]
    rfl
  · rw [delimits]
    rcases quoted with rfl | rfl <;> rfl
  · exact readChar_hexEscape c rest
  · rw [List.singleton_append, readChar, if_neg slash]

theorem head?_escapeChar (asciiOnly : Bool) (quoted : mark = singleQuote ∨ mark = doubleQuote)
    (c : Char) (rest : List Char) :
    (escapeChar asciiOnly mark c ++ rest).head? ≠ some mark := by
  have slash : some '\\' ≠ some mark := by
    rcases quoted with rfl | rfl <;> decide
  unfold escapeChar
  split_ifs with _ _ _ _ delimits
  · exact slash
  · exact slash
  · exact slash
  · exact slash
  · exact slash
  · obtain ⟨letter, width, escaped, _⟩ := exists_hexEscape (toNat_lt c)
    rw [escaped]
    exact slash
  · exact mt Option.some.inj delimits

theorem readBody_escaped (asciiOnly : Bool) (quoted : mark = singleQuote ∨ mark = doubleQuote)
    (text rest : List Char) :
    readBody mark (text.flatMap (escapeChar asciiOnly mark) ++ mark :: rest) =
      some (text, rest) := by
  induction text with
  | nil => exact readBody_mark
  | cons c text ih =>
      rw [List.flatMap_cons, List.append_assoc,
        readBody_of_readChar (head?_escapeChar asciiOnly quoted c _)
          (readChar_escapeChar asciiOnly quoted c _), ih]
      rfl

theorem delimiter_cases (text : List Char) :
    delimiter text = singleQuote ∨ delimiter text = doubleQuote := by
  unfold delimiter
  split
  · exact Or.inr rfl
  · exact Or.inl rfl

theorem readLiteral_quoteChars (asciiOnly : Bool) (text rest : List Char) :
    readLiteral (quoteChars asciiOnly text ++ rest) = some (text, rest) := by
  rw [quoteChars, List.cons_append, List.append_assoc, readLiteral, if_pos (delimiter_cases text)]
  exact readBody_escaped asciiOnly (delimiter_cases text) text rest

theorem quoteChars_injective (asciiOnly : Bool) : Function.Injective (quoteChars asciiOnly) := by
  intro text other same
  have read := readLiteral_quoteChars asciiOnly text []
  rw [same, readLiteral_quoteChars] at read
  exact (congrArg Prod.fst (Option.some.inj read)).symm

/-! ## Characters below 128 -/

theorem hexEscape_ascii {code : Nat} (fits : code < 16 ^ 8) (listed : c ∈ hexEscape code) :
    c.toNat < 0x80 := by
  obtain ⟨letter, width, escaped, letters, _⟩ := exists_hexEscape fits
  obtain ⟨places, small, _, digits⟩ :=
    exists_paddedPlaces (by decide : 1 < 16) width code
  have letterAscii : ∀ letter ∈ ['x', 'u', 'U'], letter.toNat < 0x80 :=
    List.all_iff_forall_prop.mp rfl
  have digitAscii : ∀ place < 16, (Nat.digitChar place).toNat < 0x80 := by decide
  rw [escaped, digits, List.mem_cons, List.mem_cons] at listed
  rcases listed with rfl | rfl | listed
  · decide
  · exact letterAscii _ letters
  · obtain ⟨place, among, rfl⟩ := List.mem_map.mp listed
    exact digitAscii place (small place among)

theorem escapeChar_ascii (quoted : mark = singleQuote ∨ mark = doubleQuote) {written : Char}
    (listed : written ∈ escapeChar true mark c) : written.toNat < 0x80 := by
  have slash : '\\'.toNat < 0x80 := by decide
  have pair {second : Char} (small : second.toNat < 0x80) (listed : written ∈ ['\\', second]) :
      written.toNat < 0x80 := by
    rcases List.mem_pair.mp listed with rfl | rfl
    · exact slash
    · exact small
  unfold escapeChar at listed
  split_ifs at listed with _ _ _ _ delimits hidden
  · exact pair slash listed
  · exact pair (by decide) listed
  · exact pair (by decide) listed
  · exact pair (by decide) listed
  · exact pair (by rcases quoted with rfl | rfl <;> rw [delimits] <;> decide) listed
  · exact hexEscape_ascii (toNat_lt c) listed
  · rw [List.mem_singleton.mp listed]
    simp only [Bool.true_and, Bool.or_eq_true, decide_eq_true_eq, not_or] at hidden
    omega

theorem quoteChars_ascii (listed : c ∈ quoteChars true text) : c.toNat < 0x80 := by
  have quoted := delimiter_cases text
  have mark : (delimiter text).toNat < 0x80 := by
    rcases quoted with same | same <;> rw [same] <;> decide
  rw [quoteChars, List.mem_cons, List.mem_append, List.mem_singleton, List.mem_flatMap] at listed
  rcases listed with rfl | ⟨_, _, listed⟩ | rfl
  · exact mark
  · exact escapeChar_ascii quoted listed
  · exact mark

/-- A quoted text is read as one literal, whatever follows it, and no proper part of its start is;
the literal is the text that was quoted. -/
theorem quoted_reads :
    (∀ text : String, ∀ written ∈ [quote text, quoteAscii text],
      (∀ rest, readLiteral (written.toList ++ rest) = some (text.toList, rest)) ∧
      ∀ part, part <+: written.toList → part ≠ written.toList → readLiteral part = none) ∧
    Function.Injective quote ∧ Function.Injective quoteAscii ∧
    ∀ text : String, ∀ c ∈ (quoteAscii text).toList, c.toNat < 0x80 := by
  have injective (asciiOnly : Bool) : Function.Injective fun text : String =>
      String.ofList (quoteChars asciiOnly text.toList) := fun _ _ same =>
    String.toList_injective (quoteChars_injective asciiOnly (String.ofList_injective same))
  refine ⟨fun text written listed => ?reads, injective false, injective true, ?ascii⟩
  case reads =>
    obtain ⟨asciiOnly, same⟩ : ∃ asciiOnly, written.toList = quoteChars asciiOnly text.toList := by
      rcases List.mem_pair.mp listed with rfl | rfl
      · exact ⟨false, String.toList_ofList⟩
      · exact ⟨true, String.toList_ofList⟩
    rw [same]
    have reads := readLiteral_quoteChars asciiOnly text.toList
    refine ⟨reads, fun part starts proper => ?_⟩
    have whole := reads []
    rw [List.append_nil] at whole
    exact readLiteral_of_prefix whole starts proper
  case ascii =>
    intro text c listed
    rw [quoteAscii, String.toList_ofList] at listed
    exact quoteChars_ascii listed

/-- A text with both quotes keeps the single one as its delimiter. -/
example : quoteAscii "\x27\x22\u00e9" = "'\\'\"\\xe9'" := by
  decide

end Gateware.Text
