import Mathlib.Data.Int.ModEq
import Gateware.Proofs.Binary
import Gateware.Proofs.Text.Numeral

/-!
# Binary keys

The key of an integer is the numeral of its residue, filled up with zeroes.  A row of binary digits
is the key of those integers that are congruent to what it reads as, and so the keys of a width are
all rows of so many digits, one for each residue.
-/

set_option autoImplicit false

namespace Gateware.Binary

/-- So many characters, each of them a binary digit. -/
structure Whole (width : Nat) (key : List Char) : Prop where
  length : key.length = width
  binary : ∀ symbol ∈ key, symbol = '0' ∨ symbol = '1'

variable {left right value : Int} {width : Nat} {key : List Char}

/-! ## Residues -/

theorem residue_eq_iff :
    residue left width = residue right width ↔ left ≡ right [ZMOD 2 ^ width] := by
  rw [← Int.natCast_inj, natCast_residue, natCast_residue]
  rfl

/-- The truncated remainder of a negative integer is not positive; once more of the modulus and
another remainder give the residue. -/
theorem natCast_residue_eq_tmod :
    (residue value width : Int) = (value.tmod (2 ^ width) + 2 ^ width).tmod (2 ^ width) := by
  have positive : (0 : Int) < 2 ^ width := two_pow_pos width
  have least : -2 ^ width < value.tmod (2 ^ width) := by
    have bounded := Int.lt_tmod_of_pos value positive
    omega
  rw [natCast_residue, Int.tmod_eq_emod_of_nonneg (by omega), Int.add_emod_right, Int.tmod_def,
    Int.sub_mul_emod_self_left]

/-! ## Rows of digits -/

theorem digits_congr (congruent : left ≡ right [ZMOD 2 ^ width]) :
    digits left width = digits right width := by
  simp only [digits, residue_eq_iff.mpr congruent]

theorem digits_read (whole : Whole width key) : digits (read key) width = key := by
  obtain ⟨rfl, binary⟩ := whole
  induction key with
  | nil => rfl
  | cons symbol rest ih =>
      have tail : digits (read rest) rest.length = rest :=
        ih fun other later => binary other (List.mem_cons_of_mem _ later)
      have top : (read (symbol :: rest) : Int).testBit rest.length = decide (symbol = '1') := by
        change (read (symbol :: rest)).testBit rest.length = decide (symbol = '1')
        rw [read_cons, Nat.testBit_two_pow_mul_add _ (read_lt rest)]
        rcases binary symbol List.mem_cons_self with rfl | rfl <;> simp [digit]
      have below : (read (symbol :: rest) : Int) ≡ read rest [ZMOD 2 ^ rest.length] := by
        rw [read_cons, Nat.cast_add, Nat.cast_mul, natCast_two_pow]
        exact Int.modEq_iff_dvd.mpr ⟨-(digit symbol), by ring⟩
      rw [List.length_cons, digits_succ, top, digits_congr below, tail]
      rcases binary symbol List.mem_cons_self with rfl | rfl <;> rfl

theorem whole_digits (value : Int) (width : Nat) : Whole width (digits value width) where
  length := length_digits value width
  binary _ listed := mem_digits listed

theorem eq_digits_iff :
    key = digits value width ↔ Whole width key ∧ (read key : Int) ≡ value [ZMOD 2 ^ width] := by
  constructor
  · rintro rfl
    refine ⟨whole_digits value width, ?_⟩
    rw [read_digits, natCast_residue]
    exact Int.mod_modEq value _
  · rintro ⟨whole, congruent⟩
    rw [← digits_congr congruent, digits_read whole]

theorem digits_inj : digits left width = digits right width ↔ left ≡ right [ZMOD 2 ^ width] := by
  constructor
  · intro same
    rw [← residue_eq_iff, ← read_digits, ← read_digits, same]
  · exact digits_congr

/-! ## Filled numerals -/

theorem read_map_digitChar {places : List Nat} (small : ∀ place ∈ places, place < 2) :
    read (places.map Nat.digitChar) = Nat.ofDigits 2 places.reverse := by
  induction places with
  | nil => rfl
  | cons place places ih =>
      have tail := ih fun other listed => small other (List.mem_cons_of_mem _ listed)
      have first : digit (Nat.digitChar place) = place := by
        have all : ∀ place < 2, digit (Nat.digitChar place) = place := by decide
        exact all place (small place List.mem_cons_self)
      rw [List.map_cons, read_cons, tail, first, List.length_map, List.reverse_cons,
        Nat.ofDigits_append, Nat.ofDigits_singleton, List.length_reverse, Nat.add_comm]

theorem digits_eq_padLeft (positive : 0 < width) :
    digits value width =
      (Text.padLeft '0' width (Text.numeral 2 (residue value width))).toList := by
  obtain ⟨places, small, reads, written⟩ :=
    Text.exists_paddedPlaces (by decide : 1 < 2) width (residue value width)
  refine (eq_digits_iff.mpr ⟨⟨?length, ?binary⟩, ?congruent⟩).symm
  case length =>
    exact Text.length_padLeft_numeral (by decide) positive (residue_lt value width)
  case binary =>
    have all : ∀ place < 2, Nat.digitChar place = '0' ∨ Nat.digitChar place = '1' := by decide
    rw [written]
    intro symbol listed
    obtain ⟨place, placeListed, rfl⟩ := List.mem_map.mp listed
    exact all place (small place placeListed)
  case congruent =>
    rw [written, read_map_digitChar small, reads, natCast_residue]
    exact Int.mod_modEq value _

/-! ## Keys -/

theorem toList_text (value : Int) (width : Nat) : (text value width).toList = digits value width :=
  String.toList_ofList

theorem mem_keys_iff {key : String} :
    key ∈ (List.range (2 ^ width)).map (fun n : Nat => text n width) ↔ Whole width key.toList := by
  rw [List.mem_map]
  constructor
  · rintro ⟨n, -, rfl⟩
    rw [toList_text]
    exact whole_digits n width
  · intro whole
    have bounded := read_lt key.toList
    rw [whole.length] at bounded
    refine ⟨read key.toList, List.mem_range.mpr bounded, ?_⟩
    rw [text, digits_read whole, String.ofList_toList]

theorem nodup_keys (width : Nat) :
    ((List.range (2 ^ width)).map fun n : Nat => text n width).Nodup := by
  refine List.nodup_range.map_on fun low lowListed high highListed same => ?_
  have congruent : (low : Int) ≡ high [ZMOD 2 ^ width] :=
    digits_inj.mp (String.ofList_injective same)
  have residues : residue low width = residue high width := residue_eq_iff.mpr congruent
  rwa [residue_natCast, residue_natCast, Nat.mod_eq_of_lt (List.mem_range.mp lowListed),
    Nat.mod_eq_of_lt (List.mem_range.mp highListed)] at residues

/-- A key has as many binary digits as its width and reads as the residue of its integer, whose
numeral it is with zeroes in front; it is that of just the congruent integers, and every row of
binary digits is the key of one number below the power of two. -/
theorem text_encodes :
    (∀ (value : Int) (width : Nat),
      Whole width (text value width).toList ∧
      (read (text value width).toList : Int) = value % 2 ^ width ∧
      text value width = if width = 0 then "" else Text.padLeft '0' width
        (Text.numeral 2 ((value.tmod (2 ^ width) + 2 ^ width).tmod (2 ^ width)).toNat)) ∧
    (∀ (left right : Int) (width : Nat),
      text left width = text right width ↔ left ≡ right [ZMOD 2 ^ width]) ∧
    ∀ width : Nat, ((List.range (2 ^ width)).map fun n : Nat => text n width).Nodup ∧
      ∀ key : String, key ∈ (List.range (2 ^ width)).map (fun n : Nat => text n width) ↔
        Whole width key.toList := by
  refine ⟨fun value width => ⟨?whole, ?reads, ?written⟩, fun left right width => ?same,
    fun width => ⟨nodup_keys width, fun key => mem_keys_iff⟩⟩
  case whole =>
    rw [toList_text]
    exact whole_digits value width
  case reads => rw [toList_text, read_digits, natCast_residue]
  case written =>
    split
    · rename_i none
      rw [none]
      rfl
    · rename_i some
      apply String.toList_injective
      rw [toList_text, ← natCast_residue_eq_tmod, Int.toNat_natCast,
        digits_eq_padLeft (Nat.pos_of_ne_zero some)]
  case same =>
    rw [← digits_inj]
    exact ⟨String.ofList_injective, congrArg String.ofList⟩

example : text (-10) 8 = "11110110" := by decide

end Gateware.Binary
