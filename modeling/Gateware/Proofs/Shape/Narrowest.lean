import Gateware.Proofs.Shape.Integers
import Gateware.Proofs.Shape.Range

/-!
# Narrowest shapes

The shape of an integer, and of a range, has the fewest bits that a shape can have which holds the
integer, or every element of the range.  The bits that an integer needs say when it is in a shape;
a shape that holds the two ends of a range holds what lies between them.
-/

set_option autoImplicit false

namespace Gateware.Shape

variable {shape : Shape} {value : Int} {signBit : Bool}

/-! ## Bits that an integer needs -/

theorem bitsFor_le_of_mem (valid : shape.Valid) (inside : value ∈ shape)
    (asked : signBit = true → shape.signed = true) (room : value = 0 → 0 < shape.width) :
    Binary.bitsFor value signBit ≤ shape.width := by
  rcases valid.cases with ⟨width, rfl⟩ | ⟨width, rfl⟩
  · obtain ⟨lower, upper⟩ := mem_unsigned.mp inside
    rw [← Binary.natCast_two_pow] at upper
    have noSignBit : signBit = false := Bool.eq_false_iff.mpr fun asks => nomatch asked asks
    rcases Int.lt_or_eq_of_le lower with positive | zero
    · have magnitude : Binary.length value.toNat ≤ width := Binary.length_le_iff.mpr (by omega)
      rw [Binary.bitsFor_of_pos positive, noSignBit]
      exact magnitude
    · subst zero
      exact room rfl
  · obtain ⟨lower, upper⟩ := mem_signed.mp inside
    rw [← Binary.natCast_two_pow] at lower upper
    rcases Int.lt_or_le 0 value with positive | notPositive
    · rw [Binary.bitsFor_of_pos positive]
      have magnitude : Binary.length value.toNat ≤ width := Binary.length_le_iff.mpr (by omega)
      exact Nat.add_le_add magnitude (Bool.toNat_le signBit)
    · rw [Binary.bitsFor_of_nonpos notPositive]
      exact Nat.succ_le_succ (Binary.length_le_iff.mpr (by omega))

theorem width_pos_of_mem (valid : shape.Valid) (inside : value ∈ shape) (notZero : value ≠ 0) :
    0 < shape.width := by
  have needed : Binary.bitsFor value false ≤ shape.width :=
    bitsFor_le_of_mem valid inside nofun fun zero => absurd zero notZero
  exact Nat.lt_of_lt_of_le Binary.bitsFor_pos needed

theorem mem_of_mem_of_mem {left right : Int} (leftInside : left ∈ shape)
    (rightInside : right ∈ shape) (lower : min left right ≤ value)
    (upper : value ≤ max left right) : value ∈ shape := by
  simp only [mem_iff_contains, contains, Bool.and_eq_true, decide_eq_true_eq] at *
  omega

/-! ## The narrowest shape of a family of integers -/

/-- A shape that holds a family of integers in the fewest bits, and is signed only for a negative
one. -/
structure Narrowest (shape : Shape) (family : Int → Prop) : Prop where
  valid : shape.Valid
  holds (value : Int) : family value → value ∈ shape
  signed_iff : shape.signed = true ↔ ∃ value, family value ∧ value < 0
  least (other : Shape) : other.Valid → (∀ value, family value → value ∈ other) →
    shape.width ≤ other.width

theorem narrowest_ofInt (notZero : value ≠ 0) : (ofInt value).Narrowest (· = value) where
  valid := valid_ofInt value
  holds _ same := same ▸ mem_ofInt value
  signed_iff := signed_ofInt.trans (by simp)
  least _ valid holds :=
    bitsFor_le_of_mem valid (holds value rfl) nofun fun zero => absurd zero notZero

theorem narrowest_unsigned_zero {family : Int → Prop} (zeros : ∀ value, family value → value = 0) :
    (unsigned 0).Narrowest family where
  valid := valid_unsigned 0
  holds value member := by
    rw [zeros value member]
    exact zero_mem
  signed_iff := by
    refine ⟨nofun, ?_⟩
    rintro ⟨value, member, negative⟩
    have zero := zeros value member
    omega
  least other _ _ := Nat.zero_le other.width

/-- For a family between two of its members, the bits that these need are enough. -/
theorem narrowest_of_ends {first last : Int} {signed : Bool} {family : Int → Prop}
    (signs : signed = true ↔ first < 0 ∨ last < 0) (notZero : ¬ (first = 0 ∧ last = 0))
    (firstIn : family first) (lastIn : family last)
    (between : ∀ value, family value → min first last ≤ value ∧ value ≤ max first last) :
    (⟨max (Binary.bitsFor first signed) (Binary.bitsFor last signed), signed⟩ : Shape).Narrowest
      family := by
  have signedPositive : 0 < max (Binary.bitsFor first signed) (Binary.bitsFor last signed) :=
    Nat.lt_of_lt_of_le Binary.bitsFor_pos (Nat.le_max_left _ _)
  have notNegative (unsigned : signed = false) : 0 ≤ first ∧ 0 ≤ last := by
    rw [unsigned] at signs
    simpa using signs
  refine ⟨fun _ => signedPositive, fun value member => ?_, signs.trans ⟨?_, ?_⟩, ?_⟩
  · refine mem_of_mem_of_mem ?_ ?_ (between value member).1 (between value member).2
    · exact mem_of_bitsFor_le (Nat.le_max_left _ _) fun unsigned => (notNegative unsigned).1
    · exact mem_of_bitsFor_le (Nat.le_max_right _ _) fun unsigned => (notNegative unsigned).2
  · rintro (negative | negative)
    · exact ⟨first, firstIn, negative⟩
    · exact ⟨last, lastIn, negative⟩
  · rintro ⟨value, member, negative⟩
    have held := between value member
    omega
  · intro other valid holds
    have asked (isSigned : signed = true) : other.signed = true := by
      rcases signs.mp isSigned with negative | negative
      · exact signed_of_neg_mem (holds first firstIn) negative
      · exact signed_of_neg_mem (holds last lastIn) negative
    -- One of the ends is not zero, so that a shape that holds both has a bit.
    have room : 0 < other.width := by
      rcases not_and_or.mp notZero with notZero | notZero
      · exact width_pos_of_mem valid (holds first firstIn) notZero
      · exact width_pos_of_mem valid (holds last lastIn) notZero
    exact Nat.max_le.mpr ⟨bitsFor_le_of_mem valid (holds first firstIn) asked fun _ => room,
      bitsFor_le_of_mem valid (holds last lastIn) asked fun _ => room⟩

theorem narrowest_ofRange (range : Range) : (ofRange range).Narrowest (· ∈ range) := by
  unfold ofRange
  obtain ⟨begins, ends, none⟩ | ⟨first, last, begins, ends, firstIn, lastIn, between⟩ :=
    range.ends_cases
  · rw [begins, ends]
    exact narrowest_unsigned_zero fun value member => absurd member (none value)
  · rw [begins, ends]
    dsimp only
    split
    · rename_i zeros
      simp only [Bool.and_eq_true, decide_eq_true_eq] at zeros
      obtain ⟨rfl, rfl⟩ := zeros
      refine narrowest_unsigned_zero fun value member => ?_
      have held := between value member
      omega
    · rename_i notZero
      exact narrowest_of_ends (by simp) (by simpa using notZero) firstIn lastIn between

theorem Narrowest.width_eq_zero_iff {family : Int → Prop} (narrowest : shape.Narrowest family) :
    shape.width = 0 ↔ ∀ value, family value → value = 0 := by
  constructor
  · intro empty value member
    by_contra notZero
    have positive := width_pos_of_mem narrowest.valid (narrowest.holds value member) notZero
    omega
  · intro zeros
    have least := narrowest.least (unsigned 0) (valid_unsigned 0)
      (narrowest_unsigned_zero zeros).holds
    exact Nat.eq_zero_of_le_zero least

/-- The shapes of integers and ranges are the narrowest that hold them, but that zero as an integer
gets a bit. -/
theorem narrowest_ofInt_ofRange :
    (∀ value : Int, value ∈ ofInt value ∧ ((ofInt value).signed = true ↔ value < 0) ∧
      (value ≠ 0 → (ofInt value).Narrowest (· = value))) ∧
    ofInt 0 = bit ∧
    ∀ range : Range, (ofRange range).Narrowest (· ∈ range) ∧
      ((ofRange range).width = 0 ↔ ∀ value ∈ range, value = 0) := by
  refine ⟨fun value => ⟨mem_ofInt value, signed_ofInt, narrowest_ofInt⟩, rfl, fun range => ?_⟩
  have narrowest := narrowest_ofRange range
  exact ⟨narrowest, narrowest.width_eq_zero_iff⟩

/-- The least integer of four bits, and a countdown from six by fours, which passes zero. -/
theorem narrowest_ofInt_ofRange_countdown :
    (-8 : Int) ≠ 0 ∧ (ofInt (-8)).Narrowest (· = -8) ∧
      ofRange ⟨6, -9, -4⟩ = ⟨4, true⟩ ∧
      (ofRange ⟨6, -9, -4⟩).Narrowest (· ∈ (⟨6, -9, -4⟩ : Range)) := by
  obtain ⟨integers, -, ranges⟩ := narrowest_ofInt_ofRange
  exact ⟨by decide, (integers (-8)).2.2 (by decide), by decide, (ranges ⟨6, -9, -4⟩).1⟩

end Gateware.Shape
