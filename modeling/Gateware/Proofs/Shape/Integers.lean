import Mathlib.Algebra.Order.Ring.Int
import Gateware.Proofs.Binary
import Gateware.Shape.Range

/-!
# The integers of a shape

A shape stands for an interval of integers.  A valid shape has exactly one integer in
each residue class of its width, which is the one that `fit` finds.
-/

set_option autoImplicit false

namespace Gateware.Shape

/-- A signed shape has at least its sign bit. -/
def Valid (shape : Shape) : Prop := shape.signed = true → 0 < shape.width

instance (shape : Shape) : Decidable shape.Valid :=
  inferInstanceAs (Decidable (shape.signed = true → 0 < shape.width))

instance : Membership Int Shape where
  mem shape value := shape.contains value = true

instance (value : Int) (shape : Shape) : Decidable (value ∈ shape) :=
  inferInstanceAs (Decidable (shape.contains value = true))

theorem mem_iff_contains {value : Int} {shape : Shape} :
    value ∈ shape ↔ shape.contains value = true := Iff.rfl

theorem mem_unsigned {value : Int} {width : Nat} :
    value ∈ (⟨width, false⟩ : Shape) ↔ 0 ≤ value ∧ value < 2 ^ width := by
  simp only [mem_iff_contains, contains, least, greatest, Bool.false_eq_true, if_false,
    Bool.and_eq_true, decide_eq_true_eq]
  omega

theorem mem_unsigned_natCast {n width : Nat} :
    (n : Int) ∈ (⟨width, false⟩ : Shape) ↔ n < 2 ^ width := by
  rw [mem_unsigned, ← Binary.natCast_two_pow]
  omega

theorem mem_signed {value : Int} {width : Nat} :
    value ∈ (⟨width + 1, true⟩ : Shape) ↔ -2 ^ width ≤ value ∧ value < 2 ^ width := by
  simp only [mem_iff_contains, contains, least, greatest, if_true, Nat.add_sub_cancel,
    Bool.and_eq_true, decide_eq_true_eq]
  omega

theorem Valid.cases {shape : Shape} (valid : shape.Valid) :
    (∃ width, shape = ⟨width, false⟩) ∨ ∃ width, shape = ⟨width + 1, true⟩ := by
  obtain ⟨width, signed⟩ := shape
  cases signed with
  | false => exact Or.inl ⟨width, rfl⟩
  | true =>
      have positive : 0 < width := valid rfl
      exact Or.inr ⟨width - 1, by rw [Nat.sub_add_cancel positive]⟩

theorem valid_unsigned (width : Nat) : (⟨width, false⟩ : Shape).Valid := by
  intro signed
  cases signed

theorem zero_mem {shape : Shape} : (0 : Int) ∈ shape := by
  obtain ⟨width, signed⟩ := shape
  have positive : (0 : Int) < 2 ^ width := Binary.two_pow_pos width
  have halfPositive : (0 : Int) < 2 ^ (width - 1) := Binary.two_pow_pos (width - 1)
  cases signed with
  | false => exact mem_unsigned.mpr ⟨Int.le_refl 0, positive⟩
  | true =>
      simp only [mem_iff_contains, contains, least, greatest, if_true, Bool.and_eq_true,
        decide_eq_true_eq]
      omega

theorem lt_of_mem {value : Int} {shape : Shape} (valid : shape.Valid) (inside : value ∈ shape) :
    value < 2 ^ shape.width := by
  rcases valid.cases with ⟨width, rfl⟩ | ⟨width, rfl⟩
  · exact (mem_unsigned.mp inside).2
  · have upper := (mem_signed.mp inside).2
    have positive : (0 : Int) < 2 ^ width := Binary.two_pow_pos width
    dsimp only
    rw [Int.pow_succ]
    omega

theorem signed_of_neg_mem {value : Int} {shape : Shape} (inside : value ∈ shape)
    (negative : value < 0) : shape.signed = true := by
  obtain ⟨width, signed⟩ := shape
  cases signed with
  | false => exact absurd (mem_unsigned.mp inside).1 (by omega)
  | true => rfl

/-! ## Reading the lowest bits in a shape -/

theorem fit_unsigned (width : Nat) (value : Int) :
    (⟨width, false⟩ : Shape).fit value = value % 2 ^ width := by
  simp [fit]

theorem fit_signed (width : Nat) (value : Int) :
    (⟨width + 1, true⟩ : Shape).fit value =
      if 2 ^ width ≤ value % 2 ^ (width + 1) then value % 2 ^ (width + 1) - 2 ^ (width + 1)
      else value % 2 ^ (width + 1) := by
  have half : (2 : Int) ^ (width + 1) / 2 = 2 ^ width := by
    rw [Int.pow_succ]
    omega
  simp [fit, half]

theorem fit_mem {shape : Shape} (valid : shape.Valid) (value : Int) : shape.fit value ∈ shape := by
  rcases valid.cases with ⟨width, rfl⟩ | ⟨width, rfl⟩
  · have positive : (0 : Int) < 2 ^ width := Binary.two_pow_pos width
    rw [fit_unsigned, mem_unsigned]
    exact ⟨Int.emod_nonneg _ (by omega), Int.emod_lt_of_pos _ positive⟩
  · have positive : (0 : Int) < 2 ^ (width + 1) := Binary.two_pow_pos (width + 1)
    have lower := Int.emod_nonneg value (Int.ne_of_gt positive)
    have upper := Int.emod_lt_of_pos value positive
    rw [fit_signed, mem_signed]
    rw [Int.pow_succ] at lower upper ⊢
    split <;> omega

theorem fit_emod (shape : Shape) (value : Int) :
    shape.fit value % 2 ^ shape.width = value % 2 ^ shape.width := by
  unfold fit
  simp only
  split
  · rw [Int.sub_emod_right, Int.emod_emod]
  · exact Int.emod_emod _ _

/-- A valid shape has no two integers of one residue. -/
theorem eq_of_emod_eq {shape : Shape} (valid : shape.Valid) {left right : Int}
    (leftInside : left ∈ shape) (rightInside : right ∈ shape)
    (sameResidue : left % 2 ^ shape.width = right % 2 ^ shape.width) : left = right := by
  have divides : (2 : Int) ^ shape.width ∣ left - right :=
    Int.dvd_of_emod_eq_zero (Int.emod_eq_emod_iff_emod_sub_eq_zero.mp sameResidue)
  have close : (left - right).natAbs < ((2 : Int) ^ shape.width).natAbs := by
    rcases valid.cases with ⟨width, rfl⟩ | ⟨width, rfl⟩
    · rw [mem_unsigned] at leftInside rightInside
      dsimp only
      omega
    · rw [mem_signed] at leftInside rightInside
      dsimp only
      rw [Int.pow_succ]
      omega
  have same : left - right = 0 := Int.eq_zero_of_dvd_of_natAbs_lt_natAbs divides close
  omega

theorem fit_eq_self {shape : Shape} (valid : shape.Valid) {value : Int}
    (inside : value ∈ shape) : shape.fit value = value :=
  eq_of_emod_eq valid (fit_mem valid value) inside (fit_emod shape value)

theorem fit_eq_self_iff {shape : Shape} (valid : shape.Valid) {value : Int} :
    shape.fit value = value ↔ value ∈ shape := by
  constructor
  · intro same
    rw [← same]
    exact fit_mem valid value
  · exact fit_eq_self valid

/-! ## The shape of several shapes -/

theorem mem_of_width_le {value : Int} {signed : Bool} {narrow wide : Nat} (wider : narrow ≤ wide)
    (inside : value ∈ (⟨narrow, signed⟩ : Shape)) : value ∈ (⟨wide, signed⟩ : Shape) := by
  cases signed with
  | false =>
      rw [mem_unsigned] at inside ⊢
      have grows : (2 : Int) ^ narrow ≤ 2 ^ wide := pow_le_pow_right₀ (by decide) wider
      omega
  | true =>
      have grows : (2 : Int) ^ (narrow - 1) ≤ 2 ^ (wide - 1) :=
        pow_le_pow_right₀ (by decide) (Nat.sub_le_sub_right wider 1)
      rw [mem_iff_contains] at inside ⊢
      simp only [contains, least, greatest, if_true, Bool.and_eq_true, decide_eq_true_eq]
        at inside ⊢
      omega

theorem mem_signed_of_mem_unsigned {value : Int} {narrow wide : Nat} (wider : narrow + 1 ≤ wide)
    (inside : value ∈ (⟨narrow, false⟩ : Shape)) : value ∈ (⟨wide, true⟩ : Shape) := by
  obtain ⟨high, rfl⟩ : ∃ high, wide = high + 1 := ⟨wide - 1, by omega⟩
  rw [mem_unsigned] at inside
  rw [mem_signed]
  have grows : (2 : Int) ^ narrow ≤ 2 ^ high :=
    pow_le_pow_right₀ (by decide) (by omega)
  omega

private theorem le_foldl_width (shapes : List Shape) (start : Nat) :
    start ≤ shapes.foldl (fun width shape => Nat.max width shape.width) start ∧
      ∀ shape ∈ shapes,
        shape.width ≤ shapes.foldl (fun width shape => Nat.max width shape.width) start := by
  induction shapes generalizing start with
  | nil => simp
  | cons first rest ih =>
      obtain ⟨fromStart, fromRest⟩ := ih (Nat.max start first.width)
      rw [List.foldl_cons]
      refine ⟨Nat.le_trans (Nat.le_max_left _ _) fromStart, ?_⟩
      intro shape listed
      rcases List.mem_cons.mp listed with rfl | later
      · exact Nat.le_trans (Nat.le_max_right _ _) fromStart
      · exact fromRest shape later

private theorem foldl_width_le (shapes : List Shape) (start bound : Nat) (startLe : start ≤ bound)
    (below : ∀ shape ∈ shapes, shape.width ≤ bound) :
    shapes.foldl (fun width shape => Nat.max width shape.width) start ≤ bound := by
  induction shapes generalizing start with
  | nil => exact startLe
  | cons first rest ih =>
      rw [List.foldl_cons]
      apply ih
      · exact Nat.max_le.mpr ⟨startLe, below first List.mem_cons_self⟩
      · intro shape later
        exact below shape (List.mem_cons_of_mem _ later)

theorem le_widest {shapes : List Shape} {shape : Shape} (listed : shape ∈ shapes) :
    shape.width ≤ widest shapes shape.signed :=
  (le_foldl_width _ 0).2 shape (List.mem_filter.mpr ⟨listed, by simp⟩)

theorem widest_le {shapes : List Shape} {signed : Bool} {bound : Nat}
    (below : ∀ shape ∈ shapes, shape.signed = signed → shape.width ≤ bound) :
    widest shapes signed ≤ bound := by
  apply foldl_width_le _ _ _ (Nat.zero_le bound)
  intro shape kept
  obtain ⟨listed, same⟩ := List.mem_filter.mp kept
  exact below shape listed (beq_iff_eq.mp same)

theorem width_unify_le {shapes : List Shape} {bound : Nat}
    (below : ∀ shape ∈ shapes, shape.width ≤ bound) : (unify shapes).width ≤ bound + 1 := by
  have bounded (signed : Bool) : widest shapes signed ≤ bound :=
    widest_le fun shape listed _ => below shape listed
  have unsignedLe := bounded false
  have signedLe := bounded true
  unfold unify
  split
  · exact Nat.max_le.mpr ⟨Nat.succ_le_succ unsignedLe, Nat.le_succ_of_le signedLe⟩
  · exact Nat.le_succ_of_le unsignedLe

theorem valid_unify {shapes : List Shape} (valid : ∀ shape ∈ shapes, shape.Valid) :
    (unify shapes).Valid := by
  unfold unify
  split
  · rename_i someSigned
    obtain ⟨shape, listed, signed⟩ := List.any_eq_true.mp someSigned
    have positive : 0 < shape.width := valid shape listed signed
    have bounded := le_widest listed
    rw [signed] at bounded
    intro _
    exact Nat.lt_of_lt_of_le positive (Nat.le_trans bounded (Nat.le_max_right _ _))
  · exact valid_unsigned _

/-- A unified shape holds what its members hold. -/
theorem mem_unify {shapes : List Shape} {shape : Shape} {value : Int} (listed : shape ∈ shapes)
    (inside : value ∈ shape) : value ∈ unify shapes := by
  have bounded := le_widest listed
  obtain ⟨width, signed⟩ := shape
  unfold unify
  split
  · cases signed with
    | false =>
        apply mem_signed_of_mem_unsigned _ inside
        exact Nat.le_trans (Nat.succ_le_succ bounded) (Nat.le_max_left _ _)
    | true => exact mem_of_width_le (Nat.le_trans bounded (Nat.le_max_right _ _)) inside
  · rename_i noneSigned
    cases signed with
    | false => exact mem_of_width_le bounded inside
    | true => exact absurd (List.any_eq_true.mpr ⟨_, listed, rfl⟩) noneSigned

section Pair

variable {left right : Shape}

theorem valid_unify_pair (leftValid : left.Valid) (rightValid : right.Valid) :
    (unify [left, right]).Valid := by
  apply valid_unify
  simp only [List.forall_mem_cons]
  exact ⟨leftValid, rightValid, by simp⟩

theorem mem_unify_left {value : Int} (inside : value ∈ left) : value ∈ unify [left, right] :=
  mem_unify (by simp) inside

theorem mem_unify_right {value : Int} (inside : value ∈ right) : value ∈ unify [left, right] :=
  mem_unify (by simp) inside

end Pair

/-! ## The shapes of integers and ranges -/

theorem mem_of_bitsFor_le {shape : Shape} {value : Int}
    (enough : Binary.bitsFor value shape.signed ≤ shape.width)
    (legal : shape.signed = false → 0 ≤ value) : value ∈ shape := by
  obtain ⟨width, signed⟩ := shape
  cases signed with
  | false =>
      rcases Int.lt_or_eq_of_le (legal rfl) with positive | zero
      · rw [Binary.bitsFor_of_pos positive, Bool.toNat_false, Nat.add_zero,
          Binary.length_le_iff] at enough
        rw [mem_unsigned, ← Binary.natCast_two_pow]
        dsimp only at enough
        omega
      · rw [← zero]
        exact zero_mem
  | true =>
      obtain ⟨magnitude, rfl⟩ : ∃ magnitude, width = magnitude + 1 :=
        Nat.exists_eq_add_one.mpr (Nat.lt_of_lt_of_le Binary.bitsFor_pos enough)
      rw [mem_signed, ← Binary.natCast_two_pow]
      rcases Int.lt_or_le 0 value with positive | notPositive
      · rw [Binary.bitsFor_of_pos positive] at enough
        have below := Binary.length_le_iff.mp (Nat.le_of_succ_le_succ enough)
        omega
      · rw [Binary.bitsFor_of_nonpos notPositive] at enough
        have below := Binary.length_le_iff.mp (Nat.le_of_succ_le_succ enough)
        omega

theorem valid_ofInt (value : Int) : (ofInt value).Valid := fun _ => Binary.bitsFor_pos

theorem signed_ofInt {value : Int} : (ofInt value).signed = true ↔ value < 0 := decide_eq_true_iff

theorem mem_ofInt (value : Int) : value ∈ ofInt value := by
  apply mem_of_bitsFor_le
  · cases signed : (ofInt value).signed with
    | false => exact Nat.le_refl _
    | true =>
        have negative := signed_ofInt.mp signed
        rw [Binary.bitsFor_of_nonpos (by omega)]
        exact Nat.le_of_eq (Binary.bitsFor_of_nonpos (by omega)).symm
  · intro unsigned
    have notNegative := signed_ofInt.not.mp (Bool.eq_false_iff.mp unsigned)
    omega

theorem valid_ofRange (range : Range) : (ofRange range).Valid := by
  unfold ofRange
  split
  · rename_i first last _ _
    dsimp only
    split
    · rename_i bothZero
      simp only [Bool.and_eq_true, decide_eq_true_eq] at bothZero
      intro signed
      simp [bothZero.1, bothZero.2] at signed
    · exact fun _ => Nat.lt_of_lt_of_le Binary.bitsFor_pos (Nat.le_max_left _ _)
  · exact valid_unsigned 0

theorem valid_of_make {width : Int} {signed : Bool} {shape : Shape}
    (made : make width signed = .ok shape) : shape.Valid := by
  unfold make at made
  split at made
  · cases made
  · split at made
    · cases made
    · rename_i notBoth _
      cases made
      intro isSigned
      dsimp only at isSigned ⊢
      subst isSigned
      simp only [Bool.true_and, decide_eq_true_eq] at notBoth
      omega

end Gateware.Shape
