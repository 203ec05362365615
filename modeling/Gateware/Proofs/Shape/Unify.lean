import Gateware.Proofs.Session
import Gateware.Proofs.Shape.Integers

/-!
# The least shape above others

Shapes are ordered by the integers that they hold.  The shape of several shapes is the least one
above them, so that it depends neither on their order nor on how they are grouped.  Beside a
signed shape this needs a bit more for the unsigned ones.  Held to the word it is the same shape,
or an overflow where one of them is as wide as a word can tell.
-/

set_option autoImplicit false

namespace Gateware.Shape

variable {shape other : Shape} {shapes others : List Shape}

/-- Every integer of one shape is one of the other. -/
def Within (shape other : Shape) : Prop := ∀ value : Int, value ∈ shape → value ∈ other

/-- The bit that a shape gets more within another one, where only the other is signed. -/
def padding (shape other : Shape) : Nat := (other.signed && !shape.signed).toNat

theorem Within.signed (valid : shape.Valid) (within : shape.Within other)
    (signed : shape.signed = true) : other.signed = true := by
  obtain ⟨width, rfl⟩ | ⟨width, rfl⟩ := valid.cases
  · cases signed
  · have positive : (0 : Int) < 2 ^ width := Binary.two_pow_pos width
    exact signed_of_neg_mem (within (-1) (mem_signed.mpr ⟨by omega, by omega⟩)) (by decide)

theorem le_of_pred_two_pow_lt {low high : Nat} (below : (2 : Int) ^ low - 1 < 2 ^ high) :
    low ≤ high := by
  rw [← Binary.natCast_two_pow, ← Binary.natCast_two_pow] at below
  exact (Nat.pow_le_pow_iff_right (by decide)).mp (by omega : 2 ^ low ≤ 2 ^ high)

/-- One valid shape is within another exactly if the other is signed with it and has its bits, and
one more if only the other is signed. -/
theorem within_iff (valid : shape.Valid) (otherValid : other.Valid) :
    shape.Within other ↔
      (shape.signed = true → other.signed = true) ∧
        shape.width + shape.padding other ≤ other.width := by
  constructor
  · intro within
    refine ⟨within.signed valid, ?_⟩
    obtain ⟨width, rfl⟩ | ⟨width, rfl⟩ := valid.cases
    · have positive : (0 : Int) < 2 ^ width := Binary.two_pow_pos width
      have greatest := within (2 ^ width - 1) (mem_unsigned.mpr ⟨by omega, by omega⟩)
      obtain ⟨otherWidth, rfl⟩ | ⟨otherWidth, rfl⟩ := otherValid.cases
      · exact le_of_pred_two_pow_lt (mem_unsigned.mp greatest).2
      · exact Nat.succ_le_succ (le_of_pred_two_pow_lt (mem_signed.mp greatest).2)
    · have positive : (0 : Int) < 2 ^ width := Binary.two_pow_pos width
      have greatest := within (2 ^ width - 1) (mem_signed.mpr ⟨by omega, by omega⟩)
      obtain ⟨otherWidth, rfl⟩ | ⟨otherWidth, rfl⟩ := otherValid.cases
      · cases within.signed valid rfl
      · exact Nat.succ_le_succ (le_of_pred_two_pow_lt (mem_signed.mp greatest).2)
  · rintro ⟨signs, wider⟩ value inside
    obtain ⟨width, signed⟩ := shape
    obtain ⟨otherWidth, otherSigned⟩ := other
    cases signed with
    | false =>
        cases otherSigned with
        | false => exact mem_of_width_le wider inside
        | true => exact mem_signed_of_mem_unsigned wider inside
    | true =>
        cases signs rfl
        exact mem_of_width_le wider inside

theorem Within.width_le (valid : shape.Valid) (otherValid : other.Valid)
    (within : shape.Within other) : shape.width ≤ other.width :=
  Nat.le_of_add_right_le ((within_iff valid otherValid).mp within).2

theorem Within.antisymm (valid : shape.Valid) (otherValid : other.Valid)
    (within : shape.Within other) (back : other.Within shape) : shape = other := by
  have signs : shape.signed = other.signed :=
    Bool.eq_iff_iff.mpr ⟨within.signed valid, back.signed otherValid⟩
  have widths : shape.width = other.width :=
    Nat.le_antisymm (within.width_le valid otherValid) (back.width_le otherValid valid)
  obtain ⟨width, signed⟩ := shape
  obtain ⟨otherWidth, otherSigned⟩ := other
  exact congr (congrArg Shape.mk widths) signs

/-! ## The shape of several shapes -/

theorem unify_of_signed (someSigned : shapes.any Shape.signed = true) :
    unify shapes = ⟨max (widest shapes false + 1) (widest shapes true), true⟩ :=
  if_pos someSigned

theorem unify_of_unsigned (noneSigned : ¬ shapes.any Shape.signed = true) :
    unify shapes = unsigned (widest shapes false) :=
  if_neg noneSigned

theorem signed_unify : (unify shapes).signed = shapes.any Shape.signed := by
  unfold unify
  split
  · rename_i someSigned
    exact someSigned.symm
  · rename_i noneSigned
    exact (Bool.eq_false_iff.mpr noneSigned).symm

theorem unify_within (valid : ∀ shape ∈ shapes, shape.Valid) (otherValid : other.Valid)
    (above : ∀ shape ∈ shapes, shape.Within other) : (unify shapes).Within other := by
  rw [within_iff (valid_unify valid) otherValid]
  have fits (shape : Shape) (listed : shape ∈ shapes) :=
    (within_iff (valid shape listed) otherValid).mp (above shape listed)
  have signBit : other.signed.toNat ≤ other.width := by
    cases signed : other.signed with
    | false => exact Nat.zero_le _
    | true => exact otherValid signed
  have unsignedLe : widest shapes false + other.signed.toNat ≤ other.width := by
    have bounded : widest shapes false ≤ other.width - other.signed.toNat := by
      refine widest_le fun shape listed unsigned => ?_
      have wide := (fits shape listed).2
      rw [padding, unsigned, Bool.not_false, Bool.and_true] at wide
      exact Nat.le_sub_of_add_le wide
    omega
  by_cases someSigned : shapes.any Shape.signed = true
  · obtain ⟨member, listed, signed⟩ := List.any_eq_true.mp someSigned
    have otherSigned : other.signed = true := (fits member listed).1 signed
    have signedLe : widest shapes true ≤ other.width :=
      widest_le fun shape listed _ => Nat.le_of_add_right_le (fits shape listed).2
    rw [otherSigned] at unsignedLe
    rw [unify_of_signed someSigned, padding, Bool.not_true, Bool.and_false]
    exact ⟨fun _ => otherSigned, Nat.max_le.mpr ⟨unsignedLe, signedLe⟩⟩
  · rw [unify_of_unsigned someSigned, padding, unsigned_signed, Bool.not_false, Bool.and_true]
    exact ⟨nofun, unsignedLe⟩

/-! ## Order and grouping -/

theorem unify_congr (valid : ∀ shape ∈ shapes, shape.Valid)
    (same : ∀ shape, shape ∈ others ↔ shape ∈ shapes) : unify others = unify shapes := by
  have othersValid (shape : Shape) (listed : shape ∈ others) : shape.Valid :=
    valid shape ((same shape).mp listed)
  apply Within.antisymm (valid_unify othersValid) (valid_unify valid)
  · exact unify_within othersValid (valid_unify valid)
      fun shape listed _ => mem_unify ((same shape).mp listed)
  · exact unify_within valid (valid_unify othersValid)
      fun shape listed _ => mem_unify ((same shape).mpr listed)

section Groups

variable {groups : List (List Shape)} {group : List Shape}
  (valid : ∀ shape ∈ groups.flatten, shape.Valid)
include valid

theorem valid_of_mem (listed : group ∈ groups) : ∀ shape ∈ group, shape.Valid :=
  fun shape member => valid shape (List.mem_flatten_of_mem listed member)

theorem unify_within_flatten (listed : group ∈ groups) :
    (unify group).Within (unify groups.flatten) :=
  unify_within (valid_of_mem valid listed) (valid_unify valid)
    fun _ member _ => mem_unify (List.mem_flatten_of_mem listed member)

theorem unify_map_unify : unify (groups.map unify) = unify groups.flatten := by
  have unifiedValid : ∀ unified ∈ groups.map unify, unified.Valid := by
    intro unified listed
    obtain ⟨group, groupListed, rfl⟩ := List.mem_map.mp listed
    exact valid_unify (valid_of_mem valid groupListed)
  apply Within.antisymm (valid_unify unifiedValid) (valid_unify valid)
  · refine unify_within unifiedValid (valid_unify valid) fun unified listed => ?_
    obtain ⟨group, groupListed, rfl⟩ := List.mem_map.mp listed
    exact unify_within_flatten valid groupListed
  · refine unify_within valid (valid_unify unifiedValid) fun shape listed value inside => ?_
    obtain ⟨group, groupListed, member⟩ := List.mem_flatten.mp listed
    exact mem_unify (List.mem_map_of_mem groupListed) (mem_unify member inside)

end Groups

/-! ## Widths held to the word -/

theorem held_cases (shape : Shape) : shape.held = .ok shape ∨ shape.held = .error .overflow := by
  unfold held
  split
  · exact Or.inl rfl
  · exact Or.inr rfl

/-- Room for the bit that an unsigned shape gets beside a signed one. -/
def Roomy (shape : Shape) : Prop := shape.signed = false → shape.width < Width.max

/-- No unsigned shape is of the largest width, if any of the shapes is signed. -/
def Paddable (shapes : List Shape) : Prop :=
  shapes.any Shape.signed = true → ∀ shape ∈ shapes, shape.Roomy

theorem width_unify_le_iff (inWord : ∀ shape ∈ shapes, shape.width ≤ Width.max) :
    (unify shapes).width ≤ Width.max ↔ Paddable shapes := by
  have bounded (signed : Bool) : widest shapes signed ≤ Width.max :=
    widest_le fun shape listed _ => inWord shape listed
  constructor
  · intro fits someSigned shape listed unsigned
    have wide := le_widest listed
    rw [unsigned] at wide
    rw [unify_of_signed someSigned] at fits
    exact Nat.lt_of_le_of_lt wide (Nat.lt_of_succ_le (Nat.max_le.mp fits).1)
  · intro paddable
    by_cases someSigned : shapes.any Shape.signed = true
    · have room : widest shapes false ≤ Width.max - 1 :=
        widest_le fun shape listed unsigned =>
          Nat.le_sub_one_of_lt (paddable someSigned shape listed unsigned)
      rw [unify_of_signed someSigned]
      exact Nat.max_le.mpr ⟨Nat.add_le_of_le_sub (by decide) room, bounded true⟩
    · rw [unify_of_unsigned someSigned]
      exact bounded false

theorem roomy_unify (room : ∀ shape ∈ shapes, shape.Roomy) : (unify shapes).Roomy := by
  intro unsigned
  rw [signed_unify] at unsigned
  have below : widest shapes false ≤ Width.max - 1 :=
    widest_le fun shape listed unsigned => Nat.le_sub_one_of_lt (room shape listed unsigned)
  rw [unify_of_unsigned (Bool.eq_false_iff.mp unsigned)]
  exact Nat.lt_of_le_sub_one (by decide) below

theorem unify?_eq_ok {found : Shape} (run : unify? shapes = .ok found) : found = unify shapes :=
  (held_eq_ok.mp run).2.symm

theorem unify?_eq_ok_iff (inWord : ∀ shape ∈ shapes, shape.width ≤ Width.max) :
    unify? shapes = .ok (unify shapes) ↔ Paddable shapes := by
  rw [unify?, held_eq_ok, and_iff_left rfl, width_unify_le_iff inWord]

theorem mapM_unify?_of_wide {groups : List (List Shape)} {group : List Shape}
    (listed : group ∈ groups) (wide : Width.max < (unify group).width) :
    groups.mapM unify? = .error .overflow := by
  cases run : groups.mapM unify? with
  | ok found =>
      obtain ⟨shape, _, here⟩ := exists_related (mapM_eq_ok.mp run).flip listed
      exact absurd (held_eq_ok.mp here).1 (Nat.not_le.mpr wide)
  | error fault =>
      obtain ⟨_, other, _, _, _, failed⟩ := mapM_eq_error.mp run
      rcases held_cases (unify other) with found | overflow
      · rw [unify?, found] at failed
        cases failed
      · rw [unify?, overflow] at failed
        rw [← Except.error.inj failed]

/-- Unifying groups in words overflows exactly where unifying all of their members does. -/
theorem bind_unify?_mapM {groups : List (List Shape)}
    (valid : ∀ shape ∈ groups.flatten, shape.Valid) :
    (groups.mapM unify?).bind unify? = unify? groups.flatten := by
  by_cases held : ∀ group ∈ groups, (unify group).width ≤ Width.max
  · have each : groups.mapM unify? = .ok (groups.map unify) := by
      rw [mapM_eq_ok, List.forall₂_map_right_iff, List.forall₂_same]
      exact fun group listed => held_eq_ok.mpr ⟨held group listed, rfl⟩
    rw [each, Except.bind, unify?, unify?, unify_map_unify valid]
  · obtain ⟨group, listed, wide⟩ : ∃ group ∈ groups, Width.max < (unify group).width := by
      simpa using held
    -- A group that is too wide makes the shape of all members too wide.
    have wider : (unify group).width ≤ (unify groups.flatten).width :=
      (unify_within_flatten valid listed).width_le (valid_unify (valid_of_mem valid listed))
        (valid_unify valid)
    rw [mapM_unify?_of_wide listed wide, Except.bind, unify?, eq_comm, held_eq_overflow]
    exact Nat.lt_of_lt_of_le wide wider

/-- The shape of several shapes holds what they hold in the fewest bits, is signed only with one of
them, and depends neither on their order and number nor on their grouping.  It is found in words
unless an unsigned shape has the largest width beside a signed one, and an overflow there. -/
theorem unify_least (valid : ∀ shape ∈ shapes, shape.Valid)
    (inWord : ∀ shape ∈ shapes, shape.width ≤ Width.max) :
    (∀ found, unify? shapes = .ok found →
      (∀ shape ∈ shapes, ∀ value ∈ shape, value ∈ found) ∧
      (∀ other : Shape, other.Valid → (∀ shape ∈ shapes, ∀ value ∈ shape, value ∈ other) →
        found.width ≤ other.width) ∧
      (found.signed = true → ∃ shape ∈ shapes, shape.signed = true)) ∧
    (∀ others : List Shape, (∀ shape, shape ∈ others ↔ shape ∈ shapes) →
      unify? others = unify? shapes) ∧
    (∀ groups : List (List Shape), groups.flatten = shapes →
      (groups.mapM unify?).bind unify? = unify? shapes) ∧
    ((∃ found, unify? shapes = .ok found) ↔ Paddable shapes) ∧
    (unify? shapes = .error .overflow ↔ ¬ Paddable shapes) := by
  refine ⟨?least, ?order, ?groups, ?found, ?overflow⟩
  case least =>
    intro found run
    rw [unify?_eq_ok run]
    refine ⟨fun shape listed value inside => mem_unify listed inside,
      fun other otherValid above => ?_, fun signed => ?_⟩
    · exact Within.width_le (valid_unify valid) otherValid (unify_within valid otherValid above)
    · rw [signed_unify] at signed
      exact List.any_eq_true.mp signed
  case order =>
    intro others same
    rw [unify?, unify?, unify_congr valid same]
  case groups =>
    rintro groups rfl
    exact bind_unify?_mapM valid
  case found =>
    rw [← unify?_eq_ok_iff inWord]
    exact ⟨fun ⟨found, run⟩ => unify?_eq_ok run ▸ run, fun run => ⟨_, run⟩⟩
  case overflow =>
    rw [unify?, held_eq_overflow, ← Nat.not_le, width_unify_le_iff inWord]

/-- A number of three bits, a signed one of two and a number of four, in two groups, and once more
in another order with one of them repeated. -/
theorem unify_least_threeShapes :
    ([[⟨3, false⟩, ⟨2, true⟩], [⟨4, false⟩]].mapM unify?).bind unify? = .ok ⟨5, true⟩ ∧
      unify? [⟨4, false⟩, ⟨2, true⟩, ⟨3, false⟩, ⟨2, true⟩] = .ok ⟨5, true⟩ ∧
      (15 : Int) ∈ (⟨5, true⟩ : Shape) := by
  obtain ⟨holds, same, grouped, _, _⟩ :=
    @unify_least [⟨3, false⟩, ⟨2, true⟩, ⟨4, false⟩] (by simp [Valid]) (by decide)
  have found : unify? [⟨3, false⟩, ⟨2, true⟩, ⟨4, false⟩] = .ok ⟨5, true⟩ := rfl
  refine ⟨(grouped _ rfl).trans found, (same _ fun shape => ?_).trans found, ?_⟩
  · simp only [List.mem_cons, List.not_mem_nil, or_false]
    tauto
  · exact (holds _ found).1 ⟨4, false⟩ (by simp) 15 (by decide)

/-- Beside a signed shape the widest unsigned one has no room for the bit that it needs. -/
theorem not_unify_least_widest :
    (∀ shape ∈ [(⟨2 ^ 64 - 1, false⟩ : Shape), ⟨1, true⟩], shape.Valid) ∧
      unify? [⟨2 ^ 64 - 1, false⟩, ⟨1, true⟩] = .error .overflow ∧
      unify [⟨2 ^ 64 - 1, false⟩, ⟨1, true⟩] = ⟨2 ^ 64, true⟩ := by
  refine ⟨by simp [Valid], rfl, rfl⟩

end Gateware.Shape
