import Gateware.Proofs.Value.Constructors
import Gateware.Proofs.Value.Meaning

/-!
# Parts at constant offsets

At a constant offset a selection is a slice, whose bounds saturate and are held inside the value;
at any other one it is a part, which counts its offset without bound and reads zeros past the top
of the value.  Where the offset of a part is a constant, both read the same number.
-/

set_option autoImplicit false

namespace Gateware.Value

variable {value : Value} {offset : Const} {start width : Int}

theorem clamp_saturate (narrow : value.width < 2 ^ 63) (notNegative : 0 ≤ start) :
    Picked.clamp value.width 0 value.width (Position.saturate start) =
      (min start.toNat value.width : Nat) := by
  rw [Position.saturate_of_nonneg notNegative]
  unfold Position.max
  rw [Picked.clamp_of_nonneg (by omega)]
  omega

/-- A run from a place on, however far it goes, is cut off at the top of the value. -/
theorem clamped_saturate (narrow : value.width < 2 ^ 63) (notNegative : 0 ≤ start)
    (forward : 0 ≤ width) :
    value.clamped (some (Position.saturate start))
        (some (Position.saturate (Position.saturate start + width))) =
      .slice value (min start.toNat value.width) (min (start.toNat + width.toNat) value.width) := by
  have sum : (start + width).toNat = start.toNat + width.toNat := Int.toNat_add notNegative forward
  have first := clamp_saturate narrow notNegative
  have last := clamp_saturate narrow (Int.add_nonneg notNegative forward)
  simp only [clamped, Position.ofWidth_eq narrow, Option.map_some, Option.getD_some,
    Position.saturate_add notNegative forward, first, last, sum]
  rw [max_eq_left (by omega), Position.toWidth_natCast (by omega),
    Position.toWidth_natCast (by omega)]

theorem eval_slice_min (environment : Environment) (low count : Nat) :
    (slice value (min low value.width) (min (low + count) value.width)).eval environment =
      Binary.residue (Binary.residue (value.eval environment) value.width / 2 ^ low : Nat)
        count := by
  have bounded := Binary.residue_lt (value.eval environment) value.width
  have inside : min low value.width + (min (low + count) value.width - min low value.width) ≤
      value.width := by
    omega
  rw [eval, Binary.residue_fdiv inside, Binary.div_mod_of_lt bounded, Binary.residue_natCast]

theorem nonneg_of_unsigned (wellFormed : offset.WellFormed)
    (unsignedOffset : offset.shape.signed = false) : 0 ≤ offset.value := by
  obtain ⟨value, width, signed⟩ := offset
  cases (unsignedOffset : signed = false)
  exact (Shape.mem_unsigned.mp wellFormed.2).1

theorem bitSelect_const (narrow : value.width < 2 ^ 63) (notNegative : 0 ≤ offset.value)
    (legal : 0 ≤ width) :
    value.bitSelect (.const offset) width =
      .ok (.slice value (min offset.value.toNat value.width)
        (min (offset.value.toNat + width.toNat) value.width)) := by
  rw [bitSelect, if_neg (by omega)]
  exact congrArg Except.ok (clamped_saturate narrow notNegative legal)

theorem wordSelect_const (narrow : value.width < 2 ^ 63) (notNegative : 0 ≤ offset.value)
    (legal : 0 < width) :
    value.wordSelect (.const offset) width =
      .ok (.slice value (min (offset.value.toNat * width.toNat) value.width)
        (min (offset.value.toNat * width.toNat + width.toNat) value.width)) := by
  have product : 0 ≤ offset.value * width := Int.mul_nonneg notNegative (by omega)
  have words : (offset.value * width).toNat = offset.value.toNat * width.toNat :=
    Int.toNat_mul notNegative (by omega)
  rw [wordSelect, if_neg (by omega)]
  simp only [Position.saturate_mul notNegative legal]
  rw [clamped_saturate narrow product (by omega), words]

theorem partOf_const {stride : Int} (unsignedOffset : offset.shape.signed = false)
    (legal : 0 ≤ width) (positive : 0 < stride) :
    value.partOf (.const offset) width stride =
      .ok (.part value (.const offset) width.toNat stride.toNat) := by
  rw [partOf, if_neg (by omega), if_neg (by omega), shape, unsignedOffset]
  rfl

theorem eval_part_const (environment : Environment) (count stride : Nat) :
    (part value (.const offset) count stride).eval environment =
      Binary.residue (Binary.residue (value.eval environment) value.width /
        2 ^ (offset.value.toNat * stride) : Nat) count := by
  rw [eval, eval]

/-- A selection of bits or of a word at a constant offset, however large, is a slice that stands
for the same integer as the part of the value at that offset. -/
theorem eval_select_eq_eval_part (environment : Environment) (narrow : value.width < 2 ^ 63)
    (wellFormed : offset.WellFormed) (unsignedOffset : offset.shape.signed = false) :
    (0 ≤ width → ∃ start stop part,
      value.bitSelect (.const offset) width = .ok (.slice value start stop) ∧
      value.partOf (.const offset) width 1 = .ok part ∧
      (slice value start stop).eval environment = part.eval environment) ∧
    (0 < width → ∃ start stop part,
      value.wordSelect (.const offset) width = .ok (.slice value start stop) ∧
      value.partOf (.const offset) width width = .ok part ∧
      (slice value start stop).eval environment = part.eval environment) := by
  have notNegative := nonneg_of_unsigned wellFormed unsignedOffset
  constructor
  · intro legal
    refine ⟨_, _, _, bitSelect_const narrow notNegative legal,
      partOf_const unsignedOffset legal (by decide), ?_⟩
    rw [eval_slice_min, eval_part_const]
    simp
  · intro legal
    refine ⟨_, _, _, wordSelect_const narrow notNegative legal,
      partOf_const unsignedOffset (by omega) legal, ?_⟩
    rw [eval_slice_min, eval_part_const]

/-- The second word of three bits of a value of four, the highest bit of which is set. -/
theorem eval_select_acrossTop :
    (Const.ofInt 1).WellFormed ∧ ∃ start stop part,
      nibble.wordSelect (.const (Const.ofInt 1)) 3 = .ok (.slice nibble start stop) ∧
      nibble.partOf (.const (Const.ofInt 1)) 3 3 = .ok part ∧
      (slice nibble start stop).eval (Environment.zero.withSignal ⟨0, "v", Shape.unsigned 4⟩ 11
          (by decide)) =
        part.eval (Environment.zero.withSignal ⟨0, "v", Shape.unsigned 4⟩ 11 (by decide)) := by
  have wellFormed := Const.wellFormed_ofInt 1
  exact ⟨wellFormed, (eval_select_eq_eval_part _ (by decide) wellFormed rfl).2 (by decide)⟩

end Gateware.Value
