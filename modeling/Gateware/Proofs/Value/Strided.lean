import Gateware.Proofs.Strides
import Gateware.Proofs.Value.Folding

/-!
# Stepped slices

In exact arithmetic a stepped slice joins the single bits at the places that its range comes to.
Backwards over the whole value these are all bits from the last one to the first, and doing so
twice gives a constant its bits again.
-/

set_option autoImplicit false

namespace Gateware

open Reckoning

def Index.backwards : Index := .range none none (-1)

theorem sum_eq_length {widths : List Nat} (ones : ∀ width ∈ widths, width = 1) :
    widths.sum = widths.length := by
  rw [List.eq_replicate_of_mem ones, List.sum_replicate_nat, List.length_replicate, Nat.mul_one]

namespace Value

variable {value : Value} {constant : Const} {first last step : Int} {start stop : Option Int}
  {places : List Nat}

def bitsAt (value : Value) (places : List Nat) : Value :=
  .concat (places.map fun place => .slice value place (place + 1))

theorem width_bitsAt (inside : ∀ place ∈ places, place + 1 < 2 ^ 64) :
    (value.bitsAt places).width = places.length := by
  have widths : ((places.map fun place => Value.slice value place (place + 1)).map width).sum =
      places.length := by
    rw [sum_eq_length, List.length_map, List.length_map]
    intro one listed
    rw [List.map_map] at listed
    obtain ⟨place, chosen, rfl⟩ := List.mem_map.mp listed
    exact (width_slice (Nat.le_succ place) (inside place chosen)).trans
      (Nat.add_sub_cancel_left place 1)
  rw [bitsAt, width_concat, widths]

/-! ## Stepped ranges -/

theorem bitAt_natCast {place : Nat} (narrow : place + 1 < 2 ^ 64) :
    value.bitAt place = .slice value place (place + 1) := by
  rw [bitAt, Position.toWidth_natCast (by omega)]

theorem run_id_reckonIndex_range (fits : value.width < 2 ^ 64) (notZero : step ≠ 0)
    (notOne : step ≠ 1) (ends : Picked.reach value.width start stop step = (first, last)) :
    (value.reckonIndex (.range start stop step)).run id =
      .ok (value.bitsAt (Picked.strided first last step)) := by
  have parts : (Picked.strided first last step).map (fun place : Nat => value.bitAt place) =
      (Picked.strided first last step).map fun place => .slice value place (place + 1) := by
    refine List.map_congr_left fun place listed => ?_
    have inside := Picked.strided_lt notZero ends place listed
    exact bitAt_natCast (by omega)
  rw [reckonIndex, run_bind, Picked.run_id_reckonStepped notZero notOne ends,
    ← Picked.cast_strided notZero ends, run_pure, bitsAt, ← parts]
  simp only [Except.map, List.map_map, Function.comp_def]

theorem width_bitsAt_strided (fits : value.width < 2 ^ 64) (nonzero : step ≠ 0)
    (ends : Picked.reach value.width start stop step = (first, last)) :
    (value.bitsAt (Picked.strided first last step)).width = Picked.strides first last step := by
  have inside := Picked.strided_lt nonzero ends
  rw [width_bitsAt fun place listed => by have := inside place listed; omega,
    Picked.length_strided]

/-! ## Backwards -/

theorem strided_backwards (width : Nat) :
    Picked.strided ((width : Int) - 1) (-1) (-1) = (List.range width).reverse := by
  have all : Picked.strides ((width : Int) - 1) (-1) (-1) = width :=
    eq_of_forall_lt_iff fun taken => by
      rw [Picked.lt_strides_iff (by decide)]
      simp only [Picked.Ahead]
      omega
  rw [Picked.strided, all, List.range_eq_range', List.reverse_range', ← List.range_eq_range']
  refine List.map_congr_left fun taken listed => ?_
  have within := List.mem_range.mp listed
  omega

theorem run_id_backwards (fits : value.width < 2 ^ 64) :
    (value.reckonIndex Index.backwards).run id =
      .ok (value.bitsAt (List.range value.width).reverse) := by
  have ends : Picked.reach value.width none none (-1) = ((value.width : Int) - 1, -1) := rfl
  rw [Index.backwards, run_id_reckonIndex_range fits (by decide) (by decide) ends,
    strided_backwards]

end Value

namespace Const

variable {constant left right : Const}

def bitsAt (constant : Const) (places : List Nat) : Const :=
  concat (places.map fun place => constant.slice place (place + 1))

theorem length_bitList (constant : Const) : constant.bitList.length = constant.width :=
  Binary.length_lowBits _ _

theorem bits_eq_of_bitList_eq (same : left.bitList = right.bitList) : left.bits = right.bits := by
  have widths : left.width = right.width := by
    simpa only [length_bitList] using congrArg List.length same
  rw [bitList_eq, bitList_eq, ← widths] at same
  rw [bits, bits, ← widths]
  exact Binary.residue_eq_of_lowBits_eq same

theorem flatMap_backwards (bits : List Bool) (count : Nat) :
    ((List.range count).reverse.flatMap fun place => (bits.drop place).take 1) =
      (bits.take count).reverse := by
  induction count with
  | zero => rfl
  | succ count ih =>
      have single : ((bits.drop count).take 1).reverse = (bits.drop count).take 1 := by
        cases bits.drop count <;> rfl
      rw [List.range_succ, List.reverse_append, List.reverse_singleton, List.singleton_append,
        List.flatMap_cons, ih, List.take_add, List.reverse_append, single]

theorem slice_one {place : Nat} (inside : place < constant.width) (fits : constant.width < 2 ^ 64) :
    (constant.slice place (place + 1)).width = 1 ∧
      (constant.slice place (place + 1)).bitList = (constant.bitList.drop place).take 1 := by
  obtain ⟨shape, bits⟩ := slice_spec (Nat.le_succ place) inside (by omega)
  rw [Nat.succ_eq_add_one, Nat.add_sub_cancel_left] at shape bits
  exact ⟨congrArg Shape.width shape, bits⟩

theorem bitsAt_backwards (fits : constant.width < 2 ^ 64) :
    (constant.bitsAt (List.range constant.width).reverse).shape = Shape.unsigned constant.width ∧
      (constant.bitsAt (List.range constant.width).reverse).bitList =
        constant.bitList.reverse := by
  have single (place : Nat) (listed : place ∈ (List.range constant.width).reverse) :=
    slice_one (List.mem_range.mp (List.mem_reverse.mp listed)) fits
  have widths : (((List.range constant.width).reverse.map fun place =>
      constant.slice place (place + 1)).map Const.width).sum = constant.width := by
    rw [sum_eq_length, List.length_map, List.length_map, List.length_reverse, List.length_range]
    intro one listed
    rw [List.map_map] at listed
    obtain ⟨place, chosen, rfl⟩ := List.mem_map.mp listed
    exact (single place chosen).1
  obtain ⟨shape, bits⟩ := concat_spec ((List.range constant.width).reverse.map fun place =>
    constant.slice place (place + 1))
  rw [widths] at shape
  refine ⟨shape, ?_⟩
  calc (constant.bitsAt (List.range constant.width).reverse).bitList
    _ = (List.range constant.width).reverse.flatMap fun place =>
          (constant.slice place (place + 1)).bitList := by rw [bitsAt, bits, List.flatMap_map]
    _ = (List.range constant.width).reverse.flatMap fun place =>
          (constant.bitList.drop place).take 1 :=
      List.flatMap_congr fun place listed => (single place listed).2
    _ = (constant.bitList.take constant.width).reverse := flatMap_backwards _ _
    _ = constant.bitList.reverse := by
      rw [List.take_of_length_le (Nat.le_of_eq constant.length_bitList)]

end Const

namespace Value

variable {value : Value} {constant : Const}

theorem width_of_fold? (folds : value.fold? = some constant) : constant.width = value.width := by
  induction value.tree generalizing constant with
  | @node value _ below ih =>
      cases value with
      | const constant =>
          cases folds
          rfl
      | slice value start stop =>
          obtain ⟨folded, valueFolds, rfl⟩ := Option.map_eq_some_iff.mp folds
          rfl
      | concat parts =>
          obtain ⟨folded, partsFold, rfl⟩ := Option.map_eq_some_iff.mp folds
          have each : ∀ part ∈ parts, ∀ {constant : Const}, part.fold? = some constant →
              constant.width = part.width := fun part listed => ih part listed
          have related : List.Forall₂ (fun part constant => Const.width constant = width part)
              parts folded :=
            (List.forall₂_and_left _ _ |>.mpr ⟨each, foldParts?_eq_some.mp partsFold⟩).imp
              fun part constant ⟨same, partFolds⟩ => same partFolds
          have widths : folded.map Const.width = parts.map width := by
            rw [← List.forall₂_eq_eq_eq, List.forall₂_map_left_iff, List.forall₂_map_right_iff]
            exact related.flip
          rw [Const.width_concat, widths, width_concat]
      | _ => cases folds

/-- The bits at some places of a value fold to those of the constant that it folds to. -/
theorem fold?_bitsAt (folds : value.fold? = some constant) (places : List Nat) :
    (value.bitsAt places).fold? = some (constant.bitsAt places) := by
  have parts : foldParts? (places.map fun place => .slice value place (place + 1)) =
      some (places.map fun place => constant.slice place (place + 1)) := by
    rw [foldParts?_eq_some, List.forall₂_map_left_iff, List.forall₂_map_right_iff, List.forall₂_same]
    intro place _
    rw [fold?, folds]
    rfl
  rw [bitsAt, fold?, parts]
  rfl

theorem castConst_value_eq_ok {design : Design} :
    design.castConst (.value value) = .ok constant ↔ value.fold? = some constant := by
  have given : design.castConst (.value value) = value.toConst := by
    rw [Design.castConst, Design.cast, Design.castWithin]
    rfl
  rw [given, toConst]
  cases value.fold? with
  | none => simp
  | some folded => simp

theorem width_backwards (fits : value.width < 2 ^ 64) :
    (value.bitsAt (List.range value.width).reverse).width = value.width := by
  rw [width_bitsAt, List.length_reverse, List.length_range]
  intro place listed
  have inside := List.mem_range.mp (List.mem_reverse.mp listed)
  omega

theorem exists_reversed (fits : value.width < 2 ^ 64) (folds : value.fold? = some constant) :
    ∃ reversed back, (value.reckonIndex .backwards).run id = .ok reversed ∧
      reversed.width = value.width ∧ reversed.fold? = some back ∧
      back.shape = Shape.unsigned value.width ∧ back.bitList = constant.bitList.reverse := by
  have sameWidth := width_of_fold? folds
  obtain ⟨shape, bits⟩ := Const.bitsAt_backwards (sameWidth ▸ fits)
  rw [sameWidth] at shape bits
  exact ⟨_, _, run_id_backwards fits, width_backwards fits, fold?_bitsAt folds _, shape, bits⟩

theorem index_backwards (narrow : value.width < 2 ^ 63) :
    value.index .backwards = (value.reckonIndex .backwards).run id := by
  have inWord : Index.backwards.InWord := ⟨by simp, by simp, by decide⟩
  exact index_eq_run_id narrow inWord (Picked.not_overruns_of_le_one narrow inWord (by decide))

theorem exists_restored (fits : value.width < 2 ^ 64) (folds : value.fold? = some constant) :
    ∃ reversed restored back, (value.reckonIndex .backwards).run id = .ok reversed ∧
      (reversed.reckonIndex .backwards).run id = .ok restored ∧ reversed.width = value.width ∧
      restored.fold? = some back ∧ back.shape = Shape.unsigned value.width ∧
      back.bits = constant.bits := by
  obtain ⟨reversed, middle, once, sameWidth, foldsOnce, _, bitsOnce⟩ := exists_reversed fits folds
  obtain ⟨restored, back, twice, _, foldsTwice, shape, bitsTwice⟩ :=
    exists_reversed (sameWidth ▸ fits) foldsOnce
  rw [bitsOnce, List.reverse_reverse] at bitsTwice
  exact ⟨reversed, restored, back, once, twice, sameWidth, foldsTwice, sameWidth ▸ shape,
    Const.bits_eq_of_bitList_eq bitsTwice⟩

/-- Read in exact arithmetic, a stepped range joins the single bits at the places that its first
one leads to by the step, as long as they lie before the last; these are places inside the value,
one after the other, as many as strides fit between the ends.  However long the walk may go on, it
comes to just these.  So does the range itself, unless its walk passes the largest position, and
backwards twice a constant has its bits again. -/
theorem index_strided {value : Value} {start stop : Option Int} {step first last : Int}
    (fits : value.width < 2 ^ 64) (notZero : step ≠ 0) (notOne : step ≠ 1)
    (ends : Picked.reach value.width start stop step = (first, last)) :
    (∃ places : List Nat,
      (value.reckonIndex (.range start stop step)).run id = .ok (value.bitsAt places) ∧
      places.map (fun place : Nat => (place : Int)) =
        (List.range (Picked.strides first last step)).map (fun taken : Nat => first + taken * step) ∧
      (∀ taken : Nat, taken < Picked.strides first last step ↔
        Picked.Ahead last step (first + taken * step)) ∧
      (∀ place ∈ places, place < value.width) ∧ places.Nodup ∧
      (value.bitsAt places).width = Picked.strides first last step ∧
      (∀ count ≥ Picked.strides first last step,
        (Picked.reckonWalk count first last step).run id =
          places.map fun place : Nat => (place : Int)) ∧
      (value.width < 2 ^ 63 → (Index.range start stop step).InWord →
        ¬ (Index.range start stop step).Overruns value.width →
        value.index (.range start stop step) = .ok (value.bitsAt places))) ∧
    ∀ (design : Design) (constant : Const), design.castConst (.value value) = .ok constant →
      ∃ reversed restored back, (value.reckonIndex .backwards).run id = .ok reversed ∧
        (reversed.reckonIndex .backwards).run id = .ok restored ∧
        design.castConst (.value restored) = .ok back ∧
        back.shape = Shape.unsigned value.width ∧ back.bits = constant.bits ∧
        (value.width < 2 ^ 63 →
          value.index .backwards = .ok reversed ∧ reversed.index .backwards = .ok restored) := by
  constructor
  · have reading := run_id_reckonIndex_range fits notZero notOne ends
    have walked := Picked.cast_strided notZero ends
    refine ⟨Picked.strided first last step, reading, walked, Picked.lt_strides_iff notZero,
      Picked.strided_lt notZero ends, Picked.nodup_strided notZero ends,
      width_bitsAt_strided fits notZero ends, ?_, ?_⟩
    · intro count enough
      rw [walked, Picked.run_id_reckonWalk, Picked.progression_eq_map notZero enough]
    · intro narrow inWord stays
      rw [index_eq_run_id narrow inWord stays, reading]
  · intro design constant given
    obtain ⟨reversed, restored, back, once, twice, sameWidth, folds, shape, bits⟩ :=
      exists_restored fits (castConst_value_eq_ok.mp given)
    refine ⟨reversed, restored, back, once, twice, castConst_value_eq_ok.mpr folds, shape, bits, ?_⟩
    intro narrow
    exact ⟨(index_backwards narrow).trans once, (index_backwards (sameWidth ▸ narrow)).trans twice⟩

def minusThree : Value := .const ⟨-3, ⟨4, true⟩⟩

/-- Every third bit from the last one on, and all of them there and back. -/
theorem index_strided_minusThree :
    minusThree.width < 2 ^ 64 ∧ (-3 : Int) ≠ 0 ∧ (-3 : Int) ≠ 1 ∧
      Picked.reach minusThree.width none none (-3) = (3, -1) ∧
      (minusThree.reckonIndex (.range none none (-3))).run id = .ok (minusThree.bitsAt [3, 0]) ∧
      ∃ reversed restored back, (minusThree.reckonIndex .backwards).run id = .ok reversed ∧
        (reversed.reckonIndex .backwards).run id = .ok restored ∧
        Design.castConst {} (.value restored) = .ok back ∧ back.bits = 13 := by
  have fits : minusThree.width < 2 ^ 64 := by decide
  have ends : Picked.reach minusThree.width none none (-3) = (3, -1) := rfl
  obtain ⟨⟨places, reading, listed, _⟩, restores⟩ :=
    index_strided fits (by decide) (by decide) ends
  have two : Picked.strides 3 (-1) (-3) = 2 := by decide
  have places_eq : places = [3, 0] := by
    rw [two] at listed
    exact List.map_injective_iff.mpr Nat.cast_injective listed
  rw [places_eq] at reading
  obtain ⟨reversed, restored, back, once, twice, folds, _, bits, _⟩ :=
    restores {} ⟨-3, ⟨4, true⟩⟩ rfl
  exact ⟨fits, by decide, by decide, ends, reading, reversed, restored, back, once, twice, folds,
    bits⟩

end Value

end Gateware
