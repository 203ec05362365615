import Gateware.Design.Cast
import Gateware.Proofs.Binary
import Gateware.Proofs.Session
import Gateware.Proofs.Value.WellFormed

/-!
# Constant folding

A value folds exactly if it is made of constants, concatenations and slices, and the
constant that it folds to has its shape and its bits.
-/

set_option autoImplicit false

namespace Gateware

namespace Const

/-- The bits of the unsigned pattern of a constant, the least significant first. -/
def bitList (constant : Const) : List Bool := Binary.lowBits constant.bits constant.width

theorem bitList_eq (constant : Const) :
    constant.bitList = Binary.lowBits constant.value constant.width :=
  Binary.lowBits_residue constant.value constant.width

theorem bitList_fit_unsigned (value : Int) (width : Nat) :
    (fit value (Shape.unsigned width)).bitList = Binary.lowBits value width := by
  have reduced : (fit value (Shape.unsigned width)).value = Binary.residue value width := by
    have positive : (0 : Int) < 2 ^ width := Binary.two_pow_pos width
    have lower := Int.emod_nonneg value (Int.ne_of_gt positive)
    rw [fit, Shape.unsigned, Shape.fit_unsigned, Binary.residue]
    exact (Int.toNat_of_nonneg lower).symm
  rw [bitList_eq, reduced]
  exact Binary.lowBits_residue value width

theorem bitList_foldl (parts : List Const) (joined width : Nat) (bounded : joined < 2 ^ width) :
    ∃ bits, parts.foldl (fun (bits, width) part =>
          (bits ||| part.bits <<< width, width + part.width)) (joined, width) =
        (bits, width + (parts.map Const.width).sum) ∧
      Binary.lowBits bits (width + (parts.map Const.width).sum) =
        Binary.lowBits joined width ++ parts.flatMap bitList := by
  -- The bound on what is joined so far is what the induction carries along.
  induction parts generalizing joined width with
  | nil => exact ⟨joined, rfl, by simp⟩
  | cons first rest ih =>
      have part : first.bits < 2 ^ first.width := Binary.residue_lt _ _
      have stays : joined ||| first.bits <<< width < 2 ^ (width + first.width) := by
        apply Nat.or_lt_two_pow
        · exact Nat.lt_of_lt_of_le bounded (Nat.pow_le_pow_right (by decide) (Nat.le_add_right _ _))
        · rw [Nat.shiftLeft_eq, Nat.mul_comm, Nat.pow_add]
          exact Nat.mul_lt_mul_of_pos_left part (Nat.two_pow_pos _)
      obtain ⟨bits, folded, same⟩ := ih _ _ stays
      rw [List.map_cons, List.sum_cons, ← Nat.add_assoc]
      refine ⟨bits, folded, ?_⟩
      rw [same, Binary.lowBits_or_shiftLeft _ _ bounded, List.flatMap_cons, List.append_assoc]
      rfl

theorem concat_spec (parts : List Const) :
    (concat parts).shape = Shape.unsigned (parts.map Const.width).sum ∧
      (concat parts).bitList = parts.flatMap bitList := by
  obtain ⟨bits, folded, same⟩ := bitList_foldl parts 0 0 (by decide)
  rw [Nat.zero_add] at folded same
  unfold concat
  rw [folded]
  refine ⟨rfl, ?_⟩
  rw [bitList_fit_unsigned, same]
  rfl

theorem width_concat (parts : List Const) : (concat parts).width = (parts.map Const.width).sum :=
  congrArg Shape.width (concat_spec parts).1

theorem slice_spec {constant : Const} {start stop : Nat} (ordered : start ≤ stop)
    (inside : stop ≤ constant.width) (fits : stop < 2 ^ 64) :
    (constant.slice start stop).shape = Shape.unsigned (stop - start) ∧
      (constant.slice start stop).bitList =
        (constant.bitList.drop start).take (stop - start) := by
  unfold slice
  rw [Width.between_eq ordered fits]
  refine ⟨rfl, ?_⟩
  rw [bitList_fit_unsigned]
  exact Binary.lowBits_shiftRight constant.bits inside

end Const

namespace Value

mutual

def bits : Value → List Bool
  | .const constant => Binary.lowBits constant.value constant.width
  | .concat parts => partBits parts
  | .slice value start stop => (value.bits.drop start).take (stop - start)
  | _ => []

def partBits : List Value → List Bool
  | [] => []
  | value :: rest => value.bits ++ partBits rest

end

/-- A node that folds when its parts do. -/
def Folds : Value → Prop
  | .const _ | .concat _ | .slice _ _ _ => True
  | _ => False

theorem foldParts?_eq_some {parts : List Value} {folded : List Const} :
    foldParts? parts = some folded ↔
      List.Forall₂ (fun part constant => part.fold? = some constant) parts folded := by
  induction parts generalizing folded with
  | nil =>
      rw [foldParts?]
      cases folded <;> simp
  | cons first rest ih =>
      rw [foldParts?, List.forall₂_cons_left_iff]
      simp only [Option.bind_eq_some_iff, Option.map_eq_some_iff]
      constructor
      · rintro ⟨constant, firstFolds, tail, restFolds, rfl⟩
        exact ⟨constant, tail, firstFolds, ih.mp restFolds, rfl⟩
      · rintro ⟨constant, tail, firstFolds, restFolds, rfl⟩
        exact ⟨constant, firstFolds, tail, ih.mpr restFolds, rfl⟩

theorem exists_foldParts?_iff {parts : List Value} :
    (∃ folded, foldParts? parts = some folded) ↔
      ∀ part ∈ parts, ∃ constant, part.fold? = some constant := by
  constructor
  · rintro ⟨folded, partsFold⟩ part listed
    obtain ⟨constant, _, partFolds⟩ := exists_related (foldParts?_eq_some.mp partsFold).flip listed
    exact ⟨constant, partFolds⟩
  · intro each
    induction parts with
    | nil => exact ⟨[], rfl⟩
    | cons first rest ih =>
        obtain ⟨constant, firstFolds⟩ := each first List.mem_cons_self
        obtain ⟨folded, restFold⟩ := ih fun part later => each part (List.mem_cons_of_mem _ later)
        exact ⟨constant :: folded, by rw [foldParts?, firstFolds, restFold]; rfl⟩

theorem exists_fold?_iff {value : Value} :
    (∃ constant, value.fold? = some constant) ↔ value.Every Folds := by
  induction value.tree with
  | @node value _ below ih =>
      cases value with
      | const constant => exact iff_of_true ⟨constant, rfl⟩ (every_iff.mpr ⟨trivial, nofun⟩)
      | concat parts =>
          constructor
          · rintro ⟨_, folds⟩
            obtain ⟨folded, partsFold, _⟩ := Option.map_eq_some_iff.mp folds
            apply every_iff.mpr ⟨trivial, _⟩
            intro part listed
            exact (ih part listed).mp (exists_foldParts?_iff.mp ⟨folded, partsFold⟩ part listed)
          · intro every
            obtain ⟨folded, partsFold⟩ : ∃ folded, foldParts? parts = some folded :=
              exists_foldParts?_iff.mpr fun part listed => (ih part listed).mpr (every.child listed)
            exact ⟨Const.concat folded, by rw [fold?, partsFold]; rfl⟩
      | slice value start stop =>
          have member : value ∈ (Value.slice value start stop).children := List.mem_cons_self
          constructor
          · rintro ⟨_, folds⟩
            obtain ⟨constant, valueFolds, _⟩ := Option.map_eq_some_iff.mp folds
            apply every_iff.mpr ⟨trivial, _⟩
            intro child childMember
            rw [List.mem_singleton.mp childMember]
            exact (ih value member).mp ⟨constant, valueFolds⟩
          · intro every
            obtain ⟨constant, valueFolds⟩ := (ih value member).mpr (every.child member)
            exact ⟨constant.slice start stop, by rw [fold?, valueFolds]; rfl⟩
      | _ =>
          constructor
          · rintro ⟨_, folds⟩
            cases folds
          · intro every
            exact every.here.elim

theorem parts_spec {parts : List Value} {folded : List Const}
    (related : List.Forall₂
      (fun part constant => constant.shape = part.shape ∧ constant.bitList = part.bits)
      parts folded) :
    folded.map Const.width = parts.map width ∧ folded.flatMap Const.bitList = partBits parts := by
  induction related with
  | nil => exact ⟨rfl, rfl⟩
  | cons here _ ih =>
      obtain ⟨sameShape, sameBits⟩ := here
      obtain ⟨widths, bits⟩ := ih
      rw [List.map_cons, List.map_cons, List.flatMap_cons, partBits, widths, bits, sameBits]
      refine ⟨?_, rfl⟩
      rw [Const.width, width, sameShape]

/-- The constant that a value folds to has the shape and the bits of the value. -/
theorem fold?_spec {value : Value} {constant : Const} (wellFormed : value.WellFormed)
    (narrow : value.NarrowerThan (2 ^ 64)) (folds : value.fold? = some constant) :
    constant.shape = value.shape ∧ constant.bitList = value.bits := by
  induction wellFormed generalizing constant with
  | @node value here below ih =>
      cases value with
      | const constant =>
          cases folds
          exact ⟨rfl, Const.bitList_eq constant⟩
      | concat parts =>
          obtain ⟨folded, partsFold, rfl⟩ := Option.map_eq_some_iff.mp folds
          have related : List.Forall₂
              (fun part constant => constant.shape = part.shape ∧ constant.bitList = part.bits)
              parts folded := by
            have each : ∀ part ∈ parts, ∀ {constant : Const}, part.fold? = some constant →
                constant.shape = part.shape ∧ constant.bitList = part.bits :=
              fun part listed => ih part listed (narrow.child listed)
            have both := List.forall₂_and_left _ _ |>.mpr ⟨each, foldParts?_eq_some.mp partsFold⟩
            exact both.imp fun part constant ⟨spec, partFolds⟩ => spec partFolds
          obtain ⟨widths, bits⟩ := parts_spec related
          obtain ⟨sameShape, sameBits⟩ := Const.concat_spec folded
          rw [sameShape, sameBits, shape, totalWidth_eq_sum, widths]
          exact ⟨rfl, bits⟩
      | slice value start stop =>
          obtain ⟨folded, valueFolds, rfl⟩ := Option.map_eq_some_iff.mp folds
          have member : value ∈ (Value.slice value start stop).children := List.mem_cons_self
          obtain ⟨sameShape, sameBits⟩ := ih value member (narrow.child member) valueFolds
          obtain ⟨ordered, inside⟩ : start ≤ stop ∧ stop ≤ value.width := here.2
          have room : value.width < 2 ^ 64 := (narrow.child member).width_lt
          have insideFolded : stop ≤ folded.width := by
            rw [Const.width, sameShape]
            exact inside
          obtain ⟨sliceShape, sliceBits⟩ :=
            Const.slice_spec ordered insideFolded (by omega)
          rw [sliceShape, sliceBits, shape, Width.between_eq ordered (by omega), sameBits]
          exact ⟨rfl, rfl⟩
      | _ => cases folds

/-- Casting a value to a constant succeeds exactly on the values made of constants,
concatenations and slices, and keeps the shape and the bits. -/
theorem castConst_value_spec (design : Design) {value : Value} (wellFormed : value.WellFormed)
    (narrow : value.NarrowerThan (2 ^ 64)) :
    ((∃ constant, design.castConst (.value value) = .ok constant) ↔ value.Every Folds) ∧
      ∀ constant, design.castConst (.value value) = .ok constant →
        constant.shape = value.shape ∧ constant.bitList = value.bits := by
  have cast (constant : Const) :
      design.castConst (.value value) = .ok constant ↔ value.fold? = some constant := by
    have given : design.castConst (.value value) = value.toConst := by
      rw [Design.castConst, Design.cast, Design.castWithin]
      rfl
    rw [given, toConst]
    cases value.fold? with
    | none => simp
    | some folded => simp
  constructor
  · simp only [cast]
    exact exists_fold?_iff
  · intro constant given
    exact fold?_spec wellFormed narrow ((cast constant).mp given)

def threeBits : Value :=
  .concat [.slice (.const ⟨-1, ⟨4, true⟩⟩) 1 3, .const ⟨0, Shape.bit⟩]

theorem castConst_threeBits :
    ∃ constant, Design.castConst {} (.value threeBits) = .ok constant ∧
      constant.shape = Shape.unsigned 3 ∧ constant.bitList = [true, true, false] := by
  have wellFormed : threeBits.WellFormed := by
    simp only [threeBits, wellFormed_concat, List.forall_mem_cons, wellFormed_slice]
    refine ⟨⟨⟨by decide, by decide⟩, wellFormed_const ⟨by decide, by decide⟩⟩, ?_, by simp⟩
    exact wellFormed_const ⟨by decide, by decide⟩
  have leaf (constant : Const) (small : constant.width < 2 ^ 64) :
      (Value.const constant).NarrowerThan (2 ^ 64) :=
    narrow_iff.mpr ⟨small, by simp [children]⟩
  have narrow : threeBits.NarrowerThan (2 ^ 64) := by
    apply narrow_iff.mpr
    refine ⟨by decide, ?_⟩
    simp only [threeBits, children, List.forall_mem_cons]
    refine ⟨narrow_iff.mpr ⟨by decide, ?_⟩, leaf _ (by decide), by simp⟩
    simp only [children, List.forall_mem_cons]
    exact ⟨leaf _ (by decide), by simp⟩
  obtain ⟨folds, keeps⟩ := castConst_value_spec {} wellFormed narrow
  have leafFolds (constant : Const) : (Value.const constant).Every Folds :=
    every_iff.mpr ⟨trivial, by simp [children]⟩
  have every : threeBits.Every Folds := by
    apply every_iff.mpr
    refine ⟨trivial, ?_⟩
    simp only [threeBits, children, List.forall_mem_cons]
    refine ⟨every_iff.mpr ⟨trivial, ?_⟩, leafFolds _, by simp⟩
    simp only [children, List.forall_mem_cons]
    exact ⟨leafFolds _, by simp⟩
  obtain ⟨constant, given⟩ := folds.mpr every
  obtain ⟨sameShape, sameBits⟩ := keeps constant given
  exact ⟨constant, given, sameShape, sameBits⟩

end Value

end Gateware
