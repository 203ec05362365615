import Gateware.Proofs.Alike
import Gateware.Proofs.Design.Reading
import Gateware.Proofs.Value.Strided
import Gateware.Value.Joined

/-!
# Reassembled slices

A constant is cut into slices at some places, each slice perhaps cut again, and the slices are
joined in order.  Nothing is warned about on the way, and the constant that comes out is unsigned
and has the bits of the one that was cut.
-/

set_option autoImplicit false

namespace Gateware

/-- How a value is cut: not at all, or into pieces.  A piece is given by the place that it ends at
and by how it is cut in turn; it starts where the one before it ends. -/
inductive Cutting where
  | whole
  | into (pieces : List (Nat × Cutting))

namespace Cutting

mutual

/-- The places of a cutting run from zero to a width and never back, and so do those of the pieces
in their own widths. -/
def Fits (width : Nat) : Cutting → Prop
  | .whole => True
  | .into pieces => PiecesFit width 0 pieces

def PiecesFit (width start : Nat) : List (Nat × Cutting) → Prop
  | [] => start = width
  | (stop, cutting) :: rest =>
      start ≤ stop ∧ cutting.Fits (stop - start) ∧ PiecesFit width stop rest

end

theorem PiecesFit.le {width start : Nat} {pieces : List (Nat × Cutting)}
    (fits : PiecesFit width start pieces) : start ≤ width := by
  induction pieces generalizing start with
  | nil => exact Nat.le_of_eq fits
  | cons first rest ih =>
      obtain ⟨stop, cutting⟩ := first
      obtain ⟨ordered, _, later⟩ := fits
      exact Nat.le_trans ordered (ih later)

end Cutting

namespace Value

mutual

/-- The slices of a value, each put together from its own slices in turn, joined. -/
def reassemble (value : Value) : Cutting → Build Value
  | .whole => pure value
  | .into pieces => do join ((← value.reassemblePieces 0 pieces).map Operand.value)

def reassemblePieces (value : Value) (start : Nat) : List (Nat × Cutting) → Build (List Value)
  | [] => pure []
  | (stop, cutting) :: rest => do
      let piece ← Build.ofExcept (value.index (.ofBounds (.included start) (.excluded stop) 1))
      let first ← piece.reassemble cutting
      let others ← value.reassemblePieces stop rest
      return first :: others

end

variable {session : Session} {value : Value} {constant : Const} {start stop : Nat}

/-! ## One slice and one join -/

theorem index_included_excluded (narrow : value.width < 2 ^ 63) (ordered : start ≤ stop)
    (inside : stop ≤ value.width) :
    value.index (.ofBounds (.included start) (.excluded stop) 1) =
      .ok (.slice value start stop) := by
  have held (place : Nat) (within : place ≤ value.width) :
      Picked.clamp value.width 0 value.width place = place := by
    rw [Picked.clamp_of_nonneg (Int.natCast_nonneg place), min_eq_left (by omega)]
  have ends : Picked.ends value.width (some start) (some stop) 1 = (↑start, ↑stop) := by
    simp [Picked.ends, held start (by omega), held stop inside]
  rw [Index.ofBounds, index, Bound.start?, Bound.stop?, Picked.stepped_one,
    Position.ofWidth_eq narrow, ends, Picked.between_of_inside narrow ⟨ordered, inside⟩]
  rfl

theorem gives_join (parts : List Value) :
    Build.Gives (join (parts.map Operand.value)) session (.concat parts) session := by
  have casts (first : Nat) : Build.Gives
      (((parts.map Operand.value).zipIdx first).mapM fun given => do
        given.1.warnUnsized (given.2 + 1)
        Build.cast given.1) session parts session := by
    induction parts generalizing first with
    | nil => exact Build.gives_pure.mpr ⟨rfl, rfl⟩
    | cons part rest ih =>
        rw [List.map_cons, List.zipIdx_cons, List.mapM_cons]
        have here : Build.Gives (Build.cast (.value part)) session part session :=
          Build.gives_cast.mpr ⟨session.design.cast_value part, rfl⟩
        exact Build.gives_bind.mpr ⟨part, session, here,
          Build.gives_bind.mpr ⟨rest, session, ih (first + 1), Build.gives_pure.mpr ⟨rfl, rfl⟩⟩⟩
  exact Build.gives_bind.mpr ⟨parts, session, casts 0, Build.gives_pure.mpr ⟨rfl, rfl⟩⟩

/-! ## Building without a warning -/

def GivesBits (session : Session) (step : Build Value) (bits : List Bool) : Prop :=
  ∃ given folded, Build.Gives step session given session ∧ given.fold? = some folded ∧
    folded.bitList = bits

def GivesPartBits (session : Session) (step : Build (List Value)) (bits : List Bool) : Prop :=
  ∃ parts folded, Build.Gives step session parts session ∧ foldParts? parts = some folded ∧
    folded.flatMap Const.bitList = bits

theorem givesPartBits_cons {first : Build Value} {others : Build (List Value)}
    {low high : List Bool} (here : GivesBits session first low)
    (there : GivesPartBits session others high) :
    GivesPartBits session (do return (← first) :: (← others)) (low ++ high) := by
  obtain ⟨part, folded, partGiven, partFolds, lowBits⟩ := here
  obtain ⟨parts, foldedParts, partsGiven, partsFold, highBits⟩ := there
  refine ⟨part :: parts, folded :: foldedParts, ?_, ?_, ?_⟩
  · exact Build.gives_bind.mpr ⟨part, session, partGiven,
      Build.gives_bind.mpr ⟨parts, session, partsGiven, Build.gives_pure.mpr ⟨rfl, rfl⟩⟩⟩
  · rw [foldParts?, partFolds, partsFold]
    rfl
  · rw [List.flatMap_cons, lowBits, highBits]

theorem sum_width_eq_length (parts : List Const) :
    (parts.map Const.width).sum = (parts.flatMap Const.bitList).length := by
  simp [List.length_flatMap, Const.length_bitList]

theorem exists_join {step : Build (List Value)} {bits : List Bool}
    (parts : GivesPartBits session step bits) :
    ∃ joined folded,
      Build.Gives (step >>= fun parts => join (parts.map Operand.value)) session joined session ∧
      joined.fold? = some folded ∧ folded.shape = Shape.unsigned bits.length ∧
      folded.bitList = bits := by
  obtain ⟨values, constants, given, partsFold, sameBits⟩ := parts
  have widths : (constants.map Const.width).sum = bits.length := by
    rw [sum_width_eq_length, sameBits]
  obtain ⟨shape, joinedBits⟩ := Const.concat_spec constants
  refine ⟨.concat values, Const.concat constants, ?_, ?_, ?_, joinedBits.trans sameBits⟩
  · exact Build.gives_bind.mpr ⟨values, session, given, gives_join values⟩
  · rw [fold?, partsFold]
    rfl
  · rw [shape, widths]

/-! ## Cutting and joining -/

theorem take_append_drop_of_le {α : Type} (items : List α) (ordered : start ≤ stop) :
    (items.drop start).take (stop - start) ++ items.drop stop = items.drop start := by
  have behind : items.drop stop = (items.drop start).drop (stop - start) := by
    rw [List.drop_drop, Nat.add_sub_cancel' ordered]
  rw [behind, List.take_append_drop]

mutual

theorem givesBits_reassemble (cutting : Cutting) {value : Value} {constant : Const}
    (folds : value.fold? = some constant) (narrow : value.width < 2 ^ 63)
    (fits : cutting.Fits value.width) :
    GivesBits session (value.reassemble cutting) constant.bitList := by
  cases cutting with
  | whole => exact ⟨value, constant, Build.gives_pure.mpr ⟨rfl, rfl⟩, folds, rfl⟩
  | into pieces =>
      have parts := givesPartBits_reassemblePieces pieces folds narrow fits
      obtain ⟨joined, folded, given, joinedFolds, _, bits⟩ := exists_join parts
      exact ⟨joined, folded, given, joinedFolds, bits⟩

theorem givesPartBits_reassemblePieces (pieces : List (Nat × Cutting)) {value : Value}
    {constant : Const} {start : Nat} (folds : value.fold? = some constant)
    (narrow : value.width < 2 ^ 63) (fits : Cutting.PiecesFit value.width start pieces) :
    GivesPartBits session (value.reassemblePieces start pieces) (constant.bitList.drop start) := by
  have width := width_of_fold? folds
  cases pieces with
  | nil =>
      have nothing : constant.bitList.drop start = [] :=
        List.drop_eq_nil_of_le (by rw [Const.length_bitList, width]; exact Nat.le_of_eq fits.symm)
      rw [nothing]
      exact ⟨[], [], Build.gives_pure.mpr ⟨rfl, rfl⟩, rfl, rfl⟩
  | cons piece rest =>
      obtain ⟨stop, cutting⟩ := piece
      obtain ⟨ordered, pieceFits, later⟩ := fits
      have inside : stop ≤ value.width := later.le
      obtain ⟨shape, bits⟩ := Const.slice_spec ordered (width ▸ inside) (by omega)
      have pieceFolds : (slice value start stop).fold? = some (constant.slice start stop) := by
        rw [fold?, folds]
        rfl
      have pieceWidth : (slice value start stop).width = stop - start := by
        rw [← width_of_fold? pieceFolds, Const.width, shape, Shape.unsigned_width]
      -- The piece is cut in its own width, and the others from where it ends.
      have here := givesBits_reassemble cutting pieceFolds (by omega) (pieceWidth ▸ pieceFits)
      have there := givesPartBits_reassemblePieces rest folds narrow later
      have both := givesPartBits_cons here there
      rw [bits, take_append_drop_of_le constant.bitList ordered] at both
      rw [reassemblePieces, index_included_excluded narrow ordered inside]
      exact both

end

/-- However a constant is cut into slices, and these into slices of their own, joining them gives
no warning and folds to an unsigned constant that is as wide and has the same bits. -/
theorem exists_reassembled (session : Session) {value : Value} {constant : Const}
    {pieces : List (Nat × Cutting)}
    (castable : session.design.castConst (.value value) = .ok constant)
    (narrow : value.width < 2 ^ 63) (fits : (Cutting.into pieces).Fits value.width) :
    ∃ joined folded,
      Build.Gives (value.reassemble (.into pieces)) session joined session ∧
      session.design.castConst (.value joined) = .ok folded ∧
      folded.shape = Shape.unsigned value.width ∧ folded.bits = constant.bits := by
  have folds := castConst_value_eq_ok.mp castable
  have parts : GivesPartBits session (value.reassemblePieces 0 pieces) constant.bitList :=
    givesPartBits_reassemblePieces pieces folds narrow fits
  have length : constant.bitList.length = value.width := by
    rw [Const.length_bitList, width_of_fold? folds]
  obtain ⟨joined, folded, given, joinedFolds, shape, bits⟩ := exists_join parts
  rw [length] at shape
  exact ⟨joined, folded, given, castConst_value_eq_ok.mpr joinedFolds, shape,
    Const.bits_eq_of_bitList_eq bits⟩

/-- Minus three in four bits, cut twice behind its lowest bit and once below its sign, with the
two bits between cut into one each. -/
theorem exists_reassembled_minusThree :
    ∃ joined folded,
      Build.Gives
        (minusThree.reassemble (.into [(1, .whole), (1, .whole),
          (3, .into [(1, .whole), (2, .whole)]), (4, .whole)]))
        { scopes := [{ filter := {} }] } joined { scopes := [{ filter := {} }] } ∧
      Design.castConst {} (.value joined) = .ok folded ∧ folded.shape = Shape.unsigned 4 ∧
      folded.bits = 13 := by
  have castable : Design.castConst {} (.value minusThree) = .ok ⟨-3, ⟨4, true⟩⟩ :=
    castConst_value_eq_ok.mpr rfl
  have fits : (Cutting.into [(1, .whole), (1, .whole), (3, .into [(1, .whole), (2, .whole)]),
      (4, .whole)]).Fits minusThree.width := by
    simp [Cutting.Fits, Cutting.PiecesFit, minusThree, width, shape]
  exact exists_reassembled { scopes := [{ filter := {} }] } castable (by decide) fits

end Value

end Gateware
