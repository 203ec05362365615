import Gateware.Proofs.Design.Cast
import Gateware.Proofs.Value.Pattern

/-!
# Constructors of well-formed values

Every constructor keeps values well-formed.
-/

set_option autoImplicit false

namespace Gateware

namespace Value

section Constructors

variable {value offset picked : Value}

theorem trusted_matchesNormal (trusted : value.Trusted) (normal : Pattern.Normal) :
    (value.matchesNormal normal).Trusted := by
  unfold matchesNormal
  split
  · exact trusted_binary (by simp) trusted (trusted_ofInt _)
  · exact trusted_ofInt 1
  · split
    · apply trusted_binary (by simp) _ (trusted_ofInt _)
      exact trusted_binary (by simp) trusted (trusted_ofInt _)
    · exact trusted_binary (by simp) trusted (trusted_ofInt _)

theorem trusted_partOf {width stride : Int} (trusted : value.Trusted)
    (trustedOffset : offset.Trusted) (made : value.partOf offset width stride = .ok picked) :
    picked.Trusted := by
  unfold partOf at made
  split at made
  · cases made
  · split at made
    · cases made
    · rename_i positive
      split at made
      · cases made
      · rename_i unsignedOffset
        cases made
        refine ⟨?_, nofun⟩
        intro narrow
        exact wellFormed_part (by omega) (by simpa using unsignedOffset)
          (trusted.child narrow (by simp [children]))
          (trustedOffset.child narrow (by simp [children]))

theorem trusted_combine {op : BinaryOp} {left right result : Value}
    (trustedLeft : left.Trusted) (trustedRight : right.Trusted)
    (made : combine op left right = .ok result) : result.Trusted := by
  have shifted (made : shift op left right = .ok result) : result.Trusted := by
    unfold shift at made
    split at made
    · cases made
    · rename_i unsignedAmount
      cases made
      exact trusted_binary (fun _ => by simpa using unsignedAmount) trustedLeft trustedRight
  cases op with
  | shiftLeft => exact shifted made
  | shiftRight => exact shifted made
  | _ =>
      cases made
      exact trusted_binary (by simp) trustedLeft trustedRight

theorem trusted_join {session after : Session} {operands : List Operand}
    (stands : session.design.Holds Trusted)
    (given : ∀ operand ∈ operands, operand.Holds Trusted)
    (run : Build.Gives (join operands) session value after) : value.Trusted := by
  obtain ⟨parts, _, runs, rest⟩ := Build.gives_bind.mp run
  obtain ⟨rfl, _⟩ := Build.gives_pure.mp rest
  apply trusted_concat
  intro part listed
  have related := (Build.Gives.mapM (fun session => session.design.Holds Trusted)
    (fun _ part => part.Trusted) ?_ stands runs).2
  · obtain ⟨_, _, trusted⟩ := exists_related related listed
    exact trusted
  · rintro ⟨operand, position⟩ placed before middle part stands run
    obtain ⟨_, between, warned, cast⟩ := Build.gives_bind.mp run
    obtain ⟨made, rfl⟩ := Build.gives_cast.mp cast
    rw [← warned.unsized_design] at stands
    have operandListed : operand ∈ operands := by
      rw [(List.mem_zipIdx placed).2.2]
      exact List.getElem_mem _
    exact ⟨stands, stands.cast (given operand operandListed) made⟩

theorem trusted_switchOn {session after : Session} {test : Value}
    {cases : List (Option (List Pattern) × Value)} (trustedTest : test.Trusted)
    (trustedCases : ∀ case ∈ cases, case.2.Trusted)
    (run : Build.Gives (switchOn test cases) session value after) : value.Trusted := by
  obtain ⟨keyed, _, runs, rest⟩ := Build.gives_bind.mp run
  obtain ⟨rfl, _⟩ := Build.gives_pure.mp rest
  apply trusted_switch trustedTest
  intro case listed
  have related := (Build.Gives.mapM (fun _ => True)
    (fun given keyed => keyed.1.Fits test.width ∧ keyed.2 = given.2) ?_ trivial runs).2
  · obtain ⟨item, itemListed, fits, same⟩ := exists_related related listed
    rw [same]
    exact ⟨fits, trustedCases item itemListed⟩
  · rintro ⟨patterns, value⟩ _ before middle keyed _ run
    obtain ⟨keys, _, keysRun, rest⟩ := Build.gives_bind.mp run
    obtain ⟨rfl, _⟩ := Build.gives_pure.mp rest
    exact ⟨trivial, Pattern.caseKeys_fits keysRun, rfl⟩

theorem trusted_matching {session after : Session} {result : Value} {patterns : List Pattern}
    (trusted : value.Trusted)
    (run : Build.Gives (value.matching patterns) session result after) : result.Trusted := by
  obtain ⟨normals, _, _, rest⟩ := Build.gives_bind.mp run
  have compared : ∀ part ∈ normals.map value.matchesNormal, part.Trusted := by
    intro part listed
    obtain ⟨normal, _, rfl⟩ := List.mem_map.mp listed
    exact trusted_matchesNormal trusted normal
  split at rest
  · obtain ⟨rfl, _⟩ := Build.gives_pure.mp rest
    exact trusted_ofInt 0
  · rename_i single same
    obtain ⟨rfl, _⟩ := Build.gives_pure.mp rest
    exact compared single (by rw [same]; exact List.mem_cons_self)
  · obtain ⟨rfl, _⟩ := Build.gives_pure.mp rest
    exact trusted_unary (trusted_concat compared) (by simp)

theorem trusted_raised {amount : Nat} (trusted : value.Trusted) :
    (value.raised amount).Trusted := by
  have joined : (Value.concat [.const (Const.fit 0 (Shape.unsigned amount)), value]).Trusted := by
    apply trusted_concat
    simp only [List.forall_mem_cons]
    exact ⟨trusted_const (Const.wellFormed_fit (Shape.valid_unsigned amount) 0), trusted, by simp⟩
  unfold raised
  dsimp only
  split
  · rename_i signed
    apply trusted_unary joined
    intro _ narrow _
    have wellFormed := trusted.child narrow (by simp [children])
    have positive : 0 < value.width := wellFormed.valid signed
    rw [width_concat]
    simp only [List.map_cons, List.sum_cons]
    omega
  · exact joined

theorem trusted_clamped {start stop : Option Int}
    (startHolds : ∀ position ∈ start, Position.Holds position)
    (stopHolds : ∀ position ∈ stop, Position.Holds position) (trusted : value.Trusted) :
    (value.clamped start stop).Trusted := by
  apply trusted_slice _ trusted
  intro room wellFormed
  exact wellFormed_clamped room startHolds stopHolds wellFormed

theorem trusted_saturated {start stop : Int} (trusted : value.Trusted) :
    (value.clamped (some (Position.saturate start)) (some (Position.saturate stop))).Trusted := by
  apply trusted_clamped _ _ trusted
  · simpa using Position.holds_saturate start
  · simpa using Position.holds_saturate stop

theorem trusted_bitSelect {width : Int} (trusted : value.Trusted)
    (trustedOffset : offset.Trusted) (made : value.bitSelect offset width = .ok picked) :
    picked.Trusted := by
  unfold bitSelect at made
  split at made
  · cases made
  · split at made
    · cases made
      exact trusted_saturated trusted
    · exact trusted_partOf trusted trustedOffset made

theorem trusted_wordSelect {width : Int} (trusted : value.Trusted)
    (trustedOffset : offset.Trusted) (made : value.wordSelect offset width = .ok picked) :
    picked.Trusted := by
  unfold wordSelect at made
  split at made
  · cases made
  · split at made
    · cases made
      exact trusted_saturated trusted
    · exact trusted_partOf trusted trustedOffset made

theorem trusted_lowered {amount : Int} (notNegative : 0 ≤ amount)
    (inWord : Position.Holds amount) (trusted : value.Trusted) :
    (value.lowered amount).Trusted := by
  unfold lowered
  split
  · rename_i signed
    have most := Position.holds_wrap (Position.ofWidth value.width - 1)
    have least :
        Position.Holds (min amount (Position.wrap (Position.ofWidth value.width - 1))) := by
      unfold Position.Holds at *
      omega
    apply trusted_unary
    · exact trusted_clamped (by simpa using least) (by simp) trusted
    · intro _ narrow _
      have operandNarrow : value.NarrowerThan (2 ^ 63) :=
        narrow.child (by simp [clamped, children])
      have room := operandNarrow.width_lt
      have positive : 0 < value.width := (trusted.1 operandNarrow).valid signed
      -- The slice starts at the sign bit at the latest, so a bit is left to read as signed.
      rw [Position.ofWidth_eq room, Position.Holds.wrap_eq ⟨by omega, by omega⟩,
        clamped_from room (by omega) (by omega), width, shape, Shape.unsigned_width,
        Width.between_eq (by omega) (by omega)]
      omega
  · exact trusted_clamped (by simpa using inWord) (by simp) trusted

theorem trusted_turned {position : Int} (inWord : Position.Holds position)
    (trusted : value.Trusted) : (value.turned position).Trusted := by
  apply trusted_concat
  simp only [List.forall_mem_cons]
  refine ⟨?_, ?_, by simp⟩
  · exact trusted_clamped (by simpa using inWord) (by simp) trusted
  · exact trusted_clamped (by simp) (by simpa using inWord) trusted

theorem trusted_abs (trusted : value.Trusted) : value.abs.Trusted := by
  unfold abs
  split
  · rename_i signed
    refine ⟨?_, nofun⟩
    intro narrow
    have chosen :
        (mux (.binary .greaterEqual value (ofInt 0)) value (.unary .negate value)).Trusted := by
      apply trusted_switch
      · exact trusted_binary (by simp) trusted (trusted_ofInt 0)
      · simp only [List.forall_mem_cons]
        refine ⟨⟨Keys.fits_text _ _, ?_⟩, ⟨trivial, trusted⟩, by simp⟩
        exact trusted_unary trusted (by simp)
    -- The cases unify to a shape at least as wide as the value, which the slice cuts off.
    have widest : value.shape.width ≤
        (Shape.unify [(Value.unary .negate value).shape, value.shape]).width := by
      have listed : value.shape ∈ [(Value.unary .negate value).shape, value.shape] := by simp
      have bounded := Shape.le_widest listed
      rw [signed] at bounded
      unfold Shape.unify
      rw [if_pos (List.any_eq_true.mpr ⟨value.shape, listed, signed⟩)]
      exact Nat.le_trans bounded (Nat.le_max_right _ _)
    exact wellFormed_slice.mpr
      ⟨⟨Nat.zero_le _, widest⟩, chosen.child narrow List.mem_cons_self⟩
  · exact trusted

end Constructors

/-- Trust is kept by every constructor. -/
theorem building_trusted : Building Trusted where
  ofInt := trusted_ofInt
  fit number _ valid := trusted_const (Const.wellFormed_fit valid number)
  make design shape run := trusted_const (Build.Gives.const_wellFormed design shape run)
  folded given folds := trusted_const (given.folded folds)
  signal design shape run :=
    trusted_leaf (Build.Gives.signal_valid design shape run) trivial rfl nofun
  clock made := by
    unfold clockOf at made
    split at made
    · cases made
    · cases made
      exact trusted_leaf (Shape.valid_unsigned 1) trivial rfl nofun
  reset made := by
    unfold resetOf at made
    split at made
    · cases made
    · cases made
      exact trusted_leaf (Shape.valid_unsigned 1) trivial rfl nofun
  initial := trusted_leaf (Shape.valid_unsigned 1) trivial rfl nofun
  cast stands given made := stands.cast given made
  bit given made := by
    obtain ⟨start, place, rfl⟩ := map_eq_ok.mp made
    exact trusted_slice (fun room wellFormed => wellFormed_bit room wellFormed made) given
  between given made := by
    obtain ⟨places, found, rfl⟩ := map_eq_ok.mp made
    exact trusted_slice (fun room wellFormed => wellFormed_between room wellFormed made) given
  index given inWord made := by
    have picks (narrow : NarrowerThan (2 ^ 63) _) :=
      wellFormed_index narrow.width_lt (given.1 narrow) inWord made
    rcases index_cases made with ⟨start, stop, rfl⟩ | ⟨places, rfl⟩
    · exact ⟨fun narrow => picks (narrow.child List.mem_cons_self), nofun⟩
    · refine ⟨?_, nofun⟩
      intro narrow
      cases places with
      -- Without places nothing of the value is left that would show it to be narrow.
      | nil => exact wellFormed_concat.mpr (by simp)
      | cons first rest => exact picks ((narrow.child List.mem_cons_self).child List.mem_cons_self)
  partOf given givenOffset made := trusted_partOf given givenOffset made
  bitSelect given givenOffset made := trusted_bitSelect given givenOffset made
  wordSelect given givenOffset made := trusted_wordSelect given givenOffset made
  shiftLeft {value amount} given inWord := by
    unfold shiftLeft
    split
    · apply trusted_lowered _ (Position.holds_saturate _) given
      unfold Position.saturate Position.min Position.max
      omega
    · exact trusted_raised given
  shiftRight {value amount} given inWord := by
    unfold shiftRight
    split
    · exact trusted_raised given
    · exact trusted_lowered (by omega) inWord given
  rotateLeft given _ made := by
    obtain ⟨opposite, held, rfl⟩ := map_eq_ok.mp made
    obtain ⟨holds, rfl⟩ := Picked.held_eq_ok.mp held
    exact trusted_turned holds given
  rotateRight {value amount} given inWord := by
    apply trusted_turned _ given
    unfold turn
    dsimp only
    split
    · exact inWord
    · rename_i notZero
      have lower := Int.emod_nonneg amount notZero
      have upper := Int.emod_lt amount notZero
      have width : Position.Holds (Position.ofWidth value.width) := Position.holds_wrap _
      unfold Position.Holds at *
      omega
  replicate given made := by
    unfold replicate at made
    split at made
    · cases made
    · cases made
      apply trusted_concat
      intro part listed
      rw [List.eq_of_mem_replicate listed]
      exact given
  concat given := trusted_concat given
  join stands given run := trusted_join stands given run
  unary other given := trusted_unary given fun same => absurd same other
  asSigned given made := by
    unfold asSigned at made
    split at made
    · cases made
    · rename_i notEmpty
      cases made
      exact trusted_unary given fun _ _ _ => Nat.pos_of_ne_zero notEmpty
  combine givenLeft givenRight made := trusted_combine givenLeft givenRight made
  abs given := trusted_abs given
  mux givenSelector givenOtherwise givenZero := by
    apply trusted_switch givenSelector
    simp only [List.forall_mem_cons]
    exact ⟨⟨Keys.fits_text _ _, givenZero⟩, ⟨trivial, givenOtherwise⟩, by simp⟩
  switchOn givenTest givenCases run := trusted_switchOn givenTest givenCases run
  matching given run := trusted_matching given run

theorem Built.trusted {value : Value} (built : value.Built) : value.Trusted :=
  built Trusted building_trusted

/-- A value of the constructors is well-formed if none of its nodes is wide. -/
theorem Built.wellFormed {value : Value} (built : value.Built)
    (narrow : value.NarrowerThan (2 ^ 63)) : value.WellFormed :=
  built.trusted.1 narrow

def nibble : Value := .signal ⟨0, "v", Shape.unsigned 4⟩

theorem width_nibble : nibble.width = 4 := rfl

theorem built_nibble : nibble.Built := by
  have stands : (Session.design {}).Holds Built := by
    constructor <;> simp
  let plan : Signal.Plan := { spec := .width 4, name := "v" }
  have four : plan.spec.Holds Built := trivial
  have run : Build.Gives plan.declare {} _ _ := rfl
  exact building_built.signal stands four run

theorem narrow_nibble : nibble.NarrowerThan (2 ^ 63) :=
  narrow_iff.mpr ⟨by decide, nofun⟩

/-- Every second bit of four, in a concatenation. -/
theorem wellFormed_evens : (concat ([0, 2].map nibble.bitAt)).WellFormed := by
  have found : nibble.index (.range none none 2) = .ok (.concat ([0, 2].map nibble.bitAt)) := by
    rw [index, width_nibble]
    rfl
  have built : (concat ([0, 2].map nibble.bitAt)).Built :=
    building_built.index built_nibble (by simp [Index.InWord, Position.Holds]) found
  have narrow : (concat ([0, 2].map nibble.bitAt)).NarrowerThan (2 ^ 63) := by
    refine narrow_iff.mpr ⟨by decide, ?_⟩
    simp only [children, List.map_cons, List.map_nil, List.forall_mem_cons]
    have each (start : Nat) (inside : start < 4) :
        (nibble.slice start (start + 1)).NarrowerThan (2 ^ 63) := by
      refine narrow_iff.mpr ⟨?_, ?_⟩
      · rw [width_slice (Nat.le_succ start) (by omega)]
        omega
      · exact fun child listed => List.mem_singleton.mp listed ▸ narrow_nibble
    exact ⟨each 0 (by decide), each 2 (by decide), by simp⟩
  exact built.wellFormed narrow

end Value

end Gateware
