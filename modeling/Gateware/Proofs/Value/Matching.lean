import Gateware.Proofs.Value.Meaning
import Gateware.Proofs.Value.Pattern

/-!
# Matching as a value

The value that compares another one with patterns, against the keys that the same patterns
give a switch.  They agree on every number that is not negative; a text of bits without a
dash is compared as the unsigned number that it writes, which no negative number equals.
-/

set_option autoImplicit false

namespace Gateware

/-! ## Keys as masks -/

namespace Keys

/-- The text with a one for every bit that a key does not leave open. -/
def mask (key : List Char) : List Char := key.map fun symbol => if symbol = '-' then '0' else '1'

theorem length_mask (key : List Char) : (mask key).length = key.length := by simp [mask]

private theorem and_two_pow_mul_add {width low other : Nat} (high top : Nat)
    (lowBounded : low < 2 ^ width) (otherBounded : other < 2 ^ width) :
    (2 ^ width * high + low) &&& (2 ^ width * top + other) =
      2 ^ width * (high &&& top) + (low &&& other) := by
  apply Nat.eq_of_testBit_eq
  intro place
  have bounded : low &&& other < 2 ^ width := Nat.and_lt_two_pow _ otherBounded
  rw [Nat.testBit_and, Nat.testBit_two_pow_mul_add _ lowBounded,
    Nat.testBit_two_pow_mul_add _ otherBounded, Nat.testBit_two_pow_mul_add _ bounded]
  split
  · rw [Nat.testBit_and]
  · rw [Nat.testBit_and]

private theorem two_pow_mul_add_inj {width low other high top : Nat}
    (lowBounded : low < 2 ^ width) (otherBounded : other < 2 ^ width) :
    2 ^ width * high + low = 2 ^ width * top + other ↔ high = top ∧ low = other := by
  constructor
  · intro same
    have quotients := congrArg (· / 2 ^ width) same
    have remainders := congrArg (· % 2 ^ width) same
    simp only [Nat.mul_add_div (Nat.two_pow_pos _), Nat.mul_add_mod,
      Nat.div_eq_of_lt lowBounded, Nat.div_eq_of_lt otherBounded, Nat.mod_eq_of_lt lowBounded,
      Nat.mod_eq_of_lt otherBounded, Nat.add_zero] at quotients remainders
    exact ⟨quotients, remainders⟩
  · rintro ⟨rfl, rfl⟩
    rfl

theorem covers_digits_iff {key : List Char} (value : Int)
    (alphabet : ∀ symbol ∈ key, symbol = '0' ∨ symbol = '1' ∨ symbol = '-') :
    covers key (Binary.digits value key.length) = true ↔
      Binary.residue value key.length &&& Binary.read (mask key) = Binary.read key := by
  induction key with
  | nil => simp [covers, mask, Binary.read]
  | cons symbol rest ih =>
      have restAlphabet : ∀ symbol ∈ rest, symbol = '0' ∨ symbol = '1' ∨ symbol = '-' :=
        fun other later => alphabet other (List.mem_cons_of_mem _ later)
      have low := Binary.residue_lt value rest.length
      have maskLow : Binary.read (mask rest) < 2 ^ rest.length := by
        rw [← length_mask rest]
        exact Binary.read_lt _
      have keyLow := Binary.read_lt rest
      -- The first symbol is the topmost bit of each number, the rest of the key those below.
      rw [List.length_cons, Binary.digits_succ, covers, Bool.and_eq_true, ih restAlphabet,
        Binary.residue_succ, Binary.read_cons]
      show _ ↔ _ &&& Binary.read ((if symbol = '-' then '0' else '1') :: mask rest) = _
      rw [Binary.read_cons, length_mask, and_two_pow_mul_add _ _ low maskLow,
        two_pow_mul_add_inj (Nat.and_lt_two_pow _ maskLow) keyLow]
      apply and_congr_left'
      rcases alphabet symbol List.mem_cons_self with rfl | rfl | rfl <;>
        cases value.testBit rest.length <;> decide

theorem covers_digits_iff_of_whole {key : List Char} (value : Int)
    (whole : ∀ symbol ∈ key, symbol = '0' ∨ symbol = '1') :
    covers key (Binary.digits value key.length) = true ↔
      Binary.residue value key.length = Binary.read key := by
  have alphabet : ∀ symbol ∈ key, symbol = '0' ∨ symbol = '1' ∨ symbol = '-' := by
    intro symbol listed
    rcases whole symbol listed with zero | one
    · exact Or.inl zero
    · exact Or.inr (Or.inl one)
  have ones : Binary.read (mask key) = 2 ^ key.length - 1 := by
    clear alphabet
    induction key with
    | nil => rfl
    | cons symbol rest ih =>
        have closed : symbol ≠ '-' := by
          rcases whole symbol List.mem_cons_self with rfl | rfl <;> decide
        have positive : 0 < 2 ^ rest.length := Nat.two_pow_pos _
        have tail := ih fun other later => whole other (List.mem_cons_of_mem _ later)
        show Binary.read ((if symbol = '-' then '0' else '1') :: mask rest) = _
        rw [if_neg closed, Binary.read_cons, length_mask, tail, List.length_cons, Nat.pow_succ]
        simp only [Binary.digit, if_true]
        omega
  rw [covers_digits_iff value alphabet, ones, Nat.and_two_pow_sub_one_eq_mod,
    Nat.mod_eq_of_lt (Binary.residue_lt _ _)]

end Keys

/-! ## Comparisons -/

theorem truthValue_eq_one {truth : Bool} : truthValue truth = 1 ↔ truth = true := by
  cases truth <;> decide

theorem land_natCast_eq (value : Int) {other width : Nat} (bounded : other < 2 ^ width) :
    value.land other = (Binary.residue value width &&& other : Nat) := by
  have outside (place : Nat) (above : ¬ place < width) : other.testBit place = false :=
    Nat.testBit_lt_two_pow (Nat.lt_of_lt_of_le bounded
      (Nat.pow_le_pow_right (by decide) (Nat.le_of_not_lt above)))
  cases value with
  | ofNat n =>
      show ((n &&& other : Nat) : Int) = _
      congr 1
      apply Nat.eq_of_testBit_eq
      intro place
      rw [Nat.testBit_and, Nat.testBit_and, Binary.testBit_residue]
      by_cases inside : place < width
      · simp [inside, Int.testBit]
      · simp [outside place inside]
  | negSucc n =>
      show ((Nat.ldiff other n : Nat) : Int) = _
      congr 1
      apply Nat.eq_of_testBit_eq
      intro place
      rw [Nat.testBit_ldiff, Nat.testBit_and, Binary.testBit_residue]
      by_cases inside : place < width
      · simp [inside, Int.testBit, Bool.and_comm]
      · simp [outside place inside]

namespace Pattern.Normal

def IsWhole : Normal → Prop
  | .bits key => key ≠ [] ∧ '-' ∉ key
  | .const _ _ => False

end Pattern.Normal

namespace Value

variable (environment : Environment)

theorem covers_digits_digits_iff {shape : Shape} {left right : Int} (valid : shape.Valid)
    (leftInside : left ∈ shape) (rightInside : right ∈ shape) :
    Keys.covers (Binary.digits left shape.width) (Binary.digits right shape.width) = true ↔
      right = left := by
  have positive : (0 : Int) < 2 ^ shape.width := Binary.two_pow_pos shape.width
  have whole := Keys.covers_digits_iff_of_whole right
    fun symbol (digit : symbol ∈ Binary.digits left shape.width) => Binary.mem_digits digit
  rw [Binary.length_digits, Binary.read_digits] at whole
  rw [whole]
  constructor
  · intro same
    apply Shape.eq_of_emod_eq valid rightInside leftInside
    have leftRest := Int.emod_nonneg left (Int.ne_of_gt positive)
    have rightRest := Int.emod_nonneg right (Int.ne_of_gt positive)
    unfold Binary.residue at same
    omega
  · rintro rfl
    rfl

/-- A number of the shape equals the unsigned number of a whole text if it is not negative and
the text covers its numeral. -/
theorem eq_read_iff {shape : Shape} {value : Int} {key : List Char} (valid : shape.Valid)
    (inside : value ∈ shape) (width : key.length = shape.width)
    (whole : ∀ symbol ∈ key, symbol = '0' ∨ symbol = '1') :
    value = Binary.read key ↔
      Keys.covers key (Binary.digits value shape.width) = true ∧ 0 ≤ value := by
  have below := Shape.lt_of_mem valid inside
  have readBelow := Binary.read_lt key
  have cast := Binary.natCast_two_pow shape.width
  rw [← width, Keys.covers_digits_iff_of_whole value whole, width]
  rw [width] at readBelow
  constructor
  · intro same
    have notNegative : 0 ≤ value := by omega
    refine ⟨?_, notNegative⟩
    rw [Binary.residue, Int.emod_eq_of_lt notNegative below]
    omega
  · rintro ⟨same, notNegative⟩
    rw [Binary.residue, Int.emod_eq_of_lt notNegative below] at same
    omega

/-- A comparison is true where the key covers the number, unless it compares a whole text with
a negative number. -/
theorem eval_matchesNormal {value : Value} {normal : Pattern.Normal} (valid : value.shape.Valid)
    (fits : normal.Fits value.shape) (inside : value.eval environment ∈ value.shape) :
    ∃ truth, (value.matchesNormal normal).eval environment = truthValue truth ∧
      (truth = true ↔
        Keys.covers normal.key.toList
            (Binary.digits (value.eval environment) value.width) = true ∧
          (normal.IsWhole → 0 ≤ value.eval environment)) := by
  unfold matchesNormal
  split
  · rename_i constant key
    obtain ⟨fitted, rfl⟩ := fits
    have constantInside : constant.value ∈ value.shape := (Shape.fit_eq_self_iff valid).mp fitted
    refine ⟨value.eval environment == constant.value, rfl, ?_⟩
    rw [beq_iff_eq, Pattern.Normal.key, String.toList_ofList, width,
      covers_digits_digits_iff valid constantInside inside]
    simp [Pattern.Normal.IsWhole]
  · obtain ⟨empty, _⟩ := fits
    refine ⟨true, rfl, ?_⟩
    have none : value.width = 0 := empty.symm
    simp [Pattern.Normal.key, Pattern.Normal.IsWhole, none, Keys.covers]
  · rename_i key notEmpty
    obtain ⟨keyWidth, alphabet⟩ := fits
    have sameWidth : value.width = key.length := keyWidth.symm
    rw [Pattern.Normal.key, String.toList_ofList]
    split
    · rename_i dash
      refine ⟨(value.eval environment).land (Binary.read (Keys.mask key)) == Binary.read key,
        rfl, ?_⟩
      have maskLow : Binary.read (Keys.mask key) < 2 ^ key.length := by
        rw [← Keys.length_mask key]
        exact Binary.read_lt _
      rw [beq_iff_eq, land_natCast_eq _ maskLow, Int.natCast_inj, sameWidth,
        Keys.covers_digits_iff _ alphabet]
      simp only [List.contains_iff_mem] at dash
      simp [Pattern.Normal.IsWhole, dash]
    · rename_i noDash
      simp only [List.contains_iff_mem] at noDash
      have whole : ∀ symbol ∈ key, symbol = '0' ∨ symbol = '1' := by
        intro symbol listed
        rcases alphabet symbol listed with zero | one | rfl
        · exact Or.inl zero
        · exact Or.inr one
        · exact absurd listed noDash
      refine ⟨value.eval environment == Binary.read key, rfl, ?_⟩
      rw [beq_iff_eq, eq_read_iff valid inside keyWidth whole, width]
      have isWhole : key ≠ [] ∧ '-' ∉ key := ⟨notEmpty, noDash⟩
      simp [Pattern.Normal.IsWhole, isWhole]

theorem width_matchesNormal (value : Value) (normal : Pattern.Normal) :
    (value.matchesNormal normal).width = 1 := by
  unfold matchesNormal
  split
  · rfl
  · rfl
  · split <;> rfl

theorem joined_eq_zero_iff (parts : List Value) :
    joined environment parts = 0 ↔
      ∀ part ∈ parts, Binary.residue (part.eval environment) part.width = 0 := by
  induction parts with
  | nil => simp [joined]
  | cons first rest ih =>
      rw [joined, List.forall_mem_cons, ← ih, Nat.add_eq_zero_iff, Nat.mul_eq_zero]
      simp

theorem eval_any_concat (parts : List Value) :
    (unary .any (concat parts)).eval environment =
      truthValue (parts.any fun part =>
        Binary.residue (part.eval environment) part.width != 0) := by
  have low := joined_lt environment parts
  have bits : Binary.residue (joined environment parts) (concat parts).shape.width =
      joined environment parts := by
    have cast := Binary.natCast_two_pow (parts.map width).sum
    rw [shape, totalWidth_eq_sum, Shape.unsigned_width, Binary.residue,
      Int.emod_eq_of_lt (by omega) (by omega), Int.toNat_natCast]
  rw [eval, eval]
  simp only [UnaryOp.apply]
  rw [bits]
  congr 1
  rw [Bool.eq_iff_iff, bne_iff_ne, Ne, joined_eq_zero_iff, List.any_eq_true]
  simp

/-- One truth value for several comparisons. -/
def disjunction : List Value → Value
  | [] => ofInt 0
  | [single] => single
  | several => .unary .any (.concat several)

theorem gives_matching {value : Value} {patterns : List Pattern} {normals : List Pattern.Normal}
    {session after : Session}
    (normalized : Build.Gives (Pattern.normalizeAll patterns value.shape) session normals after) :
    Build.Gives (value.matching patterns) session
      (disjunction (normals.map value.matchesNormal)) after := by
  apply Build.gives_bind.mpr
  refine ⟨normals, after, normalized, ?_⟩
  cases normals.map value.matchesNormal with
  | nil => exact Build.gives_pure.mpr ⟨rfl, rfl⟩
  | cons first rest =>
      cases rest with
      | nil => exact Build.gives_pure.mpr ⟨rfl, rfl⟩
      | cons second others => exact Build.gives_pure.mpr ⟨rfl, rfl⟩

theorem gives_switchOn {value : Value} {patterns : List Pattern} {keys : List String}
    {session after : Session}
    (normalized : Build.Gives (Pattern.keys patterns value.shape) session keys after)
    (taken : Value) :
    Build.Gives (switchOn value [(some patterns, taken)]) session
      (.switch value [(some keys, taken)]) after := by
  have caseRun : Build.Gives (Pattern.caseKeys (some patterns) value.shape) session (some keys)
      after :=
    Build.gives_bind.mpr ⟨keys, after, normalized, Build.gives_pure.mpr ⟨rfl, rfl⟩⟩
  apply Build.gives_bind.mpr
  refine ⟨[(some keys, taken)], after, ?_, Build.gives_pure.mpr ⟨rfl, rfl⟩⟩
  rw [List.mapM_cons, List.mapM_nil]
  apply Build.gives_bind.mpr
  refine ⟨(some keys, taken), after, ?_, rfl⟩
  exact Build.gives_bind.mpr ⟨some keys, after, caseRun, Build.gives_pure.mpr ⟨rfl, rfl⟩⟩

theorem eval_disjunction {compared : List Value}
    (truths : ∀ part ∈ compared, part.width = 1 ∧
      ∃ truth, part.eval environment = truthValue truth) :
    (disjunction compared).eval environment =
      truthValue (compared.any fun part => part.eval environment == 1) := by
  cases compared with
  | nil => rfl
  | cons first rest =>
      cases rest with
      | nil =>
          obtain ⟨_, truth, same⟩ := truths first List.mem_cons_self
          rw [disjunction, same, List.any_cons, List.any_nil, same]
          cases truth <;> rfl
      | cons second others =>
          show (unary .any (concat (first :: second :: others))).eval environment = _
          rw [eval_any_concat]
          congr 1
          rw [Bool.eq_iff_iff, List.any_eq_true, List.any_eq_true]
          apply exists_congr
          intro part
          apply and_congr_right
          intro listed
          obtain ⟨single, truth, same⟩ := truths part listed
          rw [same, single]
          cases truth <;> decide

theorem eval_disjunction_matchesNormal {value : Value} {normals : List Pattern.Normal}
    (valid : value.shape.Valid)
    (fits : ∀ normal ∈ normals, normal.Fits value.shape)
    (inside : value.eval environment ∈ value.shape) :
    ∃ truth, (disjunction (normals.map value.matchesNormal)).eval environment =
        truthValue truth ∧
      (truth = true ↔ ∃ normal ∈ normals,
        Keys.covers normal.key.toList
            (Binary.digits (value.eval environment) value.width) = true ∧
          (normal.IsWhole → 0 ≤ value.eval environment)) := by
  have truths : ∀ part ∈ normals.map value.matchesNormal, part.width = 1 ∧
      ∃ truth, part.eval environment = truthValue truth := by
    intro part listed
    obtain ⟨normal, normalListed, rfl⟩ := List.mem_map.mp listed
    obtain ⟨truth, same, _⟩ :=
      eval_matchesNormal environment valid (fits normal normalListed) inside
    exact ⟨width_matchesNormal value normal, truth, same⟩
  refine ⟨_, eval_disjunction environment truths, ?_⟩
  rw [List.any_map, List.any_eq_true]
  apply exists_congr
  intro normal
  apply and_congr_right
  intro listed
  obtain ⟨truth, same, covered⟩ := eval_matchesNormal environment valid (fits normal listed) inside
  rw [Function.comp_apply, same, beq_iff_eq, truthValue_eq_one]
  exact covered

theorem accept_keys_iff (normals : List Pattern.Normal) (bits : List Char) :
    Keys.accept (some (normals.map Pattern.Normal.key)) bits = true ↔
      ∃ normal ∈ normals, Keys.covers normal.key.toList bits = true := by
  rw [Keys.accept, List.any_map, List.any_eq_true]
  rfl

/-- The comparison of a value with patterns is one exactly where a key of the patterns covers
the number, except that a whole text is never equal to a negative number.  Where the number is
not negative or no text is whole, this is where a switch takes a case of the same patterns. -/
theorem matching_eq_one_iff {value : Value} {patterns : List Pattern}
    {normals : List Pattern.Normal} {session after : Session} (valid : value.shape.Valid)
    (normalized : Build.Gives (Pattern.normalizeAll patterns value.shape) session normals after) :
    Build.Gives (Pattern.keys patterns value.shape) session
        (normals.map Pattern.Normal.key) after ∧
      (∀ taken : Value, Build.Gives (switchOn value [(some patterns, taken)]) session
        (.switch value [(some (normals.map Pattern.Normal.key), taken)]) after) ∧
      ∃ result, Build.Gives (value.matching patterns) session result after ∧
        ∀ environment : Environment, value.eval environment ∈ value.shape →
          (result.eval environment = 0 ∨ result.eval environment = 1) ∧
          (result.eval environment = 1 ↔ ∃ normal ∈ normals,
            Keys.covers normal.key.toList
                (Binary.digits (value.eval environment) value.width) = true ∧
              (normal.IsWhole → 0 ≤ value.eval environment)) ∧
          ((0 ≤ value.eval environment ∨ ∀ normal ∈ normals, ¬ normal.IsWhole) →
            (result.eval environment = 1 ↔
              Keys.accept (some (normals.map Pattern.Normal.key))
                (Binary.digits (value.eval environment) value.width) = true)) := by
  have keys : Build.Gives (Pattern.keys patterns value.shape) session
      (normals.map Pattern.Normal.key) after :=
    Build.gives_bind.mpr ⟨normals, after, normalized, Build.gives_pure.mpr ⟨rfl, rfl⟩⟩
  refine ⟨keys, gives_switchOn keys, disjunction (normals.map value.matchesNormal),
    gives_matching normalized, ?_⟩
  intro environment inside
  obtain ⟨truth, same, covered⟩ := eval_disjunction_matchesNormal environment valid
    (Pattern.normalizeAll_fits normalized) inside
  rw [same, truthValue_eq_one, accept_keys_iff]
  refine ⟨?_, covered, ?_⟩
  · cases truth
    · exact Or.inl rfl
    · exact Or.inr rfl
  · intro counted
    rw [covered]
    apply exists_congr
    intro normal
    apply and_congr_right
    intro listed
    apply and_iff_left
    intro whole
    rcases counted with notNegative | noneWhole
    · exact notNegative
    · exact absurd whole (noneWhole normal listed)

def signedNibble : Value := .signal ⟨0, "s", ⟨4, true⟩⟩

def minusOne : Environment :=
  Environment.zero.withSignal ⟨0, "s", ⟨4, true⟩⟩ (-1) (by decide)

theorem matching_masked_minusOne :
    ∃ result, Build.Gives (signedNibble.matching [.bits "1-11"]) {} result {} ∧
      result.eval minusOne = 1 := by
  have normalized : Build.Gives (Pattern.normalizeAll [.bits "1-11"] signedNibble.shape) {}
      [.bits ['1', '-', '1', '1']] {} := rfl
  obtain ⟨_, _, result, run, evaluates⟩ :=
    matching_eq_one_iff (by decide) normalized
  refine ⟨result, run, ?_⟩
  apply (evaluates minusOne (by decide)).2.1.mpr
  refine ⟨_, List.mem_cons_self, by decide, ?_⟩
  rintro ⟨_, noDash⟩
  exact absurd (by simp) noDash

/-- The key of the whole text covers the bits of minus one, and the comparison is zero. -/
theorem matching_whole_minusOne :
    Build.Gives (Pattern.keys [.bits "1111"] signedNibble.shape) {} ["1111"] {} ∧
      Keys.accept (some ["1111"])
        (Binary.digits (signedNibble.eval minusOne) signedNibble.width) = true ∧
      ∃ result, Build.Gives (signedNibble.matching [.bits "1111"]) {} result {} ∧
        result.eval minusOne = 0 := by
  refine ⟨rfl, by decide, _, rfl, by decide⟩

end Value

end Gateware
