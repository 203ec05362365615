import Gateware.Proofs.Value.Selection
import Gateware.Signal.Plan
import Gateware.Value.Joined
import Gateware.Value.Pattern

/-!
# Built values

The values that the constructors of the language return, in any session and of any
values built before.  A property of the built values is proved by showing that every
constructor keeps it.
-/

set_option autoImplicit false

namespace Gateware

/-! ## What holds values -/

section Holds

variable (holds : Value → Prop)

def MemberValue.Holds : MemberValue → Prop
  | .value tree => holds tree
  | .int _ | .text _ => True

/-- The members have the property, and a declared shape is one that can be made. -/
def Enumeration.Holds (enumeration : Enumeration) : Prop :=
  (∀ member ∈ enumeration.members, member.2.Holds holds) ∧
    ∀ shape ∈ enumeration.declared, shape.Valid

def Operand.Holds : Operand → Prop
  | .value tree => holds tree
  | .member case => case.owner.Holds holds
  | .lookup source => holds source.index
  | .int _ | .bool _ | .text _ | .custom _ => True

/-- The values of a specification have the property, and its shape is one that can be
made. -/
def ShapeSpec.Holds : ShapeSpec → Prop
  | .shape exact => exact.Valid
  | .enumeration type => type.Holds holds
  | .width _ | .range _ | .custom _ | .other _ => True

/-- The values of an element have the property.  Records and banks have no value of their
own. -/
def Element.Holds : Element → Prop
  | .value tree => holds tree
  | .lookup source => holds source.index
  | .int _ | .bank _ | .record _ _ => True

structure Design.Holds (design : Design) : Prop where
  banks : ∀ bank ∈ design.banks, ∀ element ∈ bank.elements, element.Holds holds
  shapes : ∀ custom ∈ design.shapes, custom.target.Holds holds
  values : ∀ custom ∈ design.values, ∀ target, custom.target = .ok target → target.Holds holds

/-- A family of values that every constructor keeps to.  The amounts and the bounds of an
index are positions. -/
structure Building : Prop where
  ofInt (number : Int) : holds (.ofInt number)
  fit (number : Int) {shape : Shape} (valid : shape.Valid) : holds (.const (Const.fit number shape))
  make {session after : Session} {number : Int} {spec : ShapeSpec} {constant : Const}
    (design : session.design.Holds holds) (shape : spec.Holds holds)
    (run : Build.Gives (Const.make number spec) session constant after) : holds (.const constant)
  folded {value : Value} {constant : Const} (given : holds value)
    (folds : value.fold? = some constant) : holds (.const constant)
  signal {session after : Session} {plan : Signal.Plan} {declaration : Declaration}
    (design : session.design.Holds holds) (shape : plan.spec.Holds holds)
    (run : Build.Gives plan.declare session declaration after) :
    holds (.signal declaration.signal)
  clock {domain : String} {value : Value} (made : Value.clockOf domain = .ok value) : holds value
  reset {domain : String} {allowResetLess : Bool} {value : Value}
    (made : Value.resetOf domain allowResetLess = .ok value) : holds value
  initial : holds .initial
  cast {design : Design} {operand : Operand} {value : Value} (stands : design.Holds holds)
    (given : operand.Holds holds) (made : design.cast operand = .ok value) : holds value
  bit {value picked : Value} {position : Int} (given : holds value)
    (made : value.bit position = .ok picked) : holds picked
  between {value picked : Value} {start stop : Int} (given : holds value)
    (made : value.between start stop = .ok picked) : holds picked
  index {value picked : Value} {index : Index} (given : holds value) (inWord : index.InWord)
    (made : value.index index = .ok picked) : holds picked
  partOf {value offset picked : Value} {width stride : Int} (given : holds value)
    (givenOffset : holds offset) (made : value.partOf offset width stride = .ok picked) :
    holds picked
  bitSelect {value offset picked : Value} {width : Int} (given : holds value)
    (givenOffset : holds offset) (made : value.bitSelect offset width = .ok picked) :
    holds picked
  wordSelect {value offset picked : Value} {width : Int} (given : holds value)
    (givenOffset : holds offset) (made : value.wordSelect offset width = .ok picked) :
    holds picked
  shiftLeft {value : Value} {amount : Int} (given : holds value)
    (inWord : Position.Holds amount) : holds (value.shiftLeft amount)
  shiftRight {value : Value} {amount : Int} (given : holds value)
    (inWord : Position.Holds amount) : holds (value.shiftRight amount)
  rotateLeft {value turned : Value} {amount : Int} (given : holds value)
    (inWord : Position.Holds amount) (made : value.rotateLeft amount = .ok turned) :
    holds turned
  rotateRight {value : Value} {amount : Int} (given : holds value)
    (inWord : Position.Holds amount) : holds (value.rotateRight amount)
  replicate {value copies : Value} {count : Int} (given : holds value)
    (made : value.replicate count = .ok copies) : holds copies
  concat {parts : List Value} (given : ∀ part ∈ parts, holds part) : holds (.concat parts)
  join {session after : Session} {operands : List Operand} {value : Value}
    (design : session.design.Holds holds) (given : ∀ operand ∈ operands, operand.Holds holds)
    (run : Build.Gives (Value.join operands) session value after) : holds value
  unary {op : UnaryOp} {value : Value} (other : op ≠ .asSigned) (given : holds value) :
    holds (.unary op value)
  asSigned {value result : Value} (given : holds value) (made : value.asSigned = .ok result) :
    holds result
  combine {op : BinaryOp} {left right result : Value} (givenLeft : holds left)
    (givenRight : holds right) (made : Value.combine op left right = .ok result) : holds result
  abs {value : Value} (given : holds value) : holds value.abs
  mux {selector otherwise whenZero : Value} (givenSelector : holds selector)
    (givenOtherwise : holds otherwise) (givenZero : holds whenZero) :
    holds (Value.mux selector otherwise whenZero)
  switchOn {session after : Session} {test value : Value}
    {cases : List (Option (List Pattern) × Value)} (givenTest : holds test)
    (givenCases : ∀ case ∈ cases, holds case.2)
    (run : Build.Gives (Value.switchOn test cases) session value after) : holds value
  matching {session after : Session} {value result : Value} {patterns : List Pattern}
    (given : holds value) (run : Build.Gives (value.matching patterns) session result after) :
    holds result

end Holds

section Imp

variable {holds other : Value → Prop} (weaken : ∀ value, holds value → other value)
include weaken

theorem MemberValue.Holds.imp {value : MemberValue} (given : value.Holds holds) :
    value.Holds other := by
  cases value with
  | value tree => exact weaken tree given
  | _ => trivial

theorem Enumeration.Holds.imp {enumeration : Enumeration} (given : enumeration.Holds holds) :
    enumeration.Holds other := by
  refine ⟨?_, given.2⟩
  intro member listed
  exact MemberValue.Holds.imp weaken (given.1 member listed)

theorem Operand.Holds.imp {operand : Operand} (given : operand.Holds holds) :
    operand.Holds other := by
  cases operand with
  | value tree => exact weaken tree given
  | member case => exact Enumeration.Holds.imp weaken given
  | lookup source => exact weaken source.index given
  | _ => trivial

theorem ShapeSpec.Holds.imp {spec : ShapeSpec} (given : spec.Holds holds) : spec.Holds other := by
  cases spec with
  | shape exact => exact given
  | enumeration type => exact Enumeration.Holds.imp weaken given
  | _ => trivial

theorem Element.Holds.imp {element : Element} (given : element.Holds holds) :
    element.Holds other := by
  cases element with
  | value tree => exact weaken tree given
  | lookup source => exact weaken source.index given
  | _ => trivial

theorem Design.Holds.imp {design : Design} (given : design.Holds holds) : design.Holds other where
  banks bank listed element elementListed :=
    Element.Holds.imp weaken (given.banks bank listed element elementListed)
  shapes custom listed := ShapeSpec.Holds.imp weaken (given.shapes custom listed)
  values custom listed target found :=
    Operand.Holds.imp weaken (given.values custom listed target found)

end Imp

namespace Value

/-- A value that constructors return: every family that the constructors keep to has it. -/
def Built (value : Value) : Prop := ∀ holds, Building holds → holds value

theorem building_built : Building Built where
  ofInt number _ building := building.ofInt number
  fit number _ valid _ building := building.fit number valid
  make stands shape run holds building :=
    building.make (stands.imp fun _ built => built holds building)
      (shape.imp fun _ built => built holds building) run
  folded given folds holds building := building.folded (given holds building) folds
  signal stands shape run holds building :=
    building.signal (stands.imp fun _ built => built holds building)
      (shape.imp fun _ built => built holds building) run
  clock made _ building := building.clock made
  reset made _ building := building.reset made
  initial _ building := building.initial
  cast stands given made holds building :=
    building.cast (stands.imp fun _ built => built holds building)
      (given.imp fun _ built => built holds building) made
  bit given made holds building := building.bit (given holds building) made
  between given made holds building := building.between (given holds building) made
  index given inWord made holds building := building.index (given holds building) inWord made
  partOf given givenOffset made holds building :=
    building.partOf (given holds building) (givenOffset holds building) made
  bitSelect given givenOffset made holds building :=
    building.bitSelect (given holds building) (givenOffset holds building) made
  wordSelect given givenOffset made holds building :=
    building.wordSelect (given holds building) (givenOffset holds building) made
  shiftLeft given inWord holds building := building.shiftLeft (given holds building) inWord
  shiftRight given inWord holds building := building.shiftRight (given holds building) inWord
  rotateLeft given inWord made holds building :=
    building.rotateLeft (given holds building) inWord made
  rotateRight given inWord holds building := building.rotateRight (given holds building) inWord
  replicate given made holds building := building.replicate (given holds building) made
  concat given holds building :=
    building.concat fun part listed => given part listed holds building
  join stands given run holds building :=
    building.join (stands.imp fun _ built => built holds building)
      (fun operand listed => (given operand listed).imp fun _ built => built holds building) run
  unary other given holds building := building.unary other (given holds building)
  asSigned given made holds building := building.asSigned (given holds building) made
  combine givenLeft givenRight made holds building :=
    building.combine (givenLeft holds building) (givenRight holds building) made
  abs given holds building := building.abs (given holds building)
  mux givenSelector givenOtherwise givenZero holds building :=
    building.mux (givenSelector holds building) (givenOtherwise holds building)
      (givenZero holds building)
  switchOn givenTest givenCases run holds building :=
    building.switchOn (givenTest holds building)
      (fun case listed => givenCases case listed holds building) run
  matching given run holds building := building.matching (given holds building) run

end Value

/-! ## Trust -/

namespace Value

/-- A value that is well-formed if none of its nodes is wide, or if it is a constant. -/
def Trusted (value : Value) : Prop :=
  (value.NarrowerThan (2 ^ 63) → value.WellFormed) ∧
    ∀ constant, value = .const constant → constant.WellFormed

section Trusted

variable {value : Value}

theorem trusted_const {constant : Const} (wellFormed : constant.WellFormed) :
    (Value.const constant).Trusted := by
  refine ⟨fun _ => wellFormed_const wellFormed, ?_⟩
  intro other same
  cases same
  exact wellFormed

theorem trusted_ofInt (number : Int) : (ofInt number).Trusted :=
  trusted_const (Const.wellFormed_ofInt number)

theorem trusted_leaf (valid : value.shape.Valid) (formed : value.Formed)
    (leaf : value.children = [])
    (notConst : ∀ constant, value = .const constant → constant.WellFormed) : value.Trusted := by
  refine ⟨fun _ => every_iff.mpr ⟨⟨valid, formed⟩, ?_⟩, notConst⟩
  rw [leaf]
  exact fun _ member => absurd member List.not_mem_nil

theorem Trusted.child {child : Value} (trusted : child.Trusted)
    (narrow : value.NarrowerThan (2 ^ 63)) (member : child ∈ value.children) :
    child.WellFormed :=
  trusted.1 (narrow.child member)

theorem Trusted.folded {constant : Const} (trusted : value.Trusted)
    (folds : value.fold? = some constant) : constant.WellFormed :=
  wellFormed_of_fold? trusted.2 folds

theorem trusted_switch {test : Value} {cases : List (Keys × Value)} (trustedTest : test.Trusted)
    (trustedCases : ∀ case ∈ cases, case.1.Fits test.width ∧ case.2.Trusted) :
    (Value.switch test cases).Trusted := by
  refine ⟨?_, nofun⟩
  intro narrow
  apply wellFormed_switch
  · exact trustedTest.child narrow List.mem_cons_self
  · intro case listed
    obtain ⟨fits, trusted⟩ := trustedCases case listed
    refine ⟨fits, trusted.child narrow ?_⟩
    exact List.mem_cons_of_mem _ (List.mem_map_of_mem listed)

theorem trusted_slice {start stop : Nat}
    (keeps : value.width < 2 ^ 63 → value.WellFormed → (value.slice start stop).WellFormed)
    (trusted : value.Trusted) : (value.slice start stop).Trusted := by
  refine ⟨?_, nofun⟩
  intro narrow
  have operandNarrow : value.NarrowerThan (2 ^ 63) := narrow.child List.mem_cons_self
  exact keeps operandNarrow.width_lt (trusted.1 operandNarrow)

theorem trusted_concat {parts : List Value} (trusted : ∀ part ∈ parts, part.Trusted) :
    (Value.concat parts).Trusted := by
  refine ⟨?_, nofun⟩
  intro narrow
  apply wellFormed_concat.mpr
  intro part listed
  exact (trusted part listed).child narrow listed

theorem trusted_binary {op : BinaryOp} {left right : Value}
    (unsignedAmount : op = .shiftLeft ∨ op = .shiftRight → right.shape.signed = false)
    (trustedLeft : left.Trusted) (trustedRight : right.Trusted) :
    (Value.binary op left right).Trusted := by
  refine ⟨?_, nofun⟩
  intro narrow
  exact wellFormed_binary unsignedAmount (trustedLeft.child narrow (by simp [children]))
    (trustedRight.child narrow (by simp [children]))

theorem trusted_unary {op : UnaryOp} (trusted : value.Trusted)
    (notEmpty : op = .asSigned → value.NarrowerThan (2 ^ 63) → value.WellFormed →
      0 < value.width) : (Value.unary op value).Trusted := by
  refine ⟨?_, nofun⟩
  intro narrow
  have operandNarrow : value.NarrowerThan (2 ^ 63) := narrow.child (by simp [children])
  have wellFormed := trusted.1 operandNarrow
  apply wellFormed_unary _ wellFormed
  cases op with
  | invert => exact wellFormed.valid
  | negate => exact fun _ => Nat.succ_pos _
  | asUnsigned => exact Shape.valid_unsigned _
  | asSigned =>
      intro _
      exact notEmpty rfl operandNarrow wellFormed
  | truth | any | all | parity => exact Shape.valid_unsigned 1

end Trusted

end Value

end Gateware
