import Gateware.Proofs.Binary
import Gateware.Proofs.Shape.Integers
import Gateware.Value.Shape

/-!
# The meaning of values

An environment gives an integer to every leaf that is not a constant; a tree then stands
for an integer.  Arithmetic is that of the integers, and selections and concatenations
read the bits that they pick as unsigned.
-/

set_option autoImplicit false

namespace Gateware

/-- An integer of its shape for every leaf that is not a constant. -/
structure Environment where
  signal : Signal → Int
  clock : String → Int
  reset : String → Bool → Int
  initial : Int
  signal_mem (leaf : Signal) : signal leaf ∈ leaf.shape
  clock_mem (domain : String) : clock domain ∈ Shape.bit
  reset_mem (domain : String) (allowResetLess : Bool) : reset domain allowResetLess ∈ Shape.bit
  initial_mem : initial ∈ Shape.bit

def Environment.zero : Environment where
  signal _ := 0
  clock _ := 0
  reset _ _ := 0
  initial := 0
  signal_mem _ := Shape.zero_mem
  clock_mem _ := Shape.zero_mem
  reset_mem _ _ := Shape.zero_mem
  initial_mem := Shape.zero_mem

def Environment.withSignal (environment : Environment) (leaf : Signal) (value : Int)
    (inside : value ∈ leaf.shape) : Environment :=
  { environment with
    signal := fun other => if other = leaf then value else environment.signal other
    signal_mem := by
      intro other
      by_cases same : other = leaf
      · rw [if_pos same, same]
        exact inside
      · rw [if_neg same]
        exact environment.signal_mem other }

def truthValue (truth : Bool) : Int := if truth then 1 else 0

/-- What an operator makes of an integer whose bits are those of a shape. -/
def UnaryOp.apply (op : UnaryOp) (operand : Shape) (value : Int) : Int :=
  let bits := Binary.residue value operand.width
  match op with
  | .invert => operand.fit (-value - 1)
  | .negate => -value
  | .truth | .any => truthValue (bits != 0)
  | .all => truthValue (bits == 2 ^ operand.width - 1)
  | .parity => truthValue ((List.range operand.width).countP bits.testBit % 2 == 1)
  | .asUnsigned => bits
  | .asSigned => (⟨operand.width, true⟩ : Shape).fit value

/-- What an operator makes of two integers.  Division rounds toward negative infinity,
and both the quotient and the remainder by zero are zero. -/
def BinaryOp.apply (op : BinaryOp) (left right : Int) : Int :=
  match op with
  | .add => left + right
  | .subtract => left - right
  | .multiply => left * right
  | .divide => left.fdiv right
  | .modulo => if right = 0 then 0 else left.fmod right
  | .and => left.land right
  | .or => left.lor right
  | .xor => left.xor right
  | .shiftLeft => left * 2 ^ right.toNat
  | .shiftRight => left.fdiv (2 ^ right.toNat)
  | .equal => truthValue (left == right)
  | .unequal => truthValue (left != right)
  | .less => truthValue (left < right)
  | .lessEqual => truthValue (left ≤ right)
  | .greater => truthValue (right < left)
  | .greaterEqual => truthValue (right ≤ left)

namespace Keys

/-- Whether a key has the bits of a text; a dash stands for either bit. -/
def covers : List Char → List Char → Bool
  | [], [] => true
  | symbol :: key, bit :: bits => (symbol == '-' || symbol == bit) && covers key bits
  | _, _ => false

/-- Whether a case is taken on the bits of a text. -/
def accept (keys : Keys) (bits : List Char) : Bool :=
  match keys with
  | none => true
  | some keys => keys.any fun key => covers key.toList bits

end Keys

namespace Value

mutual

/-- The integer that a tree stands for. -/
def eval (environment : Environment) : Value → Int
  | .const constant => constant.value
  | .signal leaf => environment.signal leaf
  | .clock domain => environment.clock domain
  | .reset domain allowResetLess => environment.reset domain allowResetLess
  | .initial => environment.initial
  | .slice value start stop =>
      Binary.residue ((value.eval environment).fdiv (2 ^ start)) (stop - start)
  | .part value offset width stride =>
      let bits := Binary.residue (value.eval environment) value.width
      Binary.residue (bits / 2 ^ ((offset.eval environment).toNat * stride) : Nat) width
  | .concat parts => joined environment parts
  | .unary op operand => op.apply operand.shape (operand.eval environment)
  | .binary op left right => op.apply (left.eval environment) (right.eval environment)
  | .switch test cases =>
      chosen environment (Binary.digits (test.eval environment) test.width) cases

def joined (environment : Environment) : List Value → Nat
  | [] => 0
  | value :: rest =>
      Binary.residue (value.eval environment) value.width
        + 2 ^ value.width * joined environment rest

def chosen (environment : Environment) (bits : List Char) : List (Keys × Value) → Int
  | [] => 0
  | (keys, value) :: rest =>
      if keys.accept bits then value.eval environment else chosen environment bits rest

end

variable (environment : Environment)

theorem joined_lt (parts : List Value) :
    joined environment parts < 2 ^ (parts.map width).sum := by
  induction parts with
  | nil => simp [joined]
  | cons first rest ih =>
      have low : Binary.residue (first.eval environment) first.width < 2 ^ first.width :=
        Binary.residue_lt _ _
      rw [joined, List.map_cons, List.sum_cons, pow_add]
      calc Binary.residue (first.eval environment) first.width
            + 2 ^ first.width * joined environment rest
          < 2 ^ first.width + 2 ^ first.width * joined environment rest :=
            Nat.add_lt_add_right low _
        _ = 2 ^ first.width * (joined environment rest + 1) := by
            rw [Nat.mul_succ, Nat.add_comm]
        _ ≤ 2 ^ first.width * 2 ^ (rest.map width).sum := Nat.mul_le_mul_left _ ih

theorem chosen_cases (bits : List Char) (cases : List (Keys × Value)) :
    chosen environment bits cases = 0 ∨
      ∃ case ∈ cases, chosen environment bits cases = case.2.eval environment := by
  induction cases with
  | nil => exact Or.inl rfl
  | cons first rest ih =>
      obtain ⟨keys, value⟩ := first
      rw [chosen]
      by_cases taken : keys.accept bits = true
      · rw [if_pos taken]
        exact Or.inr ⟨(keys, value), List.mem_cons_self, rfl⟩
      · rw [if_neg taken]
        rcases ih with none | ⟨case, listed, same⟩
        · exact Or.inl none
        · exact Or.inr ⟨case, List.mem_cons_of_mem _ listed, same⟩

end Value

end Gateware
