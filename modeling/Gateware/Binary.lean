import Gateware.Word

/-!
# Binary numerals

Bit counts of integers, reduction to a number of bits, and the fixed-width binary
text used as a switch key.  An integer stands for its infinite two's complement,
so the numeral of a negative integer is that of its residue.
-/

set_option autoImplicit false

namespace Gateware.Binary

def length (n : Nat) : Nat := if n = 0 then 0 else n.log2 + 1

/-- The number of bits that represent `value`.  A positive number has a sign bit
only on request; zero and the negative numbers always have one. -/
def bitsFor (value : Int) (signBit : Bool) : Nat :=
  if 0 < value then length value.toNat + signBit.toNat
  else length (-value - 1).toNat + 1

def residue (value : Int) (width : Nat) : Nat := (value % 2 ^ width).toNat

/-- The lowest `width` bits of `value`, the most significant first. -/
def digits (value : Int) (width : Nat) : List Char :=
  let bits := residue value width
  (List.range width).reverse.map fun i => if bits.testBit i then '1' else '0'

def text (value : Int) (width : Nat) : String := String.ofList (digits value width)

/-- Reads binary digits, the most significant first; any character but `1` counts
as zero. -/
def read (bits : List Char) : Nat :=
  bits.foldl (fun n c => 2 * n + (if c = '1' then 1 else 0)) 0

@[simp]
theorem length_digits (value : Int) (width : Nat) : (digits value width).length = width := by
  simp [digits]

@[simp]
theorem digits_zero (value : Int) : digits value 0 = [] := rfl

theorem mem_digits {value : Int} {width : Nat} {c : Char} (h : c ∈ digits value width) :
    c = '0' ∨ c = '1' := by
  simp only [digits, List.mem_map] at h
  obtain ⟨i, -, rfl⟩ := h
  split
  · exact Or.inr rfl
  · exact Or.inl rfl

end Gateware.Binary
