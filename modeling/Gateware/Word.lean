/-!
# Widths and positions

A bit position is an integer that fits a signed word of 64 bits, and a width a
natural number that fits an unsigned one.  The widths of trees are counted
without a bound and held to the word where they are asked for.  A width read as
a position wraps around from `2 ^ 63` on; every width met in practice is far
below that.
-/

set_option autoImplicit false

-- A power of two is the same term here as in the proofs, whose imports know other powers.
attribute [instance (high), default_instance 10001] instPowNat

namespace Gateware

namespace Width

def max : Nat := 2 ^ 64 - 1

/-- The number of bits between two positions, wrapped into the word. -/
def between (start stop : Nat) : Nat := (stop + (2 ^ 64 - start % 2 ^ 64)) % 2 ^ 64

def addSaturating (left right : Nat) : Nat := Nat.min (left + right) max

theorem between_eq {start stop : Nat} (ordered : start ≤ stop) (fits : stop < 2 ^ 64) :
    between start stop = stop - start := by
  unfold between
  omega

end Width

namespace Position

def max : Int := 2 ^ 63 - 1

def min : Int := -2 ^ 63

/-- Whether an integer fits the word of a position. -/
def Holds (position : Int) : Prop := -2 ^ 63 ≤ position ∧ position < 2 ^ 63

instance (position : Int) : Decidable (Holds position) :=
  inferInstanceAs (Decidable (_ ∧ _))

def wrap (x : Int) : Int := x.bmod (2 ^ 64)

def saturate (x : Int) : Int := Max.max min (Min.min x max)

def ofWidth (width : Nat) : Int := wrap width

/-- The width with the same word as a position. -/
def toWidth (position : Int) : Nat := (position % 2 ^ 64).toNat

theorem Holds.wrap_eq {position : Int} (holds : Holds position) : wrap position = position := by
  obtain ⟨lower, upper⟩ := holds
  unfold wrap
  rw [Int.bmod_def]
  omega

theorem ofWidth_eq {width : Nat} (fits : width < 2 ^ 63) : ofWidth width = width :=
  Holds.wrap_eq ⟨by omega, by omega⟩

end Position

end Gateware
