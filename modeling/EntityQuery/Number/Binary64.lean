/-!
# Binary floating-point numbers by their bits

A binary64 number is taken apart into sign, significand and exponent.  Its place in the order is
read off the same bits: the number of positive numbers up to its absolute value, with the sign in
front.  So the order of these numbers is the order of integers, both zeros share one place, and the
values that are not numbers have none.
-/

namespace EntityQuery

/-- A binary64 number taken apart: a finite one is `significand * 2 ^ exponent` with its sign. -/
inductive Binary64 where
  | notANumber
  | infinite (negative : Bool)
  | finite (negative : Bool) (significand : Nat) (exponent : Int)

namespace Binary64

/-- The sign bit alone. -/
def signBit : Nat := 0x8000000000000000

/-- The bits of a number without its sign. -/
def magnitude (x : Float) : Nat := x.toBits.toNat % signBit

/-- The sign bit is set. -/
def isNegative (x : Float) : Bool := signBit ≤ x.toBits.toNat

/-- The magnitude of an infinite number. -/
def infinityMagnitude : Nat := 0x7FF0000000000000

/-- The number of magnitudes that share an exponent; the significand of a normal number is at least
as great. -/
def binade : Nat := 0x10000000000000

/-- The parts of a number. -/
def ofFloat (x : Float) : Binary64 :=
  let m := magnitude x
  if infinityMagnitude < m then .notANumber
  else if m = infinityMagnitude then .infinite (isNegative x)
  else if m < binade then .finite (isNegative x) m (-1074)
  else .finite (isNegative x) (binade + m % binade) ((m / binade : Nat) - 1075)

/-- The value is a number, finite or not. -/
def isNumber (x : Float) : Bool := magnitude x ≤ infinityMagnitude

/-- The value is a finite number. -/
def isFinite (x : Float) : Bool := magnitude x < infinityMagnitude

/-- The place of a number in the order. -/
def rank (x : Float) : Int := if isNegative x then -(magnitude x : Int) else magnitude x

/-- The order of two numbers; none when one of the values is not a number. -/
def compare? (x y : Float) : Option Ordering :=
  if isNumber x && isNumber y then some (compare (rank x) (rank y)) else none

theorem compare?_eq_some {x y : Float} (hx : isNumber x) (hy : isNumber y) :
    compare? x y = some (compare (rank x) (rank y)) := by
  simp [compare?, hx, hy]

end Binary64

end EntityQuery
