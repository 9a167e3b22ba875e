import SentenceQuery.Number.Power

/-!
# Binary64 numbers

A number cell holds an IEEE binary64 number. It is kept as its bits: the sign, and the other 63 bits as one natural number,
the code. Among magnitudes that are not NaN the order of the codes is the order of the values, so comparisons need no
arithmetic; the value itself is a whole number of units of 2^-1074 (`units`).
-/

namespace SentenceQuery

/-- A binary64 number: its sign bit and, as one natural number, the 63 bits below it. -/
structure Binary64 where
  negative : Bool
  code : Nat
  code_lt : code < 0x8000000000000000
deriving DecidableEq

namespace Binary64

/-- The code of the two infinities; the codes above it are the NaNs. -/
def infinityCode : Nat := 0x7FF0000000000000

/-- The number with a sign and a code; a code above infinity's is taken as infinity's. -/
def ofCode (negative : Bool) (code : Nat) : Binary64 :=
  ⟨negative, min code infinityCode, Nat.lt_of_le_of_lt (Nat.min_le_right _ _) (by decide)⟩

/-- Zero without a sign. -/
def zero : Binary64 := ⟨false, 0, by decide⟩

/-- The infinity of a sign. -/
def infinity (negative : Bool) : Binary64 := ⟨negative, infinityCode, by decide⟩

/-- The NaN that stands for all of them: no sign, quiet, no payload. -/
def nan : Binary64 := ⟨false, 0x7FF8000000000000, by decide⟩

def isNaN (x : Binary64) : Bool := decide (infinityCode < x.code)

def isFinite (x : Binary64) : Bool := decide (x.code < infinityCode)

/-- Both zeros. -/
def isZero (x : Binary64) : Bool := decide (x.code = 0)

/-! ## Order -/

/-- The place of a number in the order: among numbers other than NaN it orders as the values do, and the two zeros share
the place 0. -/
def place (x : Binary64) : Int := if x.negative then -(x.code : Int) else x.code

/-- `x < y` of values; false if one is NaN. -/
def lt (x y : Binary64) : Bool := !x.isNaN && !y.isNaN && decide (x.place < y.place)

/-- `x ≤ y` of values; false if one is NaN. -/
def le (x y : Binary64) : Bool := !x.isNaN && !y.isNaN && decide (x.place ≤ y.place)

/-- Equality of values: the zeros are equal, a NaN equals nothing. -/
def eq (x y : Binary64) : Bool := !x.isNaN && !y.isNaN && decide (x.place = y.place)

/-- The order of two values, if neither is NaN. -/
def compare? (x y : Binary64) : Option Ordering :=
  if x.isNaN || y.isNaN then none else some (compare x.place y.place)

/-! ## Which numbers count as one -/

/-- The zero with a sign is replaced by the zero without. -/
def mergeZeros (x : Binary64) : Binary64 := if x.isZero then zero else x

/-- The representative of a number when numbers are told apart: the zeros count as one, and so do the NaNs. -/
def canonical (x : Binary64) : Binary64 := if x.isZero then zero else if x.isNaN then nan else x

/-! ## Value -/

/-- The magnitude of a finite number's code, in units of 2^-1074: a code below 2^52 is its own magnitude; above, the
exponent field `e` gives `(2^52 + fraction) · 2^(e-1)`. -/
def units (code : Nat) : Nat :=
  let exponent := code / twoPow 52
  if exponent = 0 then code else (twoPow 52 + code % twoPow 52) * twoPow (exponent - 1)

/-- How many units make one. -/
def unitsPerOne : Nat := twoPow 1074

/-- The magnitude of a finite number that is a whole number. -/
def wholeMagnitude? (x : Binary64) : Option Nat :=
  if x.isFinite && units x.code % unitsPerOne == 0 then some (units x.code / unitsPerOne) else none

end Binary64

end SentenceQuery
