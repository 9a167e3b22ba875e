import SentenceQuery.Number.Binary64

/-!
# Rounding to binary64

Every number that the program reads or computes is first an exact fraction and is then rounded once, to the nearest
binary64 number, a tie going to the one with the even last bit (`nearestCode`). The arithmetic on magnitudes (`addCodes`,
`divCodes`, …) is exact arithmetic on units followed by that one rounding.
-/

namespace SentenceQuery

/-- `num / den` rounded to a whole number, a half to the even neighbour. -/
def roundHalfEven (num den : Nat) : Nat :=
  let q := num / den
  let r := num % den
  if 2 * r < den then q else if den < 2 * r then q + 1 else q + q % 2

/-- `num / den` rounded to a whole number, a half upwards. -/
def roundHalfUp (num den : Nat) : Nat :=
  (2 * num + den) / (2 * den)

namespace Binary64

/-- The code of the binary64 number nearest to `num / den`, ties to even; infinity's from 2^1024 - 2^970 on. Counted in
units of 2^-1074 the fraction is `u`; with `e` bits of `u` beyond 53, the significand is `u / 2^e` rounded, and a
significand that rounds up to 2^53 carries into the exponent field by itself. -/
def nearestCode (num den : Nat) : Nat :=
  let scaled := num * unitsPerOne
  let e := (scaled / den).log2 - 52
  min infinityCode (e * twoPow 52 + roundHalfEven scaled (den * twoPow e))

/-- The sum of two finite magnitudes, rounded. -/
def addCodes (a b : Nat) : Nat := nearestCode (units a + units b) unitsPerOne

/-- The product of two finite magnitudes, rounded. -/
def mulCodes (a b : Nat) : Nat := nearestCode (units a * units b) (unitsPerOne * unitsPerOne)

/-- The quotient of two finite magnitudes, rounded. -/
def divCodes (a b : Nat) : Nat := nearestCode (units a) (units b)

/-- The whole number nearest to a finite magnitude, a half upwards. -/
def wholeCode (a : Nat) : Nat := nearestCode (roundHalfUp (units a) unitsPerOne) 1

/-- The number nearest to a natural number. -/
def ofNat (n : Nat) : Binary64 := ofCode false (nearestCode n 1)

end Binary64

/-- A decimal number without sign, `coefficient · 10^exponent`. -/
structure DecimalForm where
  coefficient : Nat
  exponent : Int
deriving DecidableEq

namespace DecimalForm

/-- The code of the binary64 number nearest to a decimal number. Exponents so large or small that the answer is infinity
or zero are settled without computing the power. -/
def nearestCode (d : DecimalForm) : Nat :=
  if d.coefficient = 0 then 0
  else match d.exponent with
    | .ofNat k => if 400 < k then Binary64.infinityCode else Binary64.nearestCode (d.coefficient * tenPow k) 1
    | .negSucc k =>
      if d.coefficient.log2 + 1100 < 3 * (k + 1) then 0 else Binary64.nearestCode d.coefficient (tenPow (k + 1))

/-- The decimal number written with digits before and after the point and a power of ten. -/
def ofDigits (whole fraction : List Char) (exponent : Int) : DecimalForm :=
  ⟨Nat.ofDigitChars 10 (whole ++ fraction) 0, exponent - fraction.length⟩

end DecimalForm

end SentenceQuery
