import SentenceQuery.Number.Rounding

/-!
# The fewest digits that read back

A number is written with the fewest decimal digits that are read back as that number. Of several decimals of that length
the nearest to the number is taken; where two are equally near, the rule for ties is a parameter of the format.
-/

namespace SentenceQuery

/-- Which of two equally near decimals is taken. -/
inductive Tie where
  | toEven
  | upwards
deriving DecidableEq

namespace Shortest

/-- `10^j` is at most the magnitude of `units` units. -/
def reaches (units : Nat) (j : Int) : Bool :=
  decide (Binary64.unitsPerOne * tenPow j.toNat ≤ units * tenPow (-j).toNat)

/-- The decimal exponent of the first digit of a magnitude that is not zero: estimated from the number of bits, then
corrected by exact comparison. -/
def leadingExponent (units : Nat) : Int :=
  let k := ((units.log2 : Int) - 1074) * 30103 / 100000
  if reaches units (k + 1) then k + 1 else if reaches units k then k else k - 1

/-- Of the two neighbours of a magnitude among the multiples of `10^exponent`, the one that reads back as `code`, if there
is one; of two the nearer. -/
def onGrid (tie : Tie) (code : Nat) (exponent : Int) : Option DecimalForm :=
  let units := Binary64.units code
  let num := units * tenPow (-exponent).toNat
  let den := Binary64.unitsPerOne * tenPow exponent.toNat
  let below : DecimalForm := ⟨num / den, exponent⟩
  let above : DecimalForm := ⟨num / den + 1, exponent⟩
  match decide (below.nearestCode = code), decide (above.nearestCode = code) with
  | false, false => none
  | true, false => some below
  | false, true => some above
  | true, true =>
    let twice := 2 * (num % den)
    if twice < den then some below
    else if den < twice then some above
    else match tie with
      | .toEven => if num / den % 2 = 0 then some below else some above
      | .upwards => some above

/-- The decimal number without the zeros its coefficient ends with; `fuel` bounds their number. -/
def stripZeros : (fuel : Nat) → DecimalForm → DecimalForm
  | 0, d => d
  | fuel + 1, d =>
    if d.coefficient % 10 = 0 then stripZeros fuel ⟨d.coefficient / 10, d.exponent + 1⟩ else d

end Shortest

open Shortest in
/-- The shortest decimal that reads back as a finite `code` other than zero. Up to 17 digits are tried; should none of
them do, the exact decimal value is taken. -/
def DecimalForm.shortest (tie : Tie) (code : Nat) : DecimalForm :=
  let units := Binary64.units code
  let lead := leadingExponent units
  let found := (List.range 17).findSome? fun (n : Nat) => onGrid tie code (lead - n)
  let d := found.getD ⟨units * Nat.pow 5 1074, -1074⟩
  stripZeros (d.coefficient.log2 + 1) d

end SentenceQuery
