import SentenceQuery.Number.Text

/-!
# Decimal numbers of 96 bits

Sums and means are taken in decimals, so that amounts written with a few places add up without binary error. A decimal has
up to 28 places and a coefficient below 2^96. A result that has too many digits keeps as many places as fit and is rounded;
one whose whole part does not fit has no value.
-/

namespace SentenceQuery

/-- The decimal number `coefficient / 10^scale`. -/
structure Decimal96 where
  coefficient : Int
  scale : Nat
  coefficient_lt : coefficient.natAbs < twoPow 96
  scale_le : scale ≤ 28
deriving DecidableEq

namespace Decimal96

/-- Zero without places. -/
def zero : Decimal96 := ⟨0, 0, by decide, by decide⟩

/-- The greatest number of places, up to `top`, at which the rounded coefficient fits 96 bits, with that coefficient. -/
def fit? (rounded : Nat → Nat) (top : Nat) : Option (Nat × Nat) :=
  if rounded top < twoPow 96 then some (rounded top, top)
  else match top with
    | 0 => none
    | top + 1 => fit? rounded top

/-- A decimal from a sign, a magnitude and a number of places, if they are within bounds. -/
def ofParts? (negative : Bool) (magnitude scale : Nat) : Option Decimal96 :=
  if h : magnitude < twoPow 96 ∧ scale ≤ 28 then
    some ⟨if negative then -(magnitude : Int) else magnitude, scale, by split <;> simpa using h.1, h.2⟩
  else none

/-- The decimal of a sign and a decimal form: places beyond those that fit are rounded, a half upwards in magnitude. A
form that stands for a whole number has no places. -/
def ofForm? (negative : Bool) (d : DecimalForm) : Option Decimal96 :=
  match d.exponent with
  | .ofNat k => ofParts? negative (d.coefficient * tenPow k) 0
  | .negSucc k => do
    let (magnitude, scale) ← fit? (fun s => roundHalfUp d.coefficient (tenPow (k + 1 - s))) (min (k + 1) 28)
    ofParts? negative magnitude scale

/-- The decimal of a number as its plain text shows it, so that it keeps the digits the number was written with; none for a
number that is not finite or that is too large. -/
def ofBinary64? (x : Binary64) : Option Decimal96 :=
  if x.isFinite then
    if x.isZero then some zero else ofForm? x.negative (DecimalForm.shortest .upwards x.code)
  else none

/-- The coefficient that a decimal has when it is written with more places. -/
def coefficientAt (a : Decimal96) (scale : Nat) : Int := a.coefficient * tenPow (scale - a.scale)

/-- The sum, taken at the larger number of places and rounded to as many as fit, a half to even. A zero adds nothing, not
even places. -/
def add? (a b : Decimal96) : Option Decimal96 :=
  if a.coefficient = 0 then some b
  else if b.coefficient = 0 then some a
  else do
    let top := max a.scale b.scale
    let sum := a.coefficientAt top + b.coefficientAt top
    let (magnitude, scale) ← fit? (fun s => roundHalfEven sum.natAbs (tenPow (top - s))) top
    ofParts? (decide (sum < 0)) magnitude scale

/-- The greatest number of places, up to `top`, by which a coefficient can be extended within 96 bits; 0 if there is
none. -/
def room (coefficient : Nat) : (top : Nat) → Nat
  | 0 => 0
  | top + 1 => if coefficient * tenPow (top + 1) < twoPow 96 then top + 1 else room coefficient top

/-- The number of places at which `m / n` is taken, where `m` has `scale` places: beginning with `places`, places are added
nine at a time, or as many as there is room for, until the division leaves no remainder or there is no room. Each step but
the last adds a place at least, and there are at most 28. -/
def quotientScale (m n scale : Nat) : (steps places : Nat) → Nat
  | 0, places => places
  | steps + 1, places =>
    let scaled := m * tenPow (places - scale)
    let more := room (scaled / n) (min 9 (28 - places))
    if scaled % n = 0 ∨ more = 0 then places else quotientScale m n scale steps (places + more)

/-- Takes zeros off the end of the places, eight at a time while the low 32 bits of the magnitude are zero. -/
def dropEights : (magnitude scale : Nat) → Nat × Nat
  | magnitude, scale + 8 =>
    if magnitude % twoPow 32 = 0 ∧ magnitude % tenPow 8 = 0 then dropEights (magnitude / tenPow 8) scale
    else (magnitude, scale + 8)
  | magnitude, scale => (magnitude, scale)

/-- Takes `count` zeros off the end of the places, if there are that many. -/
def dropZeros (count : Nat) : Nat × Nat → Nat × Nat
  | (magnitude, scale) =>
    if count ≤ scale ∧ magnitude % tenPow count = 0 then (magnitude / tenPow count, scale - count)
    else (magnitude, scale)

/-- A quotient without zeros at the end of its places, as far as they are looked for: first eights, then once each a four,
a two and a one. Zeros may be left: a half found at nine places is kept at two. -/
def shorten (magnitude scale : Nat) : Nat × Nat :=
  dropZeros 1 (dropZeros 2 (dropZeros 4 (dropEights magnitude scale)))

/-- The quotient by a count. A quotient without a remainder keeps the places of the dividend. Another is taken at as many
places as make it exact or as fit, up to 28, a half to even, and shortened. -/
def divNat? (a : Decimal96) (n : Nat) : Option Decimal96 :=
  if n = 0 then none
  else if a.coefficient = 0 then some zero
  else
    let m := a.coefficient.natAbs
    let negative := decide (a.coefficient < 0)
    if m % n = 0 then ofParts? negative (m / n) a.scale
    else do
      let top := quotientScale m n a.scale 28 a.scale
      let (magnitude, scale) ←
        fit? (fun s => roundHalfEven (m * tenPow (top - a.scale)) (n * tenPow (top - s))) top
      let (magnitude, scale) := shorten magnitude scale
      ofParts? negative magnitude scale

/-- The decimal rounded to at most `places` places, a half away from zero. -/
def roundTo? (a : Decimal96) (places : Nat) : Option Decimal96 :=
  if a.scale ≤ places then some a
  else ofParts? (decide (a.coefficient < 0)) (roundHalfUp a.coefficient.natAbs (tenPow (a.scale - places))) places

open Binary64 in
/-- The magnitude of a decimal as binary64: its whole part and its places are converted apart and added, and the sum is
rounded to the number of places of the decimal. -/
def magnitudeCode (a : Decimal96) : Nat :=
  let m := a.coefficient.natAbs
  if a.scale = 0 then nearestCode m 1
  else
    let unit := nearestCode (tenPow a.scale) 1
    let whole := nearestCode (m / tenPow a.scale) 1
    let part := divCodes (nearestCode (m % tenPow a.scale) 1) unit
    if part = 0 then whole
    else divCodes (wholeCode (mulCodes (addCodes whole part) unit)) unit

/-- A decimal as a binary64 number; zero has no sign. -/
def toBinary64 (a : Decimal96) : Binary64 :=
  Binary64.ofCode (decide (a.coefficient < 0)) a.magnitudeCode

end Decimal96

end SentenceQuery
