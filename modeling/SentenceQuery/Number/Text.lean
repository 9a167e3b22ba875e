import SentenceQuery.Number.Shortest

/-!
# Numbers as text

Two forms are written. The plain form, for messages, has no exponent however long it gets, and keeps the sign of zero. The
compact form, for JSON, writes whole numbers below 2^63 digit by digit without a sign on zero, and turns to a power of ten
for numbers far from one. Both have the fewest digits that read back. One form is read (`ofText?`); it takes in both.
-/

namespace SentenceQuery

namespace DecimalForm

/-- The digits of a decimal number with a point where it belongs, and no exponent. -/
def plain (d : DecimalForm) : List Char :=
  let digits := Nat.toDigits 10 d.coefficient
  match d.exponent with
  | .ofNat k => digits ++ List.replicate k '0'
  | .negSucc k =>
    let places := k + 1
    if places < digits.length then
      digits.take (digits.length - places) ++ '.' :: digits.drop (digits.length - places)
    else
      '0' :: '.' :: (List.replicate (places - digits.length) '0' ++ digits)

/-- The decimal exponent of the first digit. -/
def firstPlace (d : DecimalForm) : Int :=
  d.exponent + (Nat.toDigits 10 d.coefficient).length - 1

/-- The digits with a point after the first and a signed power of ten. -/
def scientific (d : DecimalForm) : List Char :=
  let place := d.firstPlace
  let mantissa := match Nat.toDigits 10 d.coefficient with
    | [] => []
    | [c] => [c]
    | c :: rest => c :: '.' :: rest
  mantissa ++ 'e' :: (if place < 0 then '-' else '+') :: Nat.toDigits 10 place.natAbs

end DecimalForm

namespace Binary64

/-- The sign of a number as it is written in front of the digits. -/
def signText (x : Binary64) : List Char := if x.negative then ['-'] else []

/-- The plain form: never a power of ten; of two equally near shortest decimals the larger. -/
def plainText (x : Binary64) : List Char :=
  if x.isNaN then ['N', 'a', 'N']
  else if x.isFinite then
    x.signText ++ (if x.isZero then ['0'] else (DecimalForm.shortest .upwards x.code).plain)
  else x.signText ++ ['i', 'n', 'f']

/-- The compact form of a finite number: a whole number below 2^63 digit by digit (zero without a sign); any other number
by its shortest decimal, of two equally near ones the one with the even last digit, positionally if the exponent of the
first digit is -5 to 15, else with a power of ten. The numbers that are not finite have none. -/
def compactText? (x : Binary64) : Option (List Char) :=
  if x.isFinite then
    match x.wholeMagnitude? with
    | some 0 => some ['0']
    | some n => if n < twoPow 63 then some (x.signText ++ Nat.toDigits 10 n) else some (x.signText ++ shortestText x.code)
    | none => some (x.signText ++ shortestText x.code)
  else none
where
  /-- The shortest decimal of a code, positional near one and with a power of ten elsewhere. -/
  shortestText (code : Nat) : List Char :=
    let d := DecimalForm.shortest .toEven code
    if -5 ≤ d.firstPlace && d.firstPlace ≤ 15 then d.plain else d.scientific

/-! ## Reading -/

/-- The number with a sign that is nearest to a decimal. -/
def ofDecimal (negative : Bool) (d : DecimalForm) : Binary64 := ofCode negative d.nearestCode

/-- A sign and what follows it; no sign counts as plus. -/
def readSign : List Char → Bool × List Char
  | '-' :: rest => (true, rest)
  | '+' :: rest => (false, rest)
  | s => (false, s)

/-- The fraction digits after a point, if there is a point, and the rest. -/
def readFraction : List Char → List Char × List Char
  | '.' :: rest => (rest.takeWhile Char.isDigit, rest.dropWhile Char.isDigit)
  | s => ([], s)

/-- The power of ten that a text ends with: nothing, or a mark, an optional sign and at least one digit. -/
def readExponent? : List Char → Option Int
  | [] => some 0
  | mark :: rest =>
    if mark = 'e' ∨ mark = 'E' then
      let (negative, digits) := readSign rest
      if digits ≠ [] ∧ digits.all Char.isDigit then
        let n : Int := Nat.ofDigitChars 10 digits 0
        some (if negative then -n else n)
      else none
    else none

/-- The number that a text stands for: an optional sign, then digits with an optional point and an optional power of ten,
or `inf`, `infinity` or `nan` in any case of letters. A text with no digit stands for none. -/
def ofText? (s : List Char) : Option Binary64 :=
  let (negative, body) := readSign s
  let lower := body.map Char.toLower
  if lower = ['i', 'n', 'f'] ∨ lower = ['i', 'n', 'f', 'i', 'n', 'i', 't', 'y'] then some (infinity negative)
  else if lower = ['n', 'a', 'n'] then some { nan with negative }
  else
    let whole := body.takeWhile Char.isDigit
    let (fraction, rest) := readFraction (body.dropWhile Char.isDigit)
    if whole = [] ∧ fraction = [] then none
    else (readExponent? rest).map fun exponent => ofDecimal negative (.ofDigits whole fraction exponent)

end Binary64

end SentenceQuery
