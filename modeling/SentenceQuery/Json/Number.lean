import SentenceQuery.Json.Scalar
import SentenceQuery.Number.Text

/-!
# Reading JSON: numbers

A number is read as it is written first (`NumberText`), and then gets a value. The value is found in a few steps, each of
which is rounded: the digits are kept as one number below 2^64, as many of them as fit; that number is rounded to binary64;
and the power of ten is applied by one product or quotient of binary64 numbers, or by two quotients where the power is
beyond 10^308. So the value of a number with many digits or with a far power of ten may be a neighbour of the nearest one.
-/

namespace SentenceQuery.Json

/-- A number as it is written: its sign, the digits before and after the point, and the power of ten. -/
structure NumberText where
  negative : Bool
  whole : List Char
  fraction : List Char
  exponent : Int
deriving DecidableEq

/-! ## Form -/

/-- The digits of a number before the point: a zero, or digits of which the first is not zero. -/
def readWhole : Reader (List Char)
  | [] => .error .illFormed
  | '0' :: rest =>
    match rest with
    | c :: _ => if c.isDigit then .error .illFormed else .ok (['0'], rest)
    | [] => .ok (['0'], [])
  | c :: rest =>
    if c.isDigit then .ok (c :: rest.takeWhile Char.isDigit, rest.dropWhile Char.isDigit) else .error .illFormed

/-- At least one digit. -/
def readDigits : Reader (List Char) := fun s =>
  match s.takeWhile Char.isDigit with
  | [] => .error .illFormed
  | digits => .ok (digits, s.dropWhile Char.isDigit)

/-- The digits after the point, if there is one. -/
def readFraction : Reader (List Char)
  | '.' :: rest => readDigits rest
  | s => .ok ([], s)

/-- The power of ten, if there is one. -/
def readExponent : Reader Int
  | [] => .ok (0, [])
  | mark :: rest =>
    if mark = 'e' ∨ mark = 'E' then do
      let (negative, rest) := Binary64.readSign rest
      let (digits, rest) ← readDigits rest
      let n : Int := Nat.ofDigitChars 10 digits 0
      .ok (if negative then -n else n, rest)
    else .ok (0, mark :: rest)

/-- A number after its sign. -/
def readUnsigned (negative : Bool) : Reader NumberText := fun s => do
  let (whole, s) ← readWhole s
  let (fraction, s) ← readFraction s
  let (exponent, s) ← readExponent s
  .ok (⟨negative, whole, fraction, exponent⟩, s)

/-- A number as it is written. -/
def readNumberText : Reader NumberText
  | '-' :: rest => readUnsigned true rest
  | s => readUnsigned false s

/-- The characters that a number may start with. -/
def startsNumber (c : Char) : Bool := c = '-' || c.isDigit

/-! ## Value -/

/-- The greatest number that digits are kept in. -/
def maxDigits : Nat := 0xFFFFFFFFFFFFFFFF

/-- The number of digits that follow the digits of `n`, up to the first that does not fit, and the digits from there on. -/
def keepDigits (n : Nat) : List Char → Nat × List Char
  | [] => (n, [])
  | c :: rest =>
    let next := 10 * n + (c.toNat - '0'.toNat)
    if next ≤ maxDigits then keepDigits next rest else (n, c :: rest)

/-- The decimal of the digits that are kept. A digit before the point that is not kept counts as a power of ten; one after
it does not count. -/
def NumberText.kept (t : NumberText) : DecimalForm :=
  let (whole, dropped) := keepDigits 0 t.whole
  let (digits, unread) := keepDigits whole t.fraction
  ⟨digits, t.exponent + dropped.length - (t.fraction.length - unread.length : Nat)⟩

/-- The greatest power of ten that is applied in one step. -/
def maxPower : Nat := 308

/-- The code of a power of ten. -/
def powerCode (k : Nat) : Nat := Binary64.nearestCode (tenPow k) 1

/-- A magnitude times a power of ten, if it stays finite; zero stays zero. -/
def raise? (code k : Nat) : Option Nat :=
  if code = 0 then some 0
  else if maxPower < k then none
  else
    let product := Binary64.mulCodes code (powerCode k)
    if product < Binary64.infinityCode then some product else none

/-- A magnitude below 2^65 divided by a power of ten. Beyond two steps nothing of it is left. -/
def lower (code k : Nat) : Nat :=
  if k ≤ maxPower then Binary64.divCodes code (powerCode k)
  else if k ≤ 2 * maxPower then
    Binary64.divCodes (Binary64.divCodes code (powerCode maxPower)) (powerCode (k - maxPower))
  else 0

/-- The code of a decimal, found in rounded steps; none for one that is too large. -/
def stepwiseCode? (d : DecimalForm) : Option Nat :=
  let code := Binary64.nearestCode d.coefficient 1
  match d.exponent with
  | .ofNat k => raise? code k
  | .negSucc k => some (lower code (k + 1))

/-- The value of a number, if it is not too large. -/
def NumberText.value? (t : NumberText) : Option Binary64 :=
  (stepwiseCode? t.kept).map (Binary64.ofCode t.negative)

/-- A number; one that is too large is a fault of the text. -/
def readNumber : Reader Binary64 := fun s => do
  let (t, s) ← readNumberText s
  match t.value? with
  | some x => .ok (x, s)
  | none => .error .illFormed

end SentenceQuery.Json
