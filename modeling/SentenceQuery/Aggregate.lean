import SentenceQuery.Number.Decimal96
import SentenceQuery.Table.Cell

/-!
# Aggregates

A grouped query derives columns from the cells of a group: the least and the greatest number, the sum, the mean, and the
number of different cells. Sum and mean are exact decimals rounded to two places at the end; every other aggregate answers
a number that it was given, or a count.
-/

namespace SentenceQuery

/-- How the cells of a group become one cell. -/
inductive Aggregate where
  | min
  | max
  | avg
  | sum
  | count
deriving DecidableEq

/-- Why numbers cannot be reduced: one of them, or the sum with it, has no decimal; or there is none. -/
inductive ReduceError where
  | decimalOverflow (value : Binary64)
  | emptyInput (op : Aggregate)
deriving DecidableEq

namespace Aggregate

def all : List Aggregate := [.min, .max, .avg, .sum, .count]

/-- The name of an aggregate in sentences, plans and messages. -/
def name : Aggregate → String
  | .min => "MIN"
  | .max => "MAX"
  | .avg => "AVG"
  | .sum => "SUM"
  | .count => "COUNT"

def ofName? (name : String) : Option Aggregate := all.find? (·.name = name)

/-- COUNT takes cells of any type, the others numbers. -/
def accepts (op : Aggregate) (type : FieldType) : Bool :=
  op = .count || type = .number

end Aggregate

def ReduceError.message : ReduceError → String
  | .decimalOverflow value => "Value " ++ String.ofList value.plainText ++ " cannot be represented as a decimal"
  | .emptyInput op => op.name ++ " needs at least one value"

/-- The number of different members of a list. -/
def countDistinct {α : Type} [DecidableEq α] (xs : List α) : Nat :=
  xs.eraseDups.length

namespace Aggregate

/-- The lesser of two numbers, passing over a NaN; of equals the first. -/
def lesser (x y : Binary64) : Binary64 := if y.isNaN then x else if x.isNaN || y.lt x then y else x

/-- The greater of two numbers, passing over a NaN; of equals the first. -/
def greater (x y : Binary64) : Binary64 := if y.isNaN then x else if x.isNaN || x.lt y then y else x

/-- A decimal sum with one more number. A number without a decimal, or whose addition goes out of range, is named in the
error. -/
def addNumber (acc : Decimal96) (x : Binary64) : Except ReduceError Decimal96 :=
  match Decimal96.ofBinary64? x with
  | none => .error (.decimalOverflow x)
  | some d => match acc.add? d with
    | none => .error (.decimalOverflow x)
    | some total => .ok total

/-- The decimal sum of numbers, added from the left. -/
def decimalSum (xs : List Binary64) : Except ReduceError Decimal96 :=
  xs.foldlM addNumber Decimal96.zero

/-- The places that SUM and AVG keep. -/
def places : Nat := 2

/-- A decimal rounded to two places, as a number. -/
def rounded (d : Option Decimal96) : Except ReduceError Binary64 :=
  match d.bind (·.roundTo? places) with
  | none => .error (.decimalOverflow .nan)
  | some d => .ok d.toBinary64

/-- The aggregate of a list of numbers. COUNT of no numbers is 0, every other aggregate of none is an error; MIN and MAX of
nothing but NaNs are the infinities they start from. COUNT takes the two zeros as one. -/
def reduce (op : Aggregate) (xs : List Binary64) : Except ReduceError Binary64 :=
  if xs = [] ∧ op ≠ .count then .error (.emptyInput op)
  else match op with
    | .min => .ok (xs.foldl lesser (.infinity false))
    | .max => .ok (xs.foldl greater (.infinity true))
    | .sum => do rounded (some (← decimalSum xs))
    | .avg => do rounded ((← decimalSum xs).divNat? xs.length)
    | .count => .ok (.ofNat (countDistinct (xs.map Binary64.mergeZeros)))

end Aggregate

end SentenceQuery
