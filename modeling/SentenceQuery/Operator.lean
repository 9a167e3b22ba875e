import SentenceQuery.Table.Cell

/-!
# Operators of criteria

A criterion compares the cell of a field with a literal. Six operators compare numbers and eight compare texts. Each has a
phrase in sentences and a name in plans; the phrases are pairwise different, and a phrase says which type it compares.
-/

namespace SentenceQuery

/-- A comparison of two numbers. -/
inductive NumberOperator where
  | greaterThan
  | lessThan
  | equalTo
  | notGreaterThan
  | notLessThan
  | notEqualTo
deriving DecidableEq

namespace NumberOperator

def all : List NumberOperator :=
  [.greaterThan, .lessThan, .equalTo, .notGreaterThan, .notLessThan, .notEqualTo]

/-- How a sentence says it. -/
def phrase : NumberOperator → String
  | .greaterThan => "is greater than"
  | .lessThan => "is less than"
  | .equalTo => "is equal to"
  | .notGreaterThan => "is not greater than"
  | .notLessThan => "is not less than"
  | .notEqualTo => "is not equal to"

/-- How a plan names it. -/
def name : NumberOperator → String
  | .greaterThan => "GreaterThan"
  | .lessThan => "LessThan"
  | .equalTo => "EqualTo"
  | .notGreaterThan => "NotGreaterThan"
  | .notLessThan => "NotLessThan"
  | .notEqualTo => "NotEqualTo"

def ofPhrase? (phrase : String) : Option NumberOperator := all.find? (·.phrase = phrase)

def ofName? (name : String) : Option NumberOperator := all.find? (·.name = name)

/-- The comparison of a cell with a literal, by value. With a NaN on either side only `notEqualTo` holds: the operators
that deny are comparisons of their own and not negations. -/
def holds (op : NumberOperator) (cell literal : Binary64) : Bool :=
  match op with
  | .greaterThan => literal.lt cell
  | .lessThan => cell.lt literal
  | .equalTo => cell.eq literal
  | .notGreaterThan => cell.le literal
  | .notLessThan => literal.le cell
  | .notEqualTo => !cell.eq literal

end NumberOperator

/-- A comparison of two texts. -/
inductive TextOperator where
  | is
  | isNot
  | includes
  | doesNotInclude
  | beginsWith
  | doesNotBeginWith
  | endsWith
  | doesNotEndWith
deriving DecidableEq

namespace TextOperator

def all : List TextOperator :=
  [.is, .isNot, .includes, .doesNotInclude, .beginsWith, .doesNotBeginWith, .endsWith, .doesNotEndWith]

/-- How a sentence says it. -/
def phrase : TextOperator → String
  | .is => "is"
  | .isNot => "is not"
  | .includes => "includes"
  | .doesNotInclude => "does not include"
  | .beginsWith => "begins with"
  | .doesNotBeginWith => "does not begin with"
  | .endsWith => "ends with"
  | .doesNotEndWith => "does not end with"

/-- How a plan names it. -/
def name : TextOperator → String
  | .is => "Is"
  | .isNot => "IsNot"
  | .includes => "Includes"
  | .doesNotInclude => "DoesNotInclude"
  | .beginsWith => "BeginsWith"
  | .doesNotBeginWith => "DoesNotBeginWith"
  | .endsWith => "EndsWith"
  | .doesNotEndWith => "DoesNotEndWith"

def ofPhrase? (phrase : String) : Option TextOperator := all.find? (·.phrase = phrase)

def ofName? (name : String) : Option TextOperator := all.find? (·.name = name)

/-- The text occurs in another, at its start or after some of its characters. -/
def occursIn (needle : List Char) : List Char → Bool
  | [] => needle.isEmpty
  | c :: rest => needle.isPrefixOf (c :: rest) || occursIn needle rest

/-- The comparison of a cell with a literal, character by character. -/
def holds (op : TextOperator) (cell literal : String) : Bool :=
  match op with
  | .is => cell = literal
  | .isNot => cell ≠ literal
  | .includes => occursIn literal.toList cell.toList
  | .doesNotInclude => !occursIn literal.toList cell.toList
  | .beginsWith => literal.toList.isPrefixOf cell.toList
  | .doesNotBeginWith => !literal.toList.isPrefixOf cell.toList
  | .endsWith => literal.toList.isSuffixOf cell.toList
  | .doesNotEndWith => !literal.toList.isSuffixOf cell.toList

end TextOperator

/-- An operator of either type. -/
inductive Operator where
  | number (op : NumberOperator)
  | text (op : TextOperator)
deriving DecidableEq

namespace Operator

/-- The operator of a phrase; a phrase of both types would be that of numbers. -/
def ofPhrase? (phrase : String) : Option Operator :=
  ((NumberOperator.ofPhrase? phrase).map .number).or ((TextOperator.ofPhrase? phrase).map .text)

def phrase : Operator → String
  | .number op => op.phrase
  | .text op => op.phrase

/-- The type of cell and literal that an operator compares. -/
def operandType : Operator → FieldType
  | .number _ => .number
  | .text _ => .text

/-- Every phrase, those for numbers first. -/
def phrases : List String :=
  NumberOperator.all.map NumberOperator.phrase ++ TextOperator.all.map TextOperator.phrase

/-- The operator holds between a cell and a literal: both are of the type it compares and the comparison is true. -/
def holds : Operator → Cell → Cell → Bool
  | .number op, .number cell, .number literal => op.holds cell literal
  | .text op, .text cell, .text literal => op.holds cell literal
  | _, _, _ => false

end Operator

end SentenceQuery
