import SentenceQuery.Operator

/-!
# Words with a fixed meaning

The words of sentences that are neither names nor literals: the keywords that hold a sentence together, the connectives
between criteria and the directions of sorting.
-/

namespace SentenceQuery

/-- The words that no name of a column and no dataset may be. -/
def keywords : List String :=
  ["In", "dataset", "grouped", "find", "all", "entries", "whose", "show", "where", "sort", "by", "and", "or", "is", "the",
    "of"]

/-- A connective after a criterion. -/
inductive Connective where
  | and
  | or
deriving DecidableEq

namespace Connective

def all : List Connective := [.and, .or]

/-- The word of a connective in sentences and plans. -/
def word : Connective → String
  | .and => "and"
  | .or => "or"

def ofWord? (word : String) : Option Connective := all.find? (·.word = word)

/-- What has been decided so far, joined with the next criterion. -/
def combine : Connective → Bool → Bool → Bool
  | .and, acc, next => acc && next
  | .or, acc, next => acc || next

end Connective

/-- The direction of sorting. -/
inductive Direction where
  | ascending
  | descending
deriving DecidableEq

namespace Direction

def all : List Direction := [.ascending, .descending]

/-- The word of a direction in sentences and plans. -/
def word : Direction → String
  | .ascending => "ascending"
  | .descending => "descending"

def ofWord? (word : String) : Option Direction := all.find? (·.word = word)

/-- An order in this direction: as it is, or reversed. -/
def apply : Direction → Ordering → Ordering
  | .ascending, o => o
  | .descending, o => o.swap

end Direction

end SentenceQuery
