import SentenceQuery.Query.Error

/-!
# Plans

A plan is what a sentence means: which dataset, which records, which columns, how records are grouped and what is derived
from each group, and in which order the rows come.
-/

namespace SentenceQuery

/-- One criterion of a filter: a field is compared with a literal. The glue joins it to the next criterion. -/
structure Criterion where
  field : String
  operator : Operator
  value : Cell
  glue : Option Connective
deriving DecidableEq

/-- The criterion holds of a record. A record without the field, or with a cell of another type in it, never matches. -/
def Criterion.holds (c : Criterion) (r : Record) : Bool :=
  match r.get? c.field with
  | some cell => c.operator.holds cell c.value
  | none => false

/-- A derived column: an aggregate over a field, under a name. -/
structure ApplyDefinition where
  name : String
  op : Aggregate
  field : String
deriving DecidableEq

/-- The columns that rows are sorted by, and the direction. -/
structure Order where
  direction : Direction
  fields : List String
deriving DecidableEq

/-- No order: no column to sort by. -/
def Order.unsorted : Order := ⟨.ascending, []⟩

/-- A query. The columns that may be shown are limited when it is grouped. -/
structure Plan where
  kind : Kind
  datasetId : String
  criteria : List Criterion
  displayFields : List String
  groupFields : List String
  applyDefs : List ApplyDefinition
  order : Order
  allowedDisplayFields : Option NameSet
deriving DecidableEq

/-- The query is grouped. -/
def Plan.isGrouped (p : Plan) : Bool := !p.groupFields.isEmpty

end SentenceQuery
