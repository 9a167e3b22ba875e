import SentenceQuery.Query.Plan

/-!
# Which records a query selects

The criteria of a query are decided from left to right: what is decided so far is joined with the next criterion by the
glue between them, so `and` does not bind tighter than `or`. A query without criteria selects every record.
-/

namespace SentenceQuery

namespace Criteria

/-- What is decided after the remaining criteria, where `glue` joins the next one. A glue that is missing counts as
`and`. -/
def decideFrom (r : Record) : (decided : Bool) → (glue : Option Connective) → List Criterion → Bool
  | decided, _, [] => decided
  | decided, glue, c :: rest => decideFrom r ((glue.getD .and).combine decided (c.holds r)) c.glue rest

/-- A record satisfies criteria. -/
def accept (criteria : List Criterion) (r : Record) : Bool :=
  match criteria with
  | [] => true
  | c :: rest => decideFrom r (c.holds r) c.glue rest

/-- The records that satisfy criteria, in their order. -/
def select (criteria : List Criterion) (records : List Record) : List Record :=
  records.filter (accept criteria)

end Criteria

end SentenceQuery
