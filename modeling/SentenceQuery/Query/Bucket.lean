import SentenceQuery.Query.Plan

/-!
# Buckets of a grouped query

A grouped query puts records into buckets by their cells in the group fields. Buckets come in the order in which their
first members came, and members keep their order. Each bucket becomes one record: the cells of its key, and a cell for
each derived column (`Bucket.summary`).
-/

namespace SentenceQuery

/-- The cells of a record in the group fields; a cell may be missing. -/
abbrev GroupKey : Type := List (Option Cell)

namespace GroupKey

/-- The key of a record. -/
def ofRecord (fields : List String) (r : Record) : GroupKey := fields.map r.get?

/-- The representative of a key among the keys that count as the same. -/
def canonical (k : GroupKey) : GroupKey := List.map (Option.map Cell.canonical) k

/-- Two keys count as the same: the same cells are missing, and the others count as the same. -/
def Same (k l : GroupKey) : Prop := canonical k = canonical l

instance (k l : GroupKey) : Decidable (Same k l) := inferInstanceAs (Decidable (_ = _))

end GroupKey

/-- The items with one key. The key is that of the first item. -/
structure Bucket (α : Type) where
  key : GroupKey
  members : List α
deriving DecidableEq

namespace Bucket

variable {α : Type}

/-- The buckets with one more item: in the bucket of its key, or in a new one at the end. -/
def insert (key : GroupKey) (item : α) : List (Bucket α) → List (Bucket α)
  | [] => [⟨key, [item]⟩]
  | b :: rest =>
    if GroupKey.Same b.key key then ⟨b.key, b.members ++ [item]⟩ :: rest else b :: insert key item rest

/-- The buckets of items, which come one after the other. -/
def group (key : α → GroupKey) (items : List α) : List (Bucket α) :=
  items.foldl (fun buckets item => insert (key item) item buckets) []

end Bucket

/-- The derived cell of a bucket's records. COUNT counts the cells that do not count as the same; the others need numbers. A
record without the field adds nothing. -/
def ApplyDefinition.derive (d : ApplyDefinition) (members : List Record) : Except QueryError Cell :=
  let cells := members.filterMap fun r => r.get? d.field
  if d.op = .count then .ok (.number (.ofNat (countDistinct (cells.map Cell.canonical))))
  else match cells.mapM Cell.number? with
    | none => .error (.invalidAggregateField d.op d.field)
    | some numbers => do
      let x ← (d.op.reduce numbers).mapError .reduce
      .ok (.number x)

namespace Bucket

/-- The cells of a bucket's key under the group fields. -/
def keyRecord (fields : List String) (b : Bucket Record) : Record :=
  NameMap.ofList ((fields.zip b.key).filterMap fun (field, cell) => cell.map fun c => (field, c))

/-- The record of a bucket: its key and the derived columns, from the left. -/
def summary (fields : List String) (defs : List ApplyDefinition) (b : Bucket Record) : Except QueryError Record :=
  defs.foldlM
    (fun r d => do
      let cell ← d.derive b.members
      .ok (r.insert d.name cell))
    (b.keyRecord fields)

/-- The records of buckets, or the first error. -/
def summaries (fields : List String) (defs : List ApplyDefinition) (buckets : List (Bucket Record)) :
    Except QueryError (List Record) :=
  buckets.mapM (summary fields defs)

end Bucket

end SentenceQuery
