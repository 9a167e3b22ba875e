import SentenceQuery.Query.Bucket
import SentenceQuery.Query.Criteria

/-!
# The rows that answer a query

Records become rows that show the display fields; rows are sorted; and the fields of the dataset get the id of the dataset
in front, while derived columns keep their names. `Plan.answer` puts the parts together.
-/

namespace SentenceQuery

namespace Row

/-- The row of a record: its cells in the display fields, each field once. A field that the record lacks is left out. -/
def ofRecord (display : List String) (r : Record) : Row :=
  display.foldl
    (fun row field =>
      if (row.get? field).isSome then row
      else match r.get? field with
        | some cell => row.push field cell
        | none => row)
    ⟨[]⟩

/-- The order of two rows by one field; rows of which one lacks the field tie. -/
def compareBy (field : String) (a b : Row) : Ordering :=
  match a.get? field, b.get? field with
  | some x, some y => x.compareForSort y
  | _, _ => .eq

/-- The key that a cell is shown under: a field of the kind with the id of the dataset in front, any other key as it is. -/
def qualifiedKey (id : String) (kind : Kind) (key : String) : String :=
  if kind.isField key then id ++ "_" ++ key else key

/-- The row with its keys as they are shown. -/
def qualify (id : String) (kind : Kind) (r : Row) : Row :=
  ⟨r.cells.map fun (key, cell) => (qualifiedKey id kind key, cell)⟩

end Row

namespace Order

/-- The order of two rows: by the first field in which they differ, in the direction. -/
def compare (o : Order) (a b : Row) : Ordering :=
  o.direction.apply (o.fields.foldr (fun field rest => (Row.compareBy field a b).then rest) .eq)

/-- The rows sorted; rows that tie keep their order. Without fields to sort by, all rows do. -/
def sort (o : Order) (rows : List Row) : List Row :=
  if o.fields.isEmpty then rows else rows.mergeSort fun a b => (o.compare a b).isLE

end Order

namespace Plan

/-- The records that the rows show: those selected, or one for each bucket of them. -/
def source (p : Plan) (records : List Record) : Except QueryError (List Record) :=
  let selected := Criteria.select p.criteria records
  if p.isGrouped then
    Bucket.summaries p.groupFields p.applyDefs (Bucket.group (GroupKey.ofRecord p.groupFields) selected)
  else .ok selected

/-- The rows that answer a query over records. -/
def answer (p : Plan) (records : List Record) : Except QueryError (List Row) := do
  let source ← p.source records
  .ok ((p.order.sort (source.map (Row.ofRecord p.displayFields))).map (Row.qualify p.datasetId p.kind))

end Plan

end SentenceQuery
