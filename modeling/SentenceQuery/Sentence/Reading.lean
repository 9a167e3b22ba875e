import SentenceQuery.Sentence.Criteria
import SentenceQuery.Sentence.Cursor

/-!
# From a sentence to a plan

A sentence has a dataset clause, perhaps a group clause, a filter clause, a display clause, perhaps an apply clause and a
sort clause, and a full stop. Each clause is read and checked before the next, so of two faults the earlier is reported;
what concerns several clauses is checked at the end (`Plan.validate`).
-/

namespace SentenceQuery

/-- The word is a keyword or the whole phrase of an operator. -/
def isKeyword (word : String) : Bool := keywords.contains word || Operator.phrases.contains word

/-- The field that a column's name stands for; a name that is no column of the kind stands for itself if it can. -/
def resolveColumn (kind : Kind) (name : String) : Except QueryError String :=
  match kind.resolve? name with
  | some field => .ok field
  | none => if isPlainName name && !isKeyword name then .ok name else .error (.unknownField name)

/-- The first inner node of a node. -/
def Node.single (n : Node Rule) : Except QueryError (Node Rule) :=
  match n.inner with
  | [] => .error (.wording (.emptyNode n.rule))
  | first :: _ => .ok first

namespace Sentence

/-- The fields of a list of columns. -/
def readColumns (kind : Kind) (list : Node Rule) : Except QueryError (List String) :=
  list.inner.mapM fun column => resolveColumn kind column.string

/-- The kind and the id of a dataset clause. An id has no `_` and is no keyword. -/
def readDataset (clause : Node Rule) : Except QueryError (Kind × String) :=
  match clause.inner with
  | kind :: id :: _ => do
    let kind ← (Kind.ofName kind.string).mapError .lookup
    if id.text.contains '_' || isKeyword id.string then
      .error (.wording (.invalidDatasetId id.string))
    else .ok (kind, id.string)
  | _ => .error (.wording (.malformed .datasetClause))

/-- The criteria of a filter clause. A criterion's glue is the connective after it. -/
def readFilter (kind : Kind) (clause : Node Rule) : Except QueryError (List Criterion) := do
  let body ← clause.single
  if body.rule = .findAll then .ok []
  else
    let text ← body.single
    let (segments, connectives) ← splitCriteria (trim text.text)
    (segments.zipIdx).mapM fun (segment, i) => parseCriterion segment kind connectives[i]?

/-- One definition of an apply clause, after those before it. -/
def readDefinition (kind : Kind) (groupFields : List String) (earlier : List ApplyDefinition) (d : Node Rule) :
    Except QueryError ApplyDefinition :=
  match d.inner with
  | name :: op :: source :: _ => do
    let name := name.string
    if !isPlainName name || isKeyword name then .error (.unknownField name)
    else if earlier.any (·.name = name) || groupFields.contains name || (kind.resolve? name).isSome ||
        kind.isField name then .error (.duplicateName name)
    else
      let op ← (Aggregate.ofName op.string).mapError .lookup
      match kind.resolve? source.string with
      | none => .error (.unknownField source.string)
      | some field =>
        match kind.fieldType? field with
        | none => .error (.unknownField field)
        | some type => if op.accepts type then .ok ⟨name, op, field⟩ else .error (.invalidAggregateField op field)
  | _ => .error (.wording (.malformed .applyDef))

/-- The definitions of an apply clause, from the left. -/
def readDefinitions (kind : Kind) (groupFields : List String) (clause : Node Rule) :
    Except QueryError (List ApplyDefinition) :=
  clause.inner.foldlM
    (fun earlier d => do
      let definition ← readDefinition kind groupFields earlier d
      .ok (earlier ++ [definition]))
    []

/-- The order of a sort clause. -/
def readOrder (kind : Kind) (clause : Node Rule) : Except QueryError Order :=
  match clause.inner with
  | direction :: fields :: _ =>
    match Direction.ofWord? direction.string with
    | none => .error (.wording (.unknownDirection direction.string))
    | some direction => do .ok ⟨direction, ← readColumns kind fields⟩
  | _ => .error (.wording (.malformed .sortClause))

/-- An optional clause: what it says, or a default where it is not there, and the place after it. -/
def readOptional {α : Type} (rule : Rule) (c : Cursor) (default : α) (read : Node Rule → Except QueryError α) :
    Except QueryError (α × Cursor) :=
  match c.accept? rule with
  | some (clause, c) => do .ok (← read clause, c)
  | none => .ok (default, c)

end Sentence

/-- The first column shown that a grouped query may not show. -/
def Plan.forbiddenColumn? (p : Plan) : Option String :=
  match p.allowedDisplayFields with
  | none => none
  | some allowed => p.displayFields.find? fun f => !allowed.contains f

/-- What concerns several clauses: columns are derived only from groups, a grouped query shows only group columns and
derived ones, and rows are sorted only by columns that are shown. -/
def Plan.validate (p : Plan) : Except QueryError Unit :=
  if !p.applyDefs.isEmpty && !p.isGrouped then .error (.wording .applyWithoutGroup)
  else match p.forbiddenColumn? with
    | some column => .error (.invalidColumns column)
    | none =>
      match p.order.fields.find? fun f => !p.displayFields.contains f with
      | some key => .error (.invalidOrderKey key)
      | none => .ok ()

/-- The columns that a grouped query may show. -/
def allowedColumns (groupFields : List String) (applyDefs : List ApplyDefinition) : Option NameSet :=
  if groupFields.isEmpty then none
  else some (NameSet.ofNames (groupFields ++ applyDefs.map ApplyDefinition.name))

open Sentence in
/-- The plan of a sentence, or the first fault met. A column that is shown twice is shown where it stands first. -/
def Plan.ofSentence (sentence : String) : Except QueryError Plan := do
  let (clause, c) ← (Cursor.start sentence.toList).expect .dataset
  let (kind, datasetId) ← readDataset clause
  let (groupFields, c) ← readOptional .groupClause c [] fun clause => do readColumns kind (← clause.single)
  let (clause, c) ← c.expect .filter
  let criteria ← readFilter kind clause
  let (clause, c) ← c.expect .display
  let displayFields ← readColumns kind (← clause.single)
  let (applyDefs, c) ← readOptional .applyClause c [] (readDefinitions kind groupFields)
  let (order, c) ← readOptional .sortClause c Order.unsorted (readOrder kind)
  let _ ← c.expect .finish
  let plan : Plan := {
    kind, datasetId, criteria, groupFields, applyDefs, order
    displayFields := displayFields.eraseDups
    allowedDisplayFields := allowedColumns groupFields applyDefs }
  plan.validate
  .ok plan

end SentenceQuery
