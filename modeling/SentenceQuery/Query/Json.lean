import SentenceQuery.Query.Plan
import SentenceQuery.Table.Json

/-!
# Plans as JSON

A plan is written as one object with its fields in a fixed order; lists that are empty, and glue and limits that are not
there, are left out. That text is canonical: it identifies the plan.

A plan is read from an object with its fields in any order. A field that may be left out has a default, a field that
repeats is refused, a member that is no field is passed over. An object may also be written as the array of its fields.
-/

namespace SentenceQuery

open Json

/-! ## Writing -/

/-- A member that is left out when its list is empty. -/
def listMember {α : Type} (key : String) (item : α → List Char) : List α → List (String × List Char)
  | [] => []
  | items => [(key, Json.ofItems (items.map item))]

def Operator.toJson : Operator → List Char
  | .number op => Json.ofMembers [("table", Json.ofString "Numeric"), ("op", Json.ofString op.name)]
  | .text op => Json.ofMembers [("table", Json.ofString "Text"), ("op", Json.ofString op.name)]

def Criterion.toJson (c : Criterion) : List Char :=
  Json.ofMembers ([("field", Json.ofString c.field), ("operator", c.operator.toJson), ("value", c.value.toJson)] ++
    (c.glue.map fun g => ("glue", Json.ofString g.word)).toList)

def ApplyDefinition.toJson (d : ApplyDefinition) : List Char :=
  Json.ofMembers [("name", Json.ofString d.name), ("op", Json.ofString d.op.name), ("field", Json.ofString d.field)]

def Order.toJson (o : Order) : List Char :=
  Json.ofMembers (("direction", Json.ofString o.direction.word) :: listMember "fields" Json.ofString o.fields)

/-- The canonical text of a plan. -/
def Plan.toJson (p : Plan) : List Char :=
  Json.ofMembers (
    [("kind", Json.ofString p.kind.name), ("dataset_id", Json.ofString p.datasetId)] ++
    listMember "criteria" Criterion.toJson p.criteria ++
    [("display_fields", Json.ofStrings p.displayFields)] ++
    listMember "group_fields" Json.ofString p.groupFields ++
    listMember "apply_defs" ApplyDefinition.toJson p.applyDefs ++
    [("order", p.order.toJson)] ++
    (p.allowedDisplayFields.map fun names => ("allowed_display_fields", Json.ofStrings names.names)).toList)

/-! ## Reading -/

/-- Reads a field that is not yet there. -/
def readOnce {α : Type} (current : Option α) (value : Reader α) : Reader α := fun s =>
  if current.isSome then .error .wrongShape else value s

/-- A field that must be there. -/
def required {α : Type} : Option α → Except Fault α
  | some v => .ok v
  | none => .error .wrongShape

def readStrings (depth : Nat) : Reader (List String) := readList (fun _ => readString) depth

/-- A set of names: an array in any order, where a name may repeat. -/
def readNames (depth : Nat) : Reader NameSet := fun s => do
  let (names, s) ← readStrings depth s
  .ok (NameSet.ofNames names, s)

/-- The two tables of operators. -/
inductive OperatorTable where
  | numeric
  | text
deriving DecidableEq

namespace OperatorTable

/-- The table of a name in a plan. -/
def ofName? (name : String) : Option OperatorTable :=
  if name = "Numeric" then some .numeric else if name = "Text" then some .text else none

/-- The operator of a name in a table. -/
def operator? : OperatorTable → String → Option Operator
  | .numeric, name => (NumberOperator.ofName? name).map .number
  | .text, name => (TextOperator.ofName? name).map .text

end OperatorTable

/-- What is read of an operator: its table, and the value under its name while the table is not known. -/
structure OperatorDraft where
  table : Option OperatorTable
  pending : Option Value
  operator : Option Operator

namespace OperatorDraft

/-- Reads one of the two fields of an operator. -/
def field (depth : Nat) (d : OperatorDraft) (key : String) : Reader OperatorDraft := fun s =>
  if key = "table" then do
    let (table, s) ← readOnce d.table (readChoice OperatorTable.ofName? depth) s
    match d.pending with
    | none => .ok (⟨some table, none, d.operator⟩, s)
    | some value =>
      let op ← required (value.choice? table.operator?)
      .ok (⟨some table, d.pending, some op⟩, s)
  else if d.pending.isSome || d.operator.isSome then .error .wrongShape
  else match d.table with
    | some table => do
      let (op, s) ← readChoice table.operator? depth s
      .ok (⟨d.table, none, some op⟩, s)
    | none => do
      let (value, s) ← readValue depth s
      .ok (⟨none, some value, none⟩, s)

/-- Reads one of the two items of an operator that is written as an array. There the table is a text. -/
def item (depth : Nat) (d : OperatorDraft) (key : String) : Reader OperatorDraft := fun s =>
  if key = "table" then do
    let (name, s) ← readString s
    let table ← choose OperatorTable.ofName? name
    .ok (⟨some table, none, none⟩, s)
  else field depth d key s

end OperatorDraft

def Operator.read (depth : Nat) : Reader Operator := fun s => do
  let part := if (skipSpace s).head? = some '[' then OperatorDraft.item else OperatorDraft.field
  let (d, s) ← readFields ["table", "op"] part ⟨none, none, none⟩ depth s
  let op ← required d.operator
  .ok (op, s)

/-- What is read of a criterion. -/
structure CriterionDraft where
  field : Option String
  operator : Option Operator
  value : Option Cell
  glue : Option (Option Connective)

/-- Reads one field of a criterion. -/
def CriterionDraft.readField (depth : Nat) (d : CriterionDraft) (key : String) : Reader CriterionDraft := fun s =>
  if key = "field" then do
    let (v, s) ← readOnce d.field readString s
    .ok ({ d with field := some v }, s)
  else if key = "operator" then do
    let (v, s) ← readOnce d.operator (Operator.read depth) s
    .ok ({ d with operator := some v }, s)
  else if key = "value" then do
    let (v, s) ← readOnce d.value (Cell.read depth) s
    .ok ({ d with value := some v }, s)
  else do
    let (v, s) ← readOnce d.glue (readOptional (readChoice Connective.ofWord? depth)) s
    .ok ({ d with glue := some v }, s)

def Criterion.read (depth : Nat) : Reader Criterion := fun s => do
  let (d, s) ← readFields ["field", "operator", "value", "glue"] CriterionDraft.readField ⟨none, none, none, none⟩ depth s
  .ok (⟨← required d.field, ← required d.operator, ← required d.value, d.glue.getD none⟩, s)

/-- What is read of an apply definition. -/
structure ApplyDraft where
  name : Option String
  op : Option Aggregate
  field : Option String

/-- Reads one field of an apply definition. -/
def ApplyDraft.readField (depth : Nat) (d : ApplyDraft) (key : String) : Reader ApplyDraft := fun s =>
  if key = "name" then do
    let (v, s) ← readOnce d.name readString s
    .ok ({ d with name := some v }, s)
  else if key = "op" then do
    let (v, s) ← readOnce d.op (readChoice Aggregate.ofName? depth) s
    .ok ({ d with op := some v }, s)
  else do
    let (v, s) ← readOnce d.field readString s
    .ok ({ d with field := some v }, s)

def ApplyDefinition.read (depth : Nat) : Reader ApplyDefinition := fun s => do
  let (d, s) ← readFields ["name", "op", "field"] ApplyDraft.readField ⟨none, none, none⟩ depth s
  .ok (⟨← required d.name, ← required d.op, ← required d.field⟩, s)

/-- What is read of an order. -/
structure OrderDraft where
  direction : Option Direction
  fields : Option (List String)

/-- Reads one field of an order. -/
def OrderDraft.readField (depth : Nat) (d : OrderDraft) (key : String) : Reader OrderDraft := fun s =>
  if key = "direction" then do
    let (v, s) ← readOnce d.direction (readChoice Direction.ofWord? depth) s
    .ok ({ d with direction := some v }, s)
  else do
    let (v, s) ← readOnce d.fields (readStrings depth) s
    .ok ({ d with fields := some v }, s)

def Order.read (depth : Nat) : Reader Order := fun s => do
  let (d, s) ← readFields ["direction", "fields"] OrderDraft.readField ⟨none, none⟩ depth s
  .ok (⟨← required d.direction, d.fields.getD []⟩, s)

/-- What is read of a plan. -/
structure PlanDraft where
  kind : Option Kind
  datasetId : Option String
  criteria : Option (List Criterion)
  displayFields : Option (List String)
  groupFields : Option (List String)
  applyDefs : Option (List ApplyDefinition)
  order : Option Order
  allowedDisplayFields : Option (Option NameSet)

namespace PlanDraft

/-- Nothing read yet. -/
def empty : PlanDraft := ⟨none, none, none, none, none, none, none, none⟩

/-- The fields of a plan in the order in which they are written. -/
def fields : List String :=
  ["kind", "dataset_id", "criteria", "display_fields", "group_fields", "apply_defs", "order", "allowed_display_fields"]

/-- Reads one field of a plan. -/
def readField (depth : Nat) (d : PlanDraft) (key : String) : Reader PlanDraft := fun s =>
  if key = "kind" then do
    let (v, s) ← readOnce d.kind (readChoice Kind.ofName? depth) s
    .ok ({ d with kind := some v }, s)
  else if key = "dataset_id" then do
    let (v, s) ← readOnce d.datasetId readString s
    .ok ({ d with datasetId := some v }, s)
  else if key = "criteria" then do
    let (v, s) ← readOnce d.criteria (readList Criterion.read depth) s
    .ok ({ d with criteria := some v }, s)
  else if key = "display_fields" then do
    let (v, s) ← readOnce d.displayFields (readStrings depth) s
    .ok ({ d with displayFields := some v }, s)
  else if key = "group_fields" then do
    let (v, s) ← readOnce d.groupFields (readStrings depth) s
    .ok ({ d with groupFields := some v }, s)
  else if key = "apply_defs" then do
    let (v, s) ← readOnce d.applyDefs (readList ApplyDefinition.read depth) s
    .ok ({ d with applyDefs := some v }, s)
  else if key = "order" then do
    let (v, s) ← readOnce d.order (Order.read depth) s
    .ok ({ d with order := some v }, s)
  else do
    let (v, s) ← readOnce d.allowedDisplayFields (readOptional (readNames depth)) s
    .ok ({ d with allowedDisplayFields := some v }, s)

/-- The plan of a draft, with defaults for the fields that may be left out. -/
def toPlan (d : PlanDraft) : Except Fault Plan := do
  .ok {
    kind := ← required d.kind
    datasetId := ← required d.datasetId
    criteria := d.criteria.getD []
    displayFields := ← required d.displayFields
    groupFields := d.groupFields.getD []
    applyDefs := d.applyDefs.getD []
    order := d.order.getD Order.unsorted
    allowedDisplayFields := d.allowedDisplayFields.getD none }

end PlanDraft

def Plan.read (depth : Nat) : Reader Plan := fun s => do
  let (d, s) ← readFields PlanDraft.fields PlanDraft.readField PlanDraft.empty depth s
  let plan ← d.toPlan
  .ok (plan, s)

/-- The plan of a JSON text. -/
def Plan.ofJson (text : String) : Except Fault Plan := readWholeText (Plan.read maxDepth) text.toList

/-- The criterion of a JSON text. -/
def Criterion.ofJson (text : String) : Except Fault Criterion := readWholeText (Criterion.read maxDepth) text.toList

/-- The apply definition of a JSON text. -/
def ApplyDefinition.ofJson (text : String) : Except Fault ApplyDefinition :=
  readWholeText (ApplyDefinition.read maxDepth) text.toList

/-- The order of a JSON text. -/
def Order.ofJson (text : String) : Except Fault Order := readWholeText (Order.read maxDepth) text.toList

end SentenceQuery
