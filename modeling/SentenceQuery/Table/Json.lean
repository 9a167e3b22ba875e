import SentenceQuery.Json.Shape
import SentenceQuery.Json.Writer
import SentenceQuery.Table.Cell

/-!
# Cells, records and rows as JSON

A number cell is a JSON number and a text cell a JSON text; nothing else is a cell. A record is an object in which the
last member of a name counts; it is written with its fields sorted. A row is an object whose members keep their order and
may repeat a key.
-/

namespace SentenceQuery

open Json

/-! ## Writing -/

/-- A cell as JSON; a number that is not finite becomes null. -/
def Cell.toJson : Cell → List Char
  | .number x => Json.ofNumber x
  | .text s => Json.ofString s

def Record.toJson (r : Record) : List Char :=
  Json.ofMembers (r.entries.map fun e => (e.1, e.2.toJson))

def Row.toJson (r : Row) : List Char :=
  Json.ofMembers (r.cells.map fun c => (c.1, c.2.toJson))

/-- Rows and how many they are. -/
def Row.listToJson (rows : List Row) : List Char :=
  Json.ofMembers [("rows", Json.ofItems (rows.map Row.toJson)), ("count", Json.ofNat rows.length)]

/-! ## Reading -/

/-- A cell: a whole value is read first, and must then be a number or a text. -/
def Cell.read (depth : Nat) : Reader Cell := fun s => do
  let (v, s) ← readValue depth s
  match v with
  | .number x => .ok (.number x, s)
  | .string t => .ok (.text t, s)
  | _ => .error .wrongShape

/-- A record. -/
def Record.read (depth : Nat) : Reader Record :=
  readMap
    (fun depth (r : Record) key s => do
      let (cell, s) ← Cell.read depth s
      .ok (r.insert key cell, s))
    NameMap.empty depth

/-- A row. -/
def Row.read (depth : Nat) : Reader Row :=
  readMap
    (fun depth (r : Row) key s => do
      let (cell, s) ← Cell.read depth s
      .ok (r.push key cell, s))
    ⟨[]⟩ depth

/-- The record of a JSON text. -/
def Record.ofJson (text : String) : Except Fault Record := readWholeText (Record.read maxDepth) text.toList

/-- The row of a JSON text. -/
def Row.ofJson (text : String) : Except Fault Row := readWholeText (Row.read maxDepth) text.toList

/-- The records at the start of a JSON text; what follows them is not looked at. -/
def Record.listOfJsonStart (text : String) : Except Fault (List Record) := do
  let (records, _) ← readList Record.read maxDepth text.toList
  .ok records

end SentenceQuery
