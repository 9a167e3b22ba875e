import SentenceQuery.Table.Cell

/-!
# Kinds of datasets and their columns

There are two kinds of datasets. The columns of a kind are fixed: each has a name that sentences use, the name of the field
in records, and a type. The columns that hold numbers come first.
-/

namespace SentenceQuery

/-- The kind of a dataset. -/
inductive Kind where
  | courses
  | rooms
deriving DecidableEq

/-- A column of a kind: its name in sentences, its field in records, the type of its cells. -/
structure Column where
  display : String
  field : String
  type : FieldType
deriving DecidableEq

namespace Kind

/-- Both kinds. -/
def all : List Kind := [.courses, .rooms]

/-- The name of a kind in sentences, paths and answers. -/
def name : Kind → String
  | .courses => "courses"
  | .rooms => "rooms"

/-- The kind of a name. -/
def ofName? (name : String) : Option Kind :=
  all.find? (·.name = name)

/-- The columns of a kind, those that hold numbers first. -/
def columns : Kind → List Column
  | .courses => [
      ⟨"Average", "avg", .number⟩, ⟨"Pass", "pass", .number⟩, ⟨"Fail", "fail", .number⟩, ⟨"Audit", "audit", .number⟩,
      ⟨"Year", "year", .number⟩, ⟨"Department", "dept", .text⟩, ⟨"ID", "id", .text⟩,
      ⟨"Instructor", "instructor", .text⟩, ⟨"Title", "title", .text⟩, ⟨"UUID", "uuid", .text⟩]
  | .rooms => [
      ⟨"Latitude", "lat", .number⟩, ⟨"Longitude", "lon", .number⟩, ⟨"Seats", "seats", .number⟩,
      ⟨"Full Name", "fullname", .text⟩, ⟨"Short Name", "shortname", .text⟩, ⟨"Number", "number", .text⟩,
      ⟨"Name", "name", .text⟩, ⟨"Address", "address", .text⟩, ⟨"Type", "type", .text⟩,
      ⟨"Furniture", "furniture", .text⟩, ⟨"Link", "href", .text⟩]

/-- The field of a column's name in sentences. -/
def resolve? (k : Kind) (display : String) : Option String :=
  (k.columns.find? (·.display = display)).map Column.field

/-- The type of a field. -/
def fieldType? (k : Kind) (field : String) : Option FieldType :=
  (k.columns.find? (·.field = field)).map Column.type

/-- The name is that of a field. -/
def isField (k : Kind) (field : String) : Bool :=
  (k.fieldType? field).isSome

/-- A record conforms to a kind if it has a cell of the right type in every field of the kind; it may have more fields. -/
def conforms (k : Kind) (r : Record) : Bool :=
  k.columns.all fun c => (r.get? c.field).map Cell.fieldType = some c.type

end Kind

end SentenceQuery
