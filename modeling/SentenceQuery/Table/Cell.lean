import SentenceQuery.Number.Text
import SentenceQuery.Table.NameMap

/-!
# Cells, records and rows

A cell holds a number or a text. A record is what a dataset stores: one cell per field name. A row is what a query
answers: cells under keys, in the order in which they are shown, where a key may repeat.

Cells are told apart by `Cell.Same`: the two zeros count as one number, and so do the NaNs. For ordering rows, cells of
different types and NaNs tie with everything (`Cell.compareForSort`).
-/

namespace SentenceQuery

/-- The type of a field, of a literal and of the operand of an operator. -/
inductive FieldType where
  | number
  | text
deriving DecidableEq

/-- The name of a type in messages and answers. -/
def FieldType.name : FieldType → String
  | .number => "number"
  | .text => "string"

/-- A number or a text. -/
inductive Cell where
  | number (value : Binary64)
  | text (value : String)
deriving DecidableEq

namespace Cell

def fieldType : Cell → FieldType
  | .number _ => .number
  | .text _ => .text

def number? : Cell → Option Binary64
  | .number x => some x
  | .text _ => none

def text? : Cell → Option String
  | .number _ => none
  | .text s => some s

/-- The representative of a cell among the cells that count as the same. -/
def canonical : Cell → Cell
  | .number x => .number x.canonical
  | .text s => .text s

/-- Two cells count as the same: equal texts, or equal numbers where the zeros are one and the NaNs are one. -/
def Same (a b : Cell) : Prop := a.canonical = b.canonical

instance (a b : Cell) : Decidable (a.Same b) := inferInstanceAs (Decidable (_ = _))

/-- The order of two cells for sorting: numbers by value, texts by code point. Cells of different types tie, and a NaN ties
with every number. -/
def compareForSort : Cell → Cell → Ordering
  | .number x, .number y => (x.compare? y).getD .eq
  | .text s, .text t => compare s t
  | _, _ => .eq

/-- A cell in a message: a number in plain form, a text in double quotes. -/
def display : Cell → String
  | .number x => String.ofList x.plainText
  | .text s => "\"" ++ s ++ "\""

end Cell

/-- A record of a dataset: cells by field name. -/
abbrev Record : Type := NameMap Cell

/-- A row of an answer: cells under keys, in the order shown. -/
structure Row where
  cells : List (String × Cell)
deriving DecidableEq

namespace Row

/-- The first cell under a key. -/
def get? (r : Row) (key : String) : Option Cell :=
  (r.cells.find? (·.1 = key)).map Prod.snd

def keys (r : Row) : List String := r.cells.map Prod.fst

/-- The row with one more cell at its end. -/
def push (r : Row) (key : String) (cell : Cell) : Row := ⟨r.cells ++ [(key, cell)]⟩

/-- Two rows count as the same: the same keys in the same order, over cells that count as the same. -/
def Same (r s : Row) : Prop :=
  r.cells.map (fun c => (c.1, c.2.canonical)) = s.cells.map (fun c => (c.1, c.2.canonical))

instance (r s : Row) : Decidable (r.Same s) := inferInstanceAs (Decidable (_ = _))

end Row

end SentenceQuery
