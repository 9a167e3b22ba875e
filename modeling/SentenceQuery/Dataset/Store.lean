import SentenceQuery.Json.Writer
import SentenceQuery.Query.Answer

/-!
# Stored datasets

A store holds datasets under their ids; each has a kind and its records. Listings come sorted by id. A plan is run against
a store by looking its dataset up and checking that it is of the plan's kind.
-/

namespace SentenceQuery

/-- A dataset: its kind and its records. -/
structure Dataset where
  kind : Kind
  records : List Record
deriving DecidableEq

/-- What a listing says of a dataset. -/
structure DatasetInfo where
  id : String
  kind : Kind
  size : Nat
deriving DecidableEq

namespace DatasetInfo

/-- What a listing says of a dataset under an id. -/
def ofDataset (id : String) (d : Dataset) : DatasetInfo := ⟨id, d.kind, d.records.length⟩

def toJson (info : DatasetInfo) : List Char :=
  Json.ofMembers
    [("id", Json.ofString info.id), ("kind", Json.ofString info.kind.name), ("numRows", Json.ofNat info.size)]

end DatasetInfo

/-- The rows of a plan over a dataset, which must be of the plan's kind. -/
def Dataset.answer (d : Dataset) (p : Plan) : Except QueryError (List Row) :=
  if d.kind ≠ p.kind then .error (.wrongKind p.datasetId d.kind p.kind) else p.answer d.records

/-- Datasets by id. -/
structure Store where
  datasets : NameMap Dataset
deriving DecidableEq

namespace Store

/-- The store without datasets. -/
def empty : Store := ⟨NameMap.empty⟩

def contains (s : Store) (id : String) : Bool := s.datasets.contains id

/-- The store with a dataset under an id; one that was there is replaced. -/
def insert (s : Store) (id : String) (d : Dataset) : Store := ⟨s.datasets.insert id d⟩

/-- The store without the dataset of an id. -/
def erase (s : Store) (id : String) : Store := ⟨s.datasets.erase id⟩

/-- What a listing says of the dataset of an id, if there is one. -/
def info? (s : Store) (id : String) : Option DatasetInfo :=
  (s.datasets.get? id).map (DatasetInfo.ofDataset id)

/-- Every dataset, sorted by id. -/
def list (s : Store) : List DatasetInfo :=
  s.datasets.entries.map fun (id, d) => .ofDataset id d

/-- The dataset of an id. -/
def load (s : Store) (id : String) : Except QueryError Dataset :=
  match s.datasets.get? id with
  | some d => .ok d
  | none => .error (.notFound id)

/-- The rows of a plan over its dataset. -/
def answer (s : Store) (p : Plan) : Except QueryError (List Row) := do
  (← s.load p.datasetId).answer p

end Store

end SentenceQuery
