import SentenceQuery.Dataset.Store
import SentenceQuery.Sentence.Reading
import SentenceQuery.Text.Quoted

/-!
# The dataset service

The service guards a store: it checks ids and sizes, keeps only the records that conform to the kind of their dataset, and
answers sentences. A call that is refused leaves the store as it was.
-/

namespace SentenceQuery

/-- The greatest size of a sentence in bytes, and the greatest number of records of a dataset. -/
structure Limits where
  maxSentenceBytes : Nat
  maxDatasetRecords : Nat
deriving DecidableEq

/-- The limits that hold where none are set. -/
def Limits.default : Limits := ⟨4096, 1000000⟩

/-- Why the service refuses a call. -/
inductive ServiceError where
  /-- an id is empty or has `_` or a blank in it -/
  | invalidId (id : String)
  /-- a dataset is there under the id -/
  | alreadyExists (id : String)
  /-- none of the records conforms to the kind -/
  | noValidData (id : String)
  /-- there are more records than the limit, counted before any is dropped -/
  | tooManyRecords (count limit : Nat)
  /-- no dataset is there under the id -/
  | notFound (id : String)
  /-- the sentence has more bytes than the limit -/
  | sentenceTooLong (size limit : Nat)
  /-- the sentence has no answer -/
  | query (cause : QueryError)
deriving DecidableEq

def ServiceError.message : ServiceError → String
  | .invalidId id => "Invalid dataset id: " ++ quote id
  | .alreadyExists id => "Dataset already exists: " ++ id
  | .noValidData id => "Dataset " ++ id ++ " contains no valid data"
  | .tooManyRecords count limit => "Dataset has " ++ count.repr ++ " records, limit is " ++ limit.repr
  | .notFound id => "Dataset not found: " ++ id
  | .sentenceTooLong size limit => "Query is " ++ size.repr ++ " bytes, limit is " ++ limit.repr
  | .query cause => cause.message

/-- A store with limits. -/
structure Service where
  limits : Limits
  store : Store
deriving DecidableEq

namespace Service

/-- The service without datasets. -/
def start (limits : Limits) : Service := ⟨limits, .empty⟩

/-- The dataset that is stored for records: those that conform to the kind. The id is checked first, then the number of
records, then that any record is left, and last that the id is free. -/
def screen (s : Service) (id : String) (kind : Kind) (records : List Record) : Except ServiceError Dataset :=
  if !isPlainName id then .error (.invalidId id)
  else if s.limits.maxDatasetRecords < records.length then
    .error (.tooManyRecords records.length s.limits.maxDatasetRecords)
  else
    let valid := records.filter kind.conforms
    if valid.isEmpty then .error (.noValidData id)
    else if s.store.contains id then .error (.alreadyExists id)
    else .ok ⟨kind, valid⟩

/-- Adds a dataset. -/
def add (s : Service) (id : String) (kind : Kind) (records : List Record) :
    Except ServiceError (DatasetInfo × Service) := do
  let d ← s.screen id kind records
  .ok (.ofDataset id d, { s with store := s.store.insert id d })

/-- Removes the dataset of an id. -/
def remove (s : Service) (id : String) : Except ServiceError Service :=
  if !isPlainName id then .error (.invalidId id)
  else if s.store.contains id then .ok { s with store := s.store.erase id }
  else .error (.notFound id)

/-- Every dataset, sorted by id. -/
def list (s : Service) : List DatasetInfo := s.store.list

/-- The rows that answer a sentence. -/
def query (s : Service) (sentence : String) : Except ServiceError (List Row) := do
  let size := byteSize sentence.toList
  if s.limits.maxSentenceBytes < size then .error (.sentenceTooLong size s.limits.maxSentenceBytes)
  else
    let plan ← (Plan.ofSentence sentence).mapError .query
    (s.store.answer plan).mapError .query

end Service

end SentenceQuery
