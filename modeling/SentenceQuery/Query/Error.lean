import SentenceQuery.Aggregate
import SentenceQuery.Grammar.Rule
import SentenceQuery.Schema

/-!
# Why a query is refused

A query can fail while its sentence is read and while it runs. Each cause is a constructor; `kind` is the stable name of
its class, and `message` the text that is shown.
-/

namespace SentenceQuery

/-- A name that is in none of the fixed tables. -/
inductive LookupError where
  | unknownOperator (phrase : String)
  | unknownAggregate (name : String)
  | unknownKind (name : String)
deriving DecidableEq

def LookupError.message : LookupError → String
  | .unknownOperator phrase => "Unknown operator: " ++ phrase
  | .unknownAggregate name => "Unknown aggregate: " ++ name
  | .unknownKind name => "Invalid category: " ++ name

/-- The operator of a phrase, or why there is none. -/
def Operator.ofPhrase (phrase : String) : Except LookupError Operator :=
  match Operator.ofPhrase? phrase with
  | some op => .ok op
  | none => .error (.unknownOperator phrase)

/-- The aggregate of a name, or why there is none. -/
def Aggregate.ofName (name : String) : Except LookupError Aggregate :=
  match Aggregate.ofName? name with
  | some op => .ok op
  | none => .error (.unknownAggregate name)

/-- The kind of a name, or why there is none. -/
def Kind.ofName (name : String) : Except LookupError Kind :=
  match Kind.ofName? name with
  | some k => .ok k
  | none => .error (.unknownKind name)

/-- The parts of a sentence that cannot be left out. -/
inductive RequiredClause where
  | dataset
  | filter
  | display
  | finish
deriving DecidableEq

namespace RequiredClause

/-- The part as a message names it. -/
def title : RequiredClause → String
  | .dataset => "dataset clause"
  | .filter => "filter clause"
  | .display => "display clause"
  | .finish => "'.' at end of sentence"

/-- The rule that the part is read with. -/
def rule : RequiredClause → Rule
  | .dataset => .datasetClause
  | .filter => .filterClause
  | .display => .displayClause
  | .finish => .finish

end RequiredClause

/-- What is wrong with the wording of a sentence. The last three say that a rule left no node where one is read. -/
inductive WordingFault where
  | expected (clause : RequiredClause) (offset : Nat)
  | invalidDatasetId (id : String)
  | unparseableCriterion (text : String)
  | invalidLiteral (type : FieldType)
  | applyWithoutGroup
  | unknownDirection (word : String)
  | malformed (rule : Rule)
  | emptyNode (rule : Rule)
deriving DecidableEq

namespace WordingFault

/-- A rule in a message about its parts. -/
def ruleTitle : Rule → String
  | .datasetClause => "dataset clause"
  | .applyDef => "apply definition"
  | .sortClause => "sort clause"
  | r => r.name

def message : WordingFault → String
  | .expected clause offset => "expected " ++ clause.title ++ " at byte " ++ offset.repr
  | .invalidDatasetId id => "invalid dataset id: " ++ id
  | .unparseableCriterion text => "unparseable criteria: " ++ text
  | .invalidLiteral type => "invalid " ++ type.name ++ " literal"
  | .applyWithoutGroup => "apply clause requires a group clause"
  | .unknownDirection word => "unknown direction: " ++ word
  | .malformed rule => "malformed " ++ ruleTitle rule
  | .emptyNode rule => "empty " ++ rule.name

end WordingFault

/-- Why a query is refused. -/
inductive QueryError where
  /-- the sentence is not worded as a query -/
  | wording (fault : WordingFault)
  /-- a name is in none of the tables -/
  | lookup (cause : LookupError)
  /-- the dataset is of another kind than the sentence says -/
  | wrongKind (dataset : String) (stored asked : Kind)
  /-- a column is neither of the kind nor usable as a name -/
  | unknownField (name : String)
  /-- a literal is not of the type that the operator compares -/
  | literalType (op : Operator)
  /-- a field is not of the type that the operator compares -/
  | columnType (op : Operator)
  /-- the cells of a group have no aggregate -/
  | reduce (cause : ReduceError)
  /-- an aggregate of numbers is asked of other cells -/
  | invalidAggregateField (op : Aggregate) (field : String)
  /-- a derived column has a name that is taken -/
  | duplicateName (name : String)
  /-- criteria and connectives do not alternate -/
  | missingOperand (criteria connectives : Nat)
  /-- a column of a grouped query is neither a group column nor a derived one -/
  | invalidColumns (column : String)
  /-- a sort key is not shown -/
  | invalidOrderKey (key : String)
  /-- no dataset has the id -/
  | notFound (id : String)
deriving DecidableEq

namespace QueryError

/-- The name of the class that an error belongs to. -/
def kind : QueryError → String
  | .wording _ | .lookup (.unknownOperator _) | .lookup (.unknownAggregate _) => "GrammarError"
  | .lookup (.unknownKind _) | .wrongKind .. => "InvalidCategory"
  | .unknownField _ => "UnknownField"
  | .literalType _ | .columnType _ | .reduce _ => "TypeMismatch"
  | .invalidAggregateField .. => "InvalidAggregateField"
  | .duplicateName _ => "DuplicateName"
  | .missingOperand .. => "MissingOperand"
  | .invalidColumns _ => "InvalidColumns"
  | .invalidOrderKey _ => "InvalidOrderKey"
  | .notFound _ => "NotFound"

def message : QueryError → String
  | .wording fault => "Syntax error: " ++ fault.message
  | .lookup (.unknownKind name) => "Invalid category: " ++ name
  | .lookup cause => "Syntax error: " ++ cause.message
  | .wrongKind dataset stored asked =>
    "Invalid category: dataset " ++ dataset ++ " holds " ++ stored.name ++ ", not " ++ asked.name
  | .unknownField name => "Unknown field: " ++ name
  | .literalType op => "Type mismatch: " ++ op.phrase ++ " requires a " ++ op.operandType.name ++ " value"
  | .columnType op => "Type mismatch: " ++ op.phrase ++ " requires a " ++ op.operandType.name ++ " field"
  | .reduce cause => "Type mismatch: " ++ cause.message
  | .invalidAggregateField op field => op.name ++ " requires a number field, got " ++ field
  | .duplicateName name => "Duplicate apply key: " ++ name
  | .missingOperand criteria connectives =>
    "Missing operand: " ++ criteria.repr ++ " criteria joined by " ++ connectives.repr ++ " connectives"
  | .invalidColumns column => "Column " ++ column ++ " is neither a group key nor an apply key"
  | .invalidOrderKey key => "Sort key " ++ key ++ " is not among the displayed columns"
  | .notFound id => "Dataset not found: " ++ id

end QueryError

end SentenceQuery
