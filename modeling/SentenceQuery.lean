import SentenceQuery.Aggregate
import SentenceQuery.Dataset.Service
import SentenceQuery.Dataset.Store
import SentenceQuery.Digest.Sha256
import SentenceQuery.Grammar.Pattern
import SentenceQuery.Grammar.Rule
import SentenceQuery.Http.MediaType
import SentenceQuery.Http.Router
import SentenceQuery.Http.Target
import SentenceQuery.Json.Composite
import SentenceQuery.Json.Number
import SentenceQuery.Json.Scalar
import SentenceQuery.Json.Shape
import SentenceQuery.Json.Writer
import SentenceQuery.Number.Binary64
import SentenceQuery.Number.Decimal96
import SentenceQuery.Number.Power
import SentenceQuery.Number.Rounding
import SentenceQuery.Number.Shortest
import SentenceQuery.Number.Text
import SentenceQuery.Operator
import SentenceQuery.Query.Answer
import SentenceQuery.Query.Bucket
import SentenceQuery.Query.Criteria
import SentenceQuery.Query.Error
import SentenceQuery.Query.Fingerprint
import SentenceQuery.Query.Json
import SentenceQuery.Query.Plan
import SentenceQuery.Query.Word
import SentenceQuery.Schema
import SentenceQuery.Sentence.Criteria
import SentenceQuery.Sentence.Cursor
import SentenceQuery.Sentence.Reading
import SentenceQuery.Settings
import SentenceQuery.Table.Cell
import SentenceQuery.Table.Json
import SentenceQuery.Table.NameMap
import SentenceQuery.Text.Blank
import SentenceQuery.Text.Escaped
import SentenceQuery.Text.Quoted
import SentenceQuery.Yaml.Node
import SentenceQuery.Yaml.Place
import SentenceQuery.Yaml.Scalar
import SentenceQuery.Yaml.Token
import SentenceQuery.Proofs.Pattern.Avoid
import SentenceQuery.Proofs.Grammar.Words
import SentenceQuery.Proofs.Grammar.Names
import SentenceQuery.Proofs.Grammar.Lists
import SentenceQuery.Proofs.Grammar.Clauses
import SentenceQuery.Proofs.Grammar.FilterBody
import SentenceQuery.Proofs.Grammar.Criterion
import SentenceQuery.Proofs.Sentence.Criterion
import SentenceQuery.Proofs.Sentence.Words
import SentenceQuery.Proofs.Sentence.Splitting
import SentenceQuery.Proofs.Sentence.Filter
import SentenceQuery.Proofs.Sentence.Exchange
import SentenceQuery.Proofs.Schema
import SentenceQuery.Proofs.Sentence.Clauses
import SentenceQuery.Proofs.Sentence.WellFormed
import SentenceQuery.Proofs.Query.Derive
import SentenceQuery.Proofs.Query.Rows
import SentenceQuery.Proofs.Dataset.Service
import SentenceQuery.Proofs.Sentence.Query
import SentenceQuery.Proofs.Sentence.ConditionText
import SentenceQuery.Proofs.Sentence.FilterText
import SentenceQuery.Proofs.Sentence.Tokens
import SentenceQuery.Proofs.Sentence.Completeness
import SentenceQuery.Proofs.Dataset.History
import SentenceQuery.Proofs.Query.Group
import SentenceQuery.Proofs.Query.Meaning
import SentenceQuery.Proofs.Number.Decimal
import SentenceQuery.Proofs.Json.Reading
import SentenceQuery.Proofs.Json.NumberText
import SentenceQuery.Proofs.Json.Pieces
import SentenceQuery.Proofs.Json.Number
import SentenceQuery.Proofs.Query.PlanText
import SentenceQuery.Proofs.Json.Kept
import SentenceQuery.Proofs.Query.Lossless
import SentenceQuery.Proofs.Query.CanonicalText
import SentenceQuery.Proofs.Query.Fingerprint
import SentenceQuery.Proofs.Dataset.Everything
import SentenceQuery.Proofs.Number.DecimalValue
import SentenceQuery.Proofs.Number.DecimalSum
import SentenceQuery.Proofs.Aggregate
import SentenceQuery.Proofs.Query.WeakOrder
import SentenceQuery.Proofs.Query.Sorting
import SentenceQuery.Proofs.Query.Reordering
import SentenceQuery.Proofs.Query.Unread
import SentenceQuery.Proofs.Query.RowShape
import SentenceQuery.Proofs.Number.Within
import SentenceQuery.Proofs.Query.Finite
import SentenceQuery.Proofs.Http.Target
import SentenceQuery.Proofs.Http.Listing
import SentenceQuery.Proofs.Http.Requests
import SentenceQuery.Proofs.Http.Answers
import SentenceQuery.Proofs.Faults
import SentenceQuery.Proofs.Grammar.ClauseParts
import SentenceQuery.Proofs.Sentence.Alternation
import SentenceQuery.Proofs.Sentence.Outline
import SentenceQuery.Proofs.Sentence.Checks
import SentenceQuery.Proofs.Sentence.FirstFault
import SentenceQuery.Proofs.Grammar.LongerPhrase
import SentenceQuery.Proofs.Sentence.CriterionFaults
import SentenceQuery.Proofs.Text.Runs
import SentenceQuery.Proofs.Sentence.Places
import SentenceQuery.Proofs.Sentence.Cutting
import SentenceQuery.Proofs.Sentence.Vocabulary
import SentenceQuery.Proofs.Sentence.InternalFaults
import SentenceQuery.Proofs.Text.Slices
import SentenceQuery.Proofs.Sentence.Ranges
import SentenceQuery.Proofs.Sentence.Progress
import SentenceQuery.Proofs.Sentence.Offsets
import SentenceQuery.Proofs.Query.Partition
import SentenceQuery.Proofs.Query.GroupSelection
import SentenceQuery.Proofs.Grammar.Pieces
import SentenceQuery.Proofs.Grammar.Glued
import SentenceQuery.Proofs.Grammar.GluedClauses
import SentenceQuery.Proofs.Sentence.Marked
import SentenceQuery.Proofs.Sentence.GluedBody
import SentenceQuery.Proofs.Sentence.GluedFilter
import SentenceQuery.Proofs.Sentence.GluedTail
import SentenceQuery.Proofs.Sentence.Gluing
import SentenceQuery.Proofs.Query.Cascade
import SentenceQuery.Proofs.Aggregate.Count
import SentenceQuery.Proofs.Number.Exact
import SentenceQuery.Proofs.Aggregate.Sum
import SentenceQuery.Proofs.Aggregate.Mean
import SentenceQuery.Proofs.Query.Connectives
import SentenceQuery.Proofs.Table.RowLossless
import SentenceQuery.Proofs.Query.Hidden
import SentenceQuery.Proofs.Grammar.LongestName
