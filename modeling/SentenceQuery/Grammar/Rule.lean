import SentenceQuery.Aggregate
import SentenceQuery.Grammar.Pattern
import SentenceQuery.Query.Word

/-!
# The rules of sentences

Each clause of a sentence is a rule of its own; a sentence is read clause by clause, so no rule describes it whole. A
keyword is followed by a blank wherever a word follows, so a keyword glued to the next word is not one. Blanks between the
words of a clause are spaces, tabs and line ends.

Some rules only name a pattern (`blank`, `word`, …) and leave no node; the rules for names, literals and operators leave a
node without inner nodes; clauses leave a node with the nodes of their parts.
-/

namespace SentenceQuery

/-- The rules of the grammar, and the end of the text. -/
inductive Rule where
  | blank | ws | sp | identChar | word | reserved | ident | field | listSep | fieldList
  | kind | datasetId | datasetClause
  | groupClause
  | quoted | criteriaText | findAll | findWhose | filterClause
  | displayClause
  | aggregate | applyDef | applyClause
  | direction | sortClause
  | finish
  | numericOp | stringOp | operator
  | number | string | raw | literal | criterion
  | endOfText
deriving DecidableEq

namespace Rule

/-- The name of a rule. -/
def name : Rule → String
  | .blank => "blank"
  | .ws => "ws"
  | .sp => "sp"
  | .identChar => "ident_char"
  | .word => "word"
  | .reserved => "reserved"
  | .ident => "ident"
  | .field => "field"
  | .listSep => "list_sep"
  | .fieldList => "field_list"
  | .kind => "kind"
  | .datasetId => "dataset_id"
  | .datasetClause => "dataset_clause"
  | .groupClause => "group_clause"
  | .quoted => "quoted"
  | .criteriaText => "criteria_text"
  | .findAll => "find_all"
  | .findWhose => "find_whose"
  | .filterClause => "filter_clause"
  | .displayClause => "display_clause"
  | .aggregate => "aggregate"
  | .applyDef => "apply_def"
  | .applyClause => "apply_clause"
  | .direction => "direction"
  | .sortClause => "sort_clause"
  | .finish => "end"
  | .numericOp => "numeric_op"
  | .stringOp => "string_op"
  | .operator => "operator"
  | .number => "number"
  | .string => "string"
  | .raw => "raw"
  | .literal => "literal"
  | .criterion => "criterion"
  | .endOfText => "EOI"

/-- Every rule. -/
def all : List Rule :=
  [.blank, .ws, .sp, .identChar, .word, .reserved, .ident, .field, .listSep, .fieldList, .kind, .datasetId,
    .datasetClause, .groupClause, .quoted, .criteriaText, .findAll, .findWhose, .filterClause, .displayClause,
    .aggregate, .applyDef, .applyClause, .direction, .sortClause, .finish, .numericOp, .stringOp, .operator, .number,
    .string, .raw, .literal, .criterion, .endOfText]

/-- The rule of a name. -/
def ofName? (name : String) : Option Rule := all.find? (·.name = name)

end Rule

namespace Grammar

open Pattern

/-! ## Words -/

/-- A blank between words: a space, a tab or a line end. -/
def blank : Pattern Rule := firstOf [text " ", text "\t", text "\n", text "\r\n", text "\r"]

/-- The blanks that must follow a word. -/
def ws : Pattern Rule := atLeastOne blank

/-- The blanks that may stand beside a comma or a semicolon. -/
def sp : Pattern Rule := many blank

/-- A character of a word: an ASCII letter or digit, `_` or `-`. -/
def isWordChar (c : Char) : Bool := c.isAlphanum || c = '_' || c = '-'

def wordChar : Pattern Rule := char isWordChar

def word : Pattern Rule := atLeastOne wordChar

/-- One of these words, where no further character of a word follows. Of two that both match the earlier counts, so a word
stands before its own beginnings. -/
def oneOf (words : List String) : Pattern Rule := seq (firstOf (words.map text)) (absent wordChar)

/-- A keyword as a whole word. -/
def reserved : Pattern Rule := oneOf keywords

/-- A name of one word. -/
def ident : Pattern Rule := token .ident (seq (absent reserved) word)

/-- A further word of a name: it starts with an upper-case letter. -/
def fieldTail : Pattern Rule :=
  all [text " ", absent reserved, present (char Char.isUpper), word]

/-- A name of one word, or of several that stand one space apart. -/
def field : Pattern Rule := token .field (all [absent reserved, word, many fieldTail])

/-- What stands between the members of a list: a comma, or the word `and`. -/
def listSep : Pattern Rule := choice (all [sp, text ",", sp]) (all [ws, text "and", ws])

def fieldList : Pattern Rule := node .fieldList (seq field (many (seq listSep field)))

/-! ## Clauses -/

def kind : Pattern Rule := token .kind word

def datasetId : Pattern Rule := token .datasetId word

def datasetClause : Pattern Rule :=
  node .datasetClause (all [text "In", ws, kind, ws, text "dataset", ws, datasetId])

def groupClause : Pattern Rule := node .groupClause (all [text "grouped", ws, text "by", ws, fieldList])

/-- A text in double quotes, which has no further double quote. -/
def quoted : Pattern Rule := all [text "\"", many (seq (absent (text "\"")) anyChar), text "\""]

/-- The body of a filter: up to the first semicolon outside quotes. -/
def criteriaText : Pattern Rule :=
  token .criteriaText (atLeastOne (choice quoted (seq (absent (text ";")) anyChar)))

def findAll : Pattern Rule := node .findAll (all [text "find", ws, text "all", ws, text "entries"])

def findWhose : Pattern Rule :=
  node .findWhose (all [text "find", ws, text "entries", ws, text "whose", ws, criteriaText])

def filterClause : Pattern Rule :=
  node .filterClause (all [text ",", sp, choice findAll findWhose, sp, text ";"])

def displayClause : Pattern Rule := node .displayClause (all [text "show", ws, fieldList])

def aggregate : Pattern Rule := token .aggregate (oneOf (Aggregate.all.map Aggregate.name))

def applyDef : Pattern Rule :=
  node .applyDef (all [ident, ws, text "is", ws, text "the", ws, aggregate, ws, text "of", ws, field])

def applyClause : Pattern Rule :=
  node .applyClause (all [text ",", sp, text "where", ws, applyDef, many (seq listSep applyDef)])

def direction : Pattern Rule := token .direction (oneOf (Direction.all.map Direction.word))

def sortClause : Pattern Rule :=
  node .sortClause
    (all [text ";", sp, text "sort", ws, text "in", ws, direction, ws, text "order", ws, text "by", ws, fieldList])

/-- The end of the text as a node. -/
def endOfText : Pattern Rule := token .endOfText .finish

/-- The full stop that ends a sentence. -/
def finish : Pattern Rule := node .finish (all [text ".", sp, endOfText])

/-! ## One criterion -/

def numericOp : Pattern Rule := token .numericOp (oneOf (NumberOperator.all.map NumberOperator.phrase))

/-- The phrases stand in reverse, so that `is not` is tried before `is`. -/
def stringOp : Pattern Rule := token .stringOp (oneOf (TextOperator.all.reverse.map TextOperator.phrase))

def operator : Pattern Rule := node .operator (choice numericOp stringOp)

/-- Nothing follows. -/
def atEnd : Pattern Rule := absent anyChar

def digits : Pattern Rule := atLeastOne (char Char.isDigit)

/-- A decimal literal up to the end of the text. -/
def number : Pattern Rule :=
  token .number (all [optional (text "-"), digits, optional (seq (text ".") digits), atEnd])

/-- A quoted literal up to the end of the text; it holds neither a double quote nor a star. -/
def string : Pattern Rule :=
  token .string
    (all [text "\"", many (seq (absent (choice (text "\"") (text "*"))) anyChar), text "\"", atEnd])

/-- Any other literal. -/
def raw : Pattern Rule := token .raw (atLeastOne anyChar)

def literal : Pattern Rule := node .literal (firstOf [number, string, raw])

def criterion : Pattern Rule :=
  node .criterion (all [field, ws, operator, ws, literal, endOfText])

end Grammar

/-- The pattern of a rule. -/
def Rule.pattern : Rule → Pattern Rule
  | .blank => Grammar.blank
  | .ws => Grammar.ws
  | .sp => Grammar.sp
  | .identChar => Grammar.wordChar
  | .word => Grammar.word
  | .reserved => Grammar.reserved
  | .ident => Grammar.ident
  | .field => Grammar.field
  | .listSep => Grammar.listSep
  | .fieldList => Grammar.fieldList
  | .kind => Grammar.kind
  | .datasetId => Grammar.datasetId
  | .datasetClause => Grammar.datasetClause
  | .groupClause => Grammar.groupClause
  | .quoted => Grammar.quoted
  | .criteriaText => Grammar.criteriaText
  | .findAll => Grammar.findAll
  | .findWhose => Grammar.findWhose
  | .filterClause => Grammar.filterClause
  | .displayClause => Grammar.displayClause
  | .aggregate => Grammar.aggregate
  | .applyDef => Grammar.applyDef
  | .applyClause => Grammar.applyClause
  | .direction => Grammar.direction
  | .sortClause => Grammar.sortClause
  | .finish => Grammar.finish
  | .numericOp => Grammar.numericOp
  | .stringOp => Grammar.stringOp
  | .operator => Grammar.operator
  | .number => Grammar.number
  | .string => Grammar.string
  | .raw => Grammar.raw
  | .literal => Grammar.literal
  | .criterion => Grammar.criterion
  | .endOfText => Grammar.endOfText

/-- The outcome of matching a rule at the start of a text. -/
def Rule.match? (r : Rule) (s : List Char) : Option (Outcome Rule) := r.pattern.run 0 s

end SentenceQuery
