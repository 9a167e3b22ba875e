import SentenceQuery.Proofs.Sentence.Criterion
import SentenceQuery.Proofs.Sentence.Splitting
import SentenceQuery.Sentence.Reading

/-!
# Queries and their wordings

A query as it is meant: which queries mean something (`Query.WellFormed`), the plan that they mean (`Query.plan`), and the texts
that say them (`Query.Worded`). A text has the words of its clauses and blanks between them; lists have commas or `and` between
their members, and conditions have `and` or `or`.
-/

namespace SentenceQuery

open Grammar

/-! ## What is meant -/

/-- An ASCII letter or digit, or `-`. -/
def isAsciiWordChar (c : Char) : Bool := c.isAlphanum || c = '-'

/-- A word of ASCII letters, digits and `-` that is neither a keyword nor the phrase of an operator. -/
structure IsAsciiWord (w : String) : Prop where
  ne_empty : w ≠ ""
  chars : Over isAsciiWordChar w.toList
  not_keyword : w ∉ keywords
  not_phrase : w ∉ Operator.phrases

instance (w : String) : Decidable (IsAsciiWord w) :=
  decidable_of_iff
    (w ≠ "" ∧ Over isAsciiWordChar w.toList ∧ w ∉ keywords ∧ w ∉ Operator.phrases)
    ⟨fun ⟨h₁, h₂, h₃, h₄⟩ => ⟨h₁, h₂, h₃, h₄⟩, fun ⟨h₁, h₂, h₃, h₄⟩ => ⟨h₁, h₂, h₃, h₄⟩⟩

/-- The name of a column of the kind, or a word that stands for itself. -/
def IsToken (kind : Kind) (token : String) : Prop :=
  (∃ column ∈ kind.columns, column.display = token) ∨ IsAsciiWord token

instance (kind : Kind) (token : String) : Decidable (IsToken kind token) :=
  inferInstanceAs (Decidable ((∃ column ∈ kind.columns, column.display = token) ∨ IsAsciiWord token))

/-- The field that a token stands for: that of the column, or the word itself. -/
def Kind.fieldOf (kind : Kind) (token : String) : String := (kind.resolve? token).getD token

/-- A number or a text in quotes. -/
inductive Literal where
  | number (n : Numeral)
  | text (v : String)
deriving DecidableEq

namespace Literal

def value : Literal → Cell
  | .number n => .number n.value
  | .text v => .text v

/-- The literal as a sentence has it. -/
def written : Literal → List Char
  | .number n => n.text
  | .text v => '"' :: (v.toList ++ ['"'])

/-- A number has its digits; a text has neither a quote nor a star. -/
def WellFormed : Literal → Prop
  | .number n => n.WellFormed
  | .text v => Quotable v.toList

instance : (l : Literal) → Decidable l.WellFormed
  | .number n =>
    inferInstanceAs (Decidable (n.whole ≠ [] ∧ Over Char.isDigit n.whole ∧ ∀ f ∈ n.fraction, f ≠ [] ∧ Over Char.isDigit f))
  | .text v => inferInstanceAs (Decidable (Quotable v.toList))

end Literal

/-- A condition: a column is compared with a literal. -/
structure Condition where
  column : String
  op : Operator
  literal : Literal
deriving DecidableEq

namespace Condition

/-- The column is one of the kind, and it and the literal are of the type that the operator compares. -/
structure WellFormed (kind : Kind) (c : Condition) : Prop where
  column : ∃ column ∈ kind.columns, column.display = c.column ∧ column.type = c.op.operandType
  literal : c.literal.WellFormed
  type : c.literal.value.fieldType = c.op.operandType

instance (kind : Kind) (c : Condition) : Decidable (c.WellFormed kind) :=
  decidable_of_iff
    ((∃ column ∈ kind.columns, column.display = c.column ∧ column.type = c.op.operandType) ∧ c.literal.WellFormed ∧
      c.literal.value.fieldType = c.op.operandType)
    ⟨fun ⟨h₁, h₂, h₃⟩ => ⟨h₁, h₂, h₃⟩, fun ⟨h₁, h₂, h₃⟩ => ⟨h₁, h₂, h₃⟩⟩

def criterion (kind : Kind) (glue : Option Connective) (c : Condition) : Criterion :=
  ⟨kind.fieldOf c.column, c.op, c.literal.value, glue⟩

end Condition

/-- Conditions, the further ones each with the connective before it. -/
structure Conditions where
  first : Condition
  more : List (Connective × Condition)
deriving DecidableEq

namespace Conditions

def all (f : Conditions) : List Condition := f.first :: f.more.map Prod.snd

/-- The criteria of a condition and those that follow it: each is joined to the next by the connective between them. -/
def criteriaFrom (kind : Kind) (c : Condition) : List (Connective × Condition) → List Criterion
  | [] => [c.criterion kind none]
  | (glue, next) :: more => c.criterion kind (some glue) :: criteriaFrom kind next more

/-- The criteria of a filter, of which there are none without conditions. -/
def criteria (kind : Kind) : Option Conditions → List Criterion
  | none => []
  | some f => criteriaFrom kind f.first f.more

end Conditions

/-- The name is a word that is not taken, and the source is a column of the kind that the aggregate accepts. -/
structure Grammar.Derivation.WellFormed (kind : Kind) (groupFields : List String) (d : Derivation) : Prop where
  name : IsAsciiWord d.name
  not_group : d.name ∉ groupFields
  not_column : ∀ column ∈ kind.columns, d.name ≠ column.display ∧ d.name ≠ column.field
  source : ∃ column ∈ kind.columns, column.display = d.source ∧ d.op.accepts column.type = true

instance (kind : Kind) (groupFields : List String) (d : Derivation) : Decidable (d.WellFormed kind groupFields) :=
  decidable_of_iff
    (IsAsciiWord d.name ∧ d.name ∉ groupFields ∧
      (∀ column ∈ kind.columns, d.name ≠ column.display ∧ d.name ≠ column.field) ∧
      ∃ column ∈ kind.columns, column.display = d.source ∧ d.op.accepts column.type = true)
    ⟨fun ⟨h₁, h₂, h₃, h₄⟩ => ⟨h₁, h₂, h₃, h₄⟩, fun ⟨h₁, h₂, h₃, h₄⟩ => ⟨h₁, h₂, h₃, h₄⟩⟩

def Grammar.Derivation.definition (kind : Kind) (d : Derivation) : ApplyDefinition :=
  ⟨d.name, d.op, kind.fieldOf d.source⟩

/-- A query. Without conditions it selects every record; without groups and without derived columns those lists are empty. -/
structure Query where
  kind : Kind
  dataset : String
  groups : List String
  filter : Option Conditions
  shown : List String
  derived : List Derivation
  order : Option (Direction × List String)
deriving DecidableEq

namespace Query

def groupFields (q : Query) : List String := q.groups.map q.kind.fieldOf

def shownFields (q : Query) : List String := q.shown.map q.kind.fieldOf

def definitions (q : Query) : List ApplyDefinition := q.derived.map (Derivation.definition q.kind)

/-- The order of the rows, of which there is none without a sort clause. -/
def sorted (kind : Kind) : Option (Direction × List String) → Order
  | none => Order.unsorted
  | some (direction, tokens) => ⟨direction, tokens.map kind.fieldOf⟩

/-- The query means something. -/
structure WellFormed (q : Query) : Prop where
  dataset : IsAsciiWord q.dataset
  groups : ∀ token ∈ q.groups, IsToken q.kind token
  filter : ∀ f ∈ q.filter, ∀ c ∈ f.all, c.WellFormed q.kind
  shown : ∀ token ∈ q.shown, IsToken q.kind token
  derived : ∀ d ∈ q.derived, d.WellFormed q.kind q.groupFields
  names_nodup : (q.derived.map Derivation.name).Nodup
  derived_grouped : q.derived ≠ [] → q.groups ≠ []
  /-- a grouped query shows group fields and derived columns -/
  shown_allowed : q.groups ≠ [] → ∀ f ∈ q.shownFields, f ∈ q.groupFields ∨ f ∈ q.derived.map Derivation.name
  order : ∀ o ∈ q.order, ∀ token ∈ o.2, IsToken q.kind token ∧ q.kind.fieldOf token ∈ q.shownFields

instance (q : Query) : Decidable q.WellFormed :=
  decidable_of_iff
    (IsAsciiWord q.dataset ∧ (∀ token ∈ q.groups, IsToken q.kind token) ∧
      (∀ f ∈ q.filter, ∀ c ∈ f.all, c.WellFormed q.kind) ∧ (∀ token ∈ q.shown, IsToken q.kind token) ∧
      (∀ d ∈ q.derived, d.WellFormed q.kind q.groupFields) ∧ (q.derived.map Derivation.name).Nodup ∧
      (q.derived ≠ [] → q.groups ≠ []) ∧
      (q.groups ≠ [] → ∀ f ∈ q.shownFields, f ∈ q.groupFields ∨ f ∈ q.derived.map Derivation.name) ∧
      ∀ o ∈ q.order, ∀ token ∈ o.2, IsToken q.kind token ∧ q.kind.fieldOf token ∈ q.shownFields)
    ⟨fun ⟨h₁, h₂, h₃, h₄, h₅, h₆, h₇, h₈, h₉⟩ => ⟨h₁, h₂, h₃, h₄, h₅, h₆, h₇, h₈, h₉⟩,
      fun ⟨h₁, h₂, h₃, h₄, h₅, h₆, h₇, h₈, h₉⟩ => ⟨h₁, h₂, h₃, h₄, h₅, h₆, h₇, h₈, h₉⟩⟩

/-- The plan that the query means. -/
def plan (q : Query) : Plan where
  kind := q.kind
  datasetId := q.dataset
  criteria := Conditions.criteria q.kind q.filter
  displayFields := q.shownFields.eraseDups
  groupFields := q.groupFields
  applyDefs := q.definitions
  order := sorted q.kind q.order
  allowedDisplayFields := allowedColumns q.groupFields q.definitions

end Query

/-! ## How it is said -/

/-- Tokens with commas or `and` between them. -/
def TokensText (tokens : List String) (t : List Char) : Prop :=
  ListText (fun token t => t = token.toList) tokens t

/-- The words of a condition. -/
def ConditionText (c : Condition) (t : List Char) : Prop :=
  Spaced [c.column.toList, c.op.phrase.toList, c.literal.written] t

/-- The words of a definition. -/
def DerivationText (d : Derivation) (t : List Char) : Prop :=
  Spaced [d.name.toList, "is".toList, "the".toList, d.op.name.toList, "of".toList, d.source.toList] t

/-- The group clause, or nothing. -/
inductive GroupPart : List String → List Char → Prop where
  | absent : GroupPart [] []
  | present {tokens : List String} {u l t : List Char} (hne : u ≠ []) (hu : Over isBlank u) (hl : TokensText tokens l)
      (ht : Spaced ["grouped".toList, "by".toList, l] t) : GroupPart tokens (u ++ t)

/-- The filter clause. -/
inductive FilterPart : Option Conditions → List Char → Prop where
  | all {h : List Char} (hh : AllText h) : FilterPart none (h ++ [';'])
  | whose {f : Conditions} {h u b u' : List Char} (hh : WhoseText h) (hu : Over isBlank u)
      (hb : JoinedText ConditionText f.first f.more b) (hu' : Over isBlank u') :
      FilterPart (some f) (h ++ (u ++ (b ++ (u' ++ [';']))))

/-- The apply clause, or nothing. -/
inductive ApplyPart : List Derivation → List Char → Prop where
  | absent : ApplyPart [] []
  | present {ds : List Derivation} {u g l t : List Char} (hu : Over isBlank u) (hg : Over isGap g)
      (hl : ListText DerivationText ds l) (ht : Spaced ["where".toList, l] t) : ApplyPart ds (u ++ ',' :: (g ++ t))

/-- The sort clause, or nothing. -/
inductive SortPart : Option (Direction × List String) → List Char → Prop where
  | absent : SortPart none []
  | present {direction : Direction} {tokens : List String} {u g l t : List Char} (hu : Over isBlank u) (hg : Over isGap g)
      (hl : TokensText tokens l)
      (ht : Spaced ["sort".toList, "in".toList, direction.word.toList, "order".toList, "by".toList, l] t) :
      SortPart (some (direction, tokens)) (u ++ ';' :: (g ++ t))

/-- The text says the query. -/
inductive Query.Worded (q : Query) : List Char → Prop where
  | mk {u₁ dataset group u₂ filter u₃ l display apply sort u₄ g : List Char} (h₁ : Over isBlank u₁)
      (hdataset : Spaced ["In".toList, q.kind.name.toList, "dataset".toList, q.dataset.toList] dataset)
      (hgroup : GroupPart q.groups group) (h₂ : Over isBlank u₂) (hfilter : FilterPart q.filter filter)
      (h₃ : Over isBlank u₃) (hl : TokensText q.shown l) (hdisplay : Spaced ["show".toList, l] display)
      (happly : ApplyPart q.derived apply) (hsort : SortPart q.order sort) (h₄ : Over isBlank u₄) (hg : Over isGap g) :
      Worded q (u₁ ++ (dataset ++ (group ++ (u₂ ++ (filter ++ (u₃ ++ (display ++ (apply ++ (sort ++ (u₄ ++ '.' :: g))))))))))

end SentenceQuery
