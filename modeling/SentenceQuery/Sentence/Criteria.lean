import SentenceQuery.Query.Plan

/-!
# The body of a filter

The body of a filter is cut into words at blanks outside quotes. The words `and` and `or` join criteria; what stands
between them is the text of a criterion, blanks and quotes included. A criterion is a column, an operator and a literal.
-/

namespace SentenceQuery

/-- A word of a filter and the blanks before it. -/
structure SpacedWord where
  gap : List Char
  text : List Char
deriving DecidableEq

namespace SpacedWord

/-- The word as a connective, if it is one. -/
def connective? (w : SpacedWord) : Option Connective := Connective.ofWord? (String.ofList w.text)

end SpacedWord

/-- A word at the start of a text, and what follows it. A quote opens or closes quoting, and a quoted blank belongs to the
word; a quote left open reaches to the end. -/
def readWord : (quoted : Bool) → List Char → List Char × List Char
  | _, [] => ([], [])
  | quoted, c :: rest =>
    if isBlank c && !quoted then ([], c :: rest)
    else
      let (word, rest) := readWord (if c = '"' then !quoted else quoted) rest
      (c :: word, rest)

/-- A word and what follows it make up the text. -/
theorem readWord_append (quoted : Bool) (s : List Char) : (readWord quoted s).1 ++ (readWord quoted s).2 = s := by
  induction s generalizing quoted with
  | nil => rfl
  | cons c rest ih =>
    rw [readWord]
    split
    · rfl
    · simp [ih]

/-- What follows a word is shorter than the text, unless the text starts with a blank. -/
theorem readWord_length_lt {c : Char} (h : isBlank c = false) (rest : List Char) :
    (readWord false (c :: rest)).2.length < (c :: rest).length := by
  rw [readWord]
  simp only [h, Bool.false_and, Bool.false_eq_true, if_false]
  have happend := congrArg List.length (readWord_append (if c = '"' then !false else false) rest)
  simp only [List.length_append] at happend
  simp only [List.length_cons]
  omega

/-- The words of a text. -/
def spacedWords (s : List Char) : List SpacedWord :=
  match _h : s.dropWhile isBlank with
  | [] => []
  | c :: rest =>
    let split := readWord false (c :: rest)
    ⟨s.takeWhile isBlank, split.1⟩ :: spacedWords split.2
termination_by s.length
decreasing_by
  have hblank : isBlank c = false := by
    have := List.head?_dropWhile_not isBlank s
    simpa [_h] using this
  have hlt := readWord_length_lt hblank rest
  have hle := (List.dropWhile_suffix isBlank (l := s)).length_le
  rw [_h] at hle
  exact Nat.lt_of_lt_of_le hlt hle

/-- The runs of words between connectives; a run may be empty. -/
def splitRuns : List SpacedWord → List (List SpacedWord)
  | [] => [[]]
  | w :: ws =>
    if w.connective?.isSome then [] :: splitRuns ws
    else match splitRuns ws with
      | [] => [[w]]
      | run :: runs => (w :: run) :: runs

/-- The text of a run: its words with the blanks between them. -/
def runText : List SpacedWord → List Char
  | [] => []
  | w :: ws => w.text ++ ws.flatMap fun v => v.gap ++ v.text

/-- Cuts the body of a filter into the texts of its criteria and the connectives between them. There must be one criterion
more than there are connectives. -/
def splitCriteria (s : List Char) : Except QueryError (List (List Char) × List Connective) :=
  let words := spacedWords s
  let segments := ((splitRuns words).filter fun run => !run.isEmpty).map runText
  let connectives := words.filterMap SpacedWord.connective?
  if connectives.length + 1 = segments.length then .ok (segments, connectives)
  else .error (.missingOperand segments.length connectives.length)

/-- The value of a literal's node. A literal that is neither a number nor a quoted text is reported as the kind of literal
that the operator wants. -/
def literalValue (op : Operator) (literal : Node Rule) : Except QueryError Cell :=
  match literal.rule with
  | .number =>
    match Binary64.ofText? literal.text with
    | some x => .ok (.number x)
    | none => .error (.wording (.invalidLiteral .number))
  | .string => .ok (.text (String.ofList (literal.text.drop 1).dropLast))
  | _ => .error (.wording (.invalidLiteral op.operandType))

/-- Reads the text of one criterion over the columns of a kind. First the wording counts, then the column, then the
literal; then the type of the literal must be that of the operator, and then that of the field. -/
def parseCriterion (s : List Char) (kind : Kind) (glue : Option Connective) : Except QueryError Criterion := do
  let unparseable : QueryError := .wording (.unparseableCriterion (String.ofList s))
  match Rule.criterion.match? (trim s) with
  | some ⟨_, [⟨_, _, _, column :: operator :: literal :: _⟩], _⟩ =>
    match kind.resolve? column.string with
    | none => .error unparseable
    | some field =>
      let op ← (Operator.ofPhrase operator.string).mapError .lookup
      match literal.inner with
      | [] => .error unparseable
      | form :: _ =>
        let value ← literalValue op form
        if value.fieldType ≠ op.operandType then .error (.literalType op)
        else if kind.fieldType? field ≠ some op.operandType then .error (.columnType op)
        else .ok ⟨field, op, value, glue⟩
  | _ => .error unparseable

end SentenceQuery
