import SentenceQuery.Yaml.Scalar

/-!
# YAML: tokens

A YAML text is first cut into tokens. Some tokens are not written: the depth of a line opens and closes the blocks of
mappings and sequences, and whether a scalar is a key shows only at the colon after it. So where a key may start its place is
kept as a candidate, and at the colon the tokens of the key are put in front of it (`Scan.addValue`). A candidate holds for
one line and 1024 characters.

Tags, anchors, directives and literal blocks are not read.
-/

namespace SentenceQuery.Yaml

/-- A token. -/
inductive Token where
  | scalar (style : Style) (text : List Char)
  /-- a block sequence begins -/
  | openSequence
  /-- a block mapping begins -/
  | openMapping
  /-- a block ends -/
  | closeBlock
  | openBracket
  | closeBracket
  | openBrace
  | closeBrace
  /-- an item of a block sequence -/
  | dash
  | comma
  | key
  | value
  | documentStart
  | documentEnd
deriving DecidableEq

/-- Where a key may have started: the number of tokens before it, its place, and that only a key can stand there. -/
structure Candidate where
  tokens : Nat
  place : Place
  isRequired : Bool
deriving DecidableEq

/-- How many characters a key may take. -/
def maxKeySize : Nat := 1024

/-- The candidate as it stands at a later place: a key that is too long or goes over a line end is none. It is an error if
only a key could stand there. -/
def Candidate.at? (p : Place) : Option Candidate → Option (Option Candidate)
  | none => some none
  | some c =>
    if c.place.line < p.line ∨ c.place.index + maxKeySize < p.index then
      if c.isRequired then none else some none
    else some (some c)

/-- A text that is cut into tokens up to a place. A depth is the column of a block and one more; 0 is outside all blocks. -/
structure Scan where
  place : Place
  tokens : Array Token
  /-- the depth of the block that is open -/
  depth : Nat
  /-- the depths of the blocks around it -/
  outerDepths : List Nat
  /-- the candidate in the collection that is open -/
  candidate : Option Candidate
  /-- the candidates around each collection in braces or brackets that is open -/
  outerCandidates : List (Option Candidate)
  /-- a key may start here -/
  allowsKey : Bool
deriving DecidableEq

namespace Scan

/-- The start of a text. -/
def start (s : List Char) : Scan := ⟨.start s, #[], 0, [], none, [], true⟩

/-- The place is in braces or brackets. -/
def inFlow (s : Scan) : Bool := !s.outerCandidates.isEmpty

/-- One more token. -/
def add (token : Token) (s : Scan) : Scan := { s with tokens := s.tokens.push token }

/-- Some characters further. -/
def skip (count : Nat) (s : Scan) : Scan := { s with place := s.place.skip count }

/-! ## Blanks and comments -/

/-- The place of the next token. A comment may stand wherever a token may. A tab is no indentation where a key may start.
Outside braces and brackets a new line may start a key. A byte order mark may start the text, and takes a column. The fuel
bounds the number of characters. -/
def skipSpace : (fuel : Nat) → Scan → Scan
  | 0, s => s
  | fuel + 1, s =>
    match s.place.rest with
    | [] => s
    | c :: rest =>
      if c = ' ' || (c = '\t' && (s.inFlow || !s.allowsKey)) || (c = byteOrderMark && s.place.index = 0) then
        skipSpace fuel (s.skip 1)
      else if c = '#' then skipSpace fuel (s.skip (1 + (rest.takeWhile fun d => !isBreak d).length))
      else if isBreak c then
        skipSpace fuel { s with place := s.place.nextLine, allowsKey := s.allowsKey || !s.inFlow }
      else s

/-! ## Blocks and candidates -/

/-- The scan without the candidates that do not hold any more. -/
def dropStale (s : Scan) : Option Scan := do
  let candidate ← Candidate.at? s.place s.candidate
  let outerCandidates ← s.outerCandidates.mapM (Candidate.at? s.place)
  some { s with candidate, outerCandidates }

/-- Closes the blocks that are deeper than a depth. -/
def closeBlocks (depth : Nat) (s : Scan) : Scan :=
  if s.inFlow then s else go s.outerDepths s
where
  /-- Closes blocks, where `outer` are the depths around the open one. -/
  go : List Nat → Scan → Scan
    | [], s => s
    | outer :: more, s =>
      if depth < s.depth then go more { s.add .closeBlock with depth := outer, outerDepths := more } else s

/-- Opens a block at a column, if the column is deeper than the open block; its token goes before the token of a number. -/
def openBlock (column index : Nat) (token : Token) (s : Scan) : Scan :=
  if !s.inFlow && s.depth ≤ column then
    { s with
      tokens := s.tokens.insertIdxIfInBounds index token
      depth := column + 1
      outerDepths := s.depth :: s.outerDepths }
  else s

/-- Gives up the candidate; it is an error if only a key could stand there. -/
def dropCandidate (s : Scan) : Option Scan :=
  if s.candidate.any Candidate.isRequired then none else some { s with candidate := none }

/-- Makes this place a candidate, if a key may start here. At the column of the open block only a key can. -/
def addCandidate (s : Scan) : Option Scan :=
  if s.allowsKey then do
    let s ← s.dropCandidate
    some { s with candidate := some ⟨s.tokens.size, s.place, !s.inFlow && s.depth = s.place.column + 1⟩ }
  else some s

/-! ## Tokens -/

/-- A mark between documents. -/
def addMark (token : Token) (s : Scan) : Option Scan := do
  let s ← (s.closeBlocks 0).dropCandidate
  some { (s.add token).skip 3 with allowsKey := false }

/-- An opening brace or bracket; the collection may be a key. -/
def addOpening (token : Token) (s : Scan) : Option Scan := do
  let s ← s.addCandidate
  some { (s.add token).skip 1 with
    candidate := none
    outerCandidates := s.candidate :: s.outerCandidates
    allowsKey := true }

/-- A closing brace or bracket. -/
def addClosing (token : Token) (s : Scan) : Option Scan := do
  let s ← s.dropCandidate
  let s := { (s.add token).skip 1 with allowsKey := false }
  match s.outerCandidates with
  | [] => some s
  | candidate :: more => some { s with candidate, outerCandidates := more }

/-- A comma. -/
def addComma (s : Scan) : Option Scan := do
  let s ← s.dropCandidate
  some { (s.add .comma).skip 1 with allowsKey := true }

/-- The hyphen of an item, or the question mark of a key, in a block that it opens if need be. -/
def addItem (block token : Token) (s : Scan) : Option Scan :=
  if !s.inFlow && !s.allowsKey then none
  else do
    let s ← (s.openBlock s.place.column s.tokens.size block).dropCandidate
    some { (s.add token).skip 1 with allowsKey := token = .dash || !s.inFlow }

/-- A colon. If a key may have started before, it has, and the tokens of the key are put before it; a key does not start
right after it. -/
def addValue (s : Scan) : Option Scan :=
  match s.candidate with
  | some c =>
    let s := { s with tokens := s.tokens.insertIdxIfInBounds c.tokens .key, candidate := none, allowsKey := false }
    some (((s.openBlock c.place.column c.tokens .openMapping).add .value).skip 1)
  | none =>
    if !s.inFlow && !s.allowsKey then none
    else
      let s := s.openBlock s.place.column s.tokens.size .openMapping
      some { (s.add .value).skip 1 with allowsKey := !s.inFlow }

/-- A quoted scalar. -/
def addQuoted (quote : Char) (s : Scan) : Option Scan := do
  let s ← s.addCandidate
  let p := s.place.skip 1
  let (text, place) ← readQuoted quote (p.rest.length + 1) p
  some { s.add (.scalar .quoted text) with place, allowsKey := false }

/-- A plain scalar. After a line end a key may start. -/
def addPlain (s : Scan) : Option Scan := do
  let s ← s.addCandidate
  let plain ← readPlain s.inFlow s.depth (s.place.rest.length + 1) .none s.place
  some { s.add (.scalar .plain plain.text) with place := plain.after, allowsKey := plain.gap.isBroken }

/-- The next token, which starts here with a character and goes on with the rest of the text. -/
def addToken (s : Scan) (c : Char) (rest : List Char) : Option Scan :=
  match s.place.mark? with
  | some m => s.addMark (if m = '-' then .documentStart else .documentEnd)
  | none =>
    if c = '[' then s.addOpening .openBracket
    else if c = '{' then s.addOpening .openBrace
    else if c = ']' then s.addClosing .closeBracket
    else if c = '}' then s.addClosing .closeBrace
    else if c = ',' then s.addComma
    else if c = '-' && endsWord rest then s.addItem .openSequence .dash
    else if c = '?' && (s.inFlow || endsWord rest) then s.addItem .openMapping .key
    else if c = ':' && (s.inFlow || endsWord rest) then s.addValue
    else if c = '"' || c = '\x27' then s.addQuoted c
    else if startsPlain s.inFlow (c :: rest) then s.addPlain
    else none

/-- The tokens from here to the end of the text. Each takes at least one character, so the length of the text is enough
fuel. -/
def run : (fuel : Nat) → Scan → Option (List Token)
  | 0, _ => none
  | fuel + 1, s => do
    let s ← (s.skipSpace s.place.rest.length).dropStale
    match s.place.rest with
    | [] =>
      let s ← (s.closeBlocks 0).dropCandidate
      some s.tokens.toList
    | c :: rest =>
      let s ← (s.closeBlocks (s.place.column + 1)).addToken c rest
      run fuel s

end Scan

/-- The tokens of a text. -/
def Token.ofText? (s : List Char) : Option (List Token) := (Scan.start s).run (s.length + 1)

end SentenceQuery.Yaml
