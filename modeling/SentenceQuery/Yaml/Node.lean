import SentenceQuery.Yaml.Token

/-!
# YAML: values

A value is a scalar, a sequence or a mapping. It is put together from tokens: in blocks, and in braces and brackets, where a
comma may stand before the closing one. A key without a value, and a value without a key, have the value that is not written.
A document holds one value, perhaps between marks; a text holds one document or none.
-/

namespace SentenceQuery.Yaml

/-- A value. The entries of a mapping come in the order written, and keys may repeat. -/
inductive Node where
  | scalar (style : Style) (text : List Char)
  | sequence (items : List Node)
  | mapping (entries : List (Node × Node))

namespace Node

/-- The value that is not written. -/
def empty : Node := .scalar .plain []

end Node

/-- A step that reads a value. -/
abbrev TokenReader (α : Type) : Type := List Token → Option (α × List Token)

/-- The value that stands here, or the empty one where one of some tokens stands. -/
def readUnless (ends : List Token) (node : TokenReader Node) : TokenReader Node := fun ts =>
  if ts.head?.any ends.contains then some (.empty, ts) else node ts

/-- The value after a colon, or the empty one where no colon stands. -/
def readAfterColon (ends : List Token) (node : TokenReader Node) : TokenReader Node
  | .value :: ts => readUnless ends node ts
  | ts => some (.empty, ts)

/-- A key and its value, after the token of the key. -/
def readPair (ends : List Token) (node : TokenReader Node) : TokenReader (Node × Node) := fun ts => do
  let (key, ts) ← readUnless (.value :: ends) node ts
  let (value, ts) ← readAfterColon ends node ts
  some ((key, value), ts)

/-- The tokens after the comma before the next item; there is none before the first. -/
def afterComma {α : Type} (items : List α) (close : Token) (ts : List Token) : Option (List Token) :=
  if items.isEmpty ∨ ts.head? = some close then some ts
  else match ts with
    | .comma :: ts => some ts
    | _ => none

/-! ## Collections

Each reads the items that follow those read so far, with a reader for the values within. The fuel bounds their number. -/

/-- The items of a block sequence, to the end of the block. -/
def readSequence (node : TokenReader Node) : (fuel : Nat) → List Node → TokenReader Node
  | 0, _, _ => none
  | fuel + 1, items, ts =>
    match ts with
    | .dash :: ts => do
      let (item, ts) ← readUnless [.dash, .closeBlock] node ts
      readSequence node fuel (items ++ [item]) ts
    | .closeBlock :: ts => some (.sequence items, ts)
    | _ => none

/-- The items of a sequence that stands as deep as its key, and so is no block. -/
def readDashes (node : TokenReader Node) : (fuel : Nat) → List Node → TokenReader Node
  | 0, _, _ => none
  | fuel + 1, items, ts =>
    match ts with
    | .dash :: ts => do
      let (item, ts) ← readUnless [.dash, .key, .value, .closeBlock] node ts
      readDashes node fuel (items ++ [item]) ts
    | ts => some (.sequence items, ts)

/-- The entries of a block mapping, to the end of the block. -/
def readMapping (node : TokenReader Node) : (fuel : Nat) → List (Node × Node) → TokenReader Node
  | 0, _, _ => none
  | fuel + 1, entries, ts =>
    match ts with
    | .key :: ts => do
      let (entry, ts) ← readPair [.key, .value, .closeBlock] node ts
      readMapping node fuel (entries ++ [entry]) ts
    | .closeBlock :: ts => some (.mapping entries, ts)
    | _ => none

/-- The items of a sequence in brackets. A pair without braces is a mapping; it has a key. -/
def readBrackets (node : TokenReader Node) : (fuel : Nat) → List Node → TokenReader Node
  | 0, _, _ => none
  | fuel + 1, items, ts => do
    let ts ← afterComma items .closeBracket ts
    match ts with
    | .closeBracket :: ts => some (.sequence items, ts)
    | .key :: ts =>
      let (key, ts) ← node ts
      let (value, ts) ← readAfterColon [.comma, .closeBracket] node ts
      readBrackets node fuel (items ++ [.mapping [(key, value)]]) ts
    | ts =>
      let (item, ts) ← node ts
      readBrackets node fuel (items ++ [item]) ts

/-- The entries of a mapping in braces. What is no key has the empty value. -/
def readBraces (node : TokenReader Node) : (fuel : Nat) → List (Node × Node) → TokenReader Node
  | 0, _, _ => none
  | fuel + 1, entries, ts => do
    let ts ← afterComma entries .closeBrace ts
    match ts with
    | .closeBrace :: ts => some (.mapping entries, ts)
    | .key :: ts =>
      let (entry, ts) ← readPair [.comma, .closeBrace] node ts
      readBraces node fuel (entries ++ [entry]) ts
    | ts =>
      let (key, ts) ← node ts
      readBraces node fuel (entries ++ [(key, .empty)]) ts

/-- Where a value stands: in braces or brackets, in a block sequence or a document, or as a part of a block mapping, where
the items of a sequence need no block of their own. -/
inductive Setting where
  | flow
  | block
  | entry
deriving DecidableEq

/-- A value. The fuel bounds how deep values are nested. -/
def readNode : (fuel : Nat) → Setting → TokenReader Node
  | 0, _, _ => none
  | fuel + 1, setting, ts =>
    match ts with
    | .scalar style text :: ts => some (.scalar style text, ts)
    | .openBracket :: rest => readBrackets (readNode fuel .flow) ts.length [] rest
    | .openBrace :: rest => readBraces (readNode fuel .flow) ts.length [] rest
    | .openSequence :: rest =>
      if setting = .flow then none else readSequence (readNode fuel .block) ts.length [] rest
    | .openMapping :: rest =>
      if setting = .flow then none else readMapping (readNode fuel .entry) ts.length [] rest
    | .dash :: _ => if setting = .entry then readDashes (readNode fuel .block) (ts.length + 1) [] ts else none
    | _ => none

/-! ## Documents -/

/-- The value of a text in tokens, `none` inside for a text without a document. After the value only the mark of its end may
stand. -/
def Node.ofTokens? (ts : List Token) : Option (Option Node) :=
  match ts with
  | [] => some none
  | t :: rest => do
    let node := readNode (ts.length + 1) .block
    let (value, ts) ←
      if t = .documentStart then
        if rest.isEmpty then some (.empty, []) else readUnless [.documentStart, .documentEnd] node rest
      else node ts
    if ts.all (· = .documentEnd) then some (some value) else none

/-- A character that a text may hold. -/
def isDocumentChar (c : Char) : Bool :=
  let n := c.toNat
  n = 0x9 || n = 0xA || n = 0xD || (0x20 ≤ n && n ≤ 0x7E) || n = 0x85 ||
    (0xA0 ≤ n && n ≤ 0xFFFD) || 0x10000 ≤ n

/-- The value of a text, `none` inside for a text without a document. -/
def Node.ofText? (s : List Char) : Option (Option Node) :=
  if s.all isDocumentChar then (Token.ofText? s).bind Node.ofTokens? else none

end SentenceQuery.Yaml
