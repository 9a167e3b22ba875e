import SentenceQuery.Query.Error

/-!
# Reading a sentence clause by clause

A cursor is a place in a sentence. Before each clause it passes over blanks; a clause that is there moves it to the end of
the clause, one that is not leaves it where it was.
-/

namespace SentenceQuery

/-- A place in a sentence: how many bytes precede it, and the text from there on. -/
structure Cursor where
  offset : Nat
  rest : List Char
deriving DecidableEq

namespace Cursor

/-- The start of a text. -/
def start (s : List Char) : Cursor := ⟨0, s⟩

/-- The place after the blanks that stand here. -/
def skipBlanks (c : Cursor) : Cursor :=
  ⟨c.offset + byteSize (c.rest.takeWhile isBlank), c.rest.dropWhile isBlank⟩

/-- Reads a rule after the blanks that stand here: its node, and the place after it. -/
def accept? (rule : Rule) (c : Cursor) : Option (Node Rule × Cursor) :=
  let here := c.skipBlanks
  match rule.pattern.run here.offset here.rest with
  | some ⟨text, node :: _, rest⟩ => some (node, ⟨here.offset + byteSize text, rest⟩)
  | _ => none

/-- Reads a clause that must be there. -/
def expect (clause : RequiredClause) (c : Cursor) : Except QueryError (Node Rule × Cursor) :=
  match c.accept? clause.rule with
  | some r => .ok r
  | none => .error (.wording (.expected clause c.skipBlanks.offset))

end Cursor

end SentenceQuery
