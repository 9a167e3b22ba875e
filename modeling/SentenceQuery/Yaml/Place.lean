/-!
# YAML: places in a text

YAML gives a meaning to lines and columns. A place in a text is what follows there, how many characters precede it, and its
line and column; all three count from zero. What ends a line, and what parts words, is decided here.
-/

namespace SentenceQuery.Yaml

/-! ## Blanks and line ends -/

/-- A blank within a line. -/
def isGap (c : Char) : Bool := c = ' ' || c = '\t'

/-- A character that ends a line. -/
def isBreak (c : Char) : Bool :=
  c = '\n' || c = '\r' || c = '\u0085' || c = '\u2028' || c = '\u2029'

/-- The character that stands for a line end in a scalar. The line and the paragraph separator stand for themselves. -/
def breakChar (c : Char) : Char := if c = '\u2028' ∨ c = '\u2029' then c else '\n'

/-- The character that tells how a text is encoded, if it is the first. -/
def byteOrderMark : Char := '\uFEFF'

/-- No word goes on here: the text starts with a blank or a line end, or there is none. -/
def endsWord : List Char → Bool
  | [] => true
  | c :: _ => isGap c || isBreak c

/-! ## Places -/

/-- A place in a text. -/
structure Place where
  rest : List Char
  index : Nat
  line : Nat
  column : Nat
deriving DecidableEq

namespace Place

/-- The start of a text. -/
def start (s : List Char) : Place := ⟨s, 0, 0, 0⟩

/-- The place some characters further on the line. -/
def skip (count : Nat) (p : Place) : Place :=
  ⟨p.rest.drop count, p.index + count, p.line, p.column + count⟩

/-- The place after the line end that stands here; a carriage return and a line feed are one line end. -/
def nextLine (p : Place) : Place :=
  match p.rest with
  | '\r' :: '\n' :: rest => ⟨rest, p.index + 2, p.line + 1, 0⟩
  | rest => ⟨rest.drop 1, p.index + 1, p.line + 1, 0⟩

/-- The character of the mark between documents that stands here: three hyphens or three points, as a word at the start of
a line. -/
def mark? (p : Place) : Option Char :=
  match p.rest with
  | a :: b :: c :: rest =>
    if p.column = 0 ∧ (a = '-' ∨ a = '.') ∧ a = b ∧ a = c ∧ endsWord rest then some a else none
  | _ => none

end Place

end SentenceQuery.Yaml
