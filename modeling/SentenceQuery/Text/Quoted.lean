import SentenceQuery.Text.Escaped

/-!
# Texts in double quotes

A message shows a text that may hold anything in double quotes, so that its ends and the characters that are not seen are
plain: quote, backslash and the common control characters by a letter, the others by their code point.
-/

namespace SentenceQuery

/-- A character inside double quotes. -/
def quoteChar (c : Char) : List Char :=
  match c with
  | '\x00' => ['\\', '0']
  | '\t' => ['\\', 't']
  | '\n' => ['\\', 'n']
  | '\r' => ['\\', 'r']
  | '\\' => ['\\', '\\']
  | '"' => ['\\', '"']
  | c => if isEscaped c then '\\' :: 'u' :: '{' :: (Nat.toDigits 16 c.toNat ++ ['}']) else [c]

/-- A text in double quotes. -/
def quote (s : String) : String := String.ofList ('"' :: (s.toList.flatMap quoteChar ++ ['"']))

end SentenceQuery
