
/-!
# Reading JSON: texts and words

A reader takes a value from the start of a text and leaves the rest. It reads strictly from left to right and stops at the
first fault, which is either in the form of the text or in the shape of the value; so which of two faults is reported is
the one that stands first.
-/

namespace SentenceQuery.Json

/-- Why a text is refused: it is not JSON, or it is JSON of another shape. -/
inductive Fault where
  | illFormed
  | wrongShape
deriving DecidableEq

/-- Takes a value from the start of a text and leaves the rest of the text. -/
abbrev Reader (α : Type) : Type := List Char → Except Fault (α × List Char)

def isSpace (c : Char) : Bool := c = ' ' || c = '\n' || c = '\t' || c = '\r'

def skipSpace (s : List Char) : List Char := s.dropWhile isSpace

/-! ## Texts -/

def hexDigit? (c : Char) : Option Nat :=
  if '0' ≤ c ∧ c ≤ '9' then some (c.toNat - '0'.toNat)
  else if 'a' ≤ c ∧ c ≤ 'f' then some (c.toNat - 'a'.toNat + 10)
  else if 'A' ≤ c ∧ c ≤ 'F' then some (c.toNat - 'A'.toNat + 10)
  else none

/-- The number of four hexadecimal digits. -/
def hex4? (a b c d : Char) : Option Nat := do
  return (((← hexDigit? a) * 16 + (← hexDigit? b)) * 16 + (← hexDigit? c)) * 16 + (← hexDigit? d)

/-- The character of an escape of one letter. -/
def escaped? (c : Char) : Option Char :=
  match c with
  | '"' => some '"'
  | '\\' => some '\\'
  | '/' => some '/'
  | 'b' => some '\x08'
  | 'f' => some '\x0c'
  | 'n' => some '\n'
  | 'r' => some '\r'
  | 't' => some '\t'
  | _ => none

/-- The number is the first of a pair of code units. -/
def isLeading (n : Nat) : Bool := 0xD800 ≤ n && n ≤ 0xDBFF

/-- The number is the second of a pair of code units. -/
def isTrailing (n : Nat) : Bool := 0xDC00 ≤ n && n ≤ 0xDFFF

/-- The character of a pair of code units. -/
def pairChar (leading trailing : Nat) : Char :=
  Char.ofNat (0x10000 + (leading - 0xD800) * 0x400 + (trailing - 0xDC00))

/-- One more character in front of the characters read. -/
def prependChar (c : Char) (r : Except Fault (List Char × List Char)) : Except Fault (List Char × List Char) :=
  r.map fun (s, rest) => (c :: s, rest)

/-- A text after its opening quote. The code units of a pair must come together. -/
def readStringBody : List Char → Except Fault (List Char × List Char)
  | [] => .error .illFormed
  | '"' :: rest => .ok ([], rest)
  | '\\' :: 'u' :: a :: b :: c :: d :: rest =>
    match hex4? a b c d with
    | none => .error .illFormed
    | some n =>
      if isLeading n then
        match rest with
        | '\\' :: 'u' :: e :: f :: g :: h :: rest =>
          match hex4? e f g h with
          | none => .error .illFormed
          | some m => if isTrailing m then prependChar (pairChar n m) (readStringBody rest) else .error .illFormed
        | _ => .error .illFormed
      else if isTrailing n then .error .illFormed
      else prependChar (Char.ofNat n) (readStringBody rest)
  | '\\' :: c :: rest =>
    match escaped? c with
    | some c => prependChar c (readStringBody rest)
    | none => .error .illFormed
  | c :: rest => if c = '\\' ∨ c.toNat < 0x20 then .error .illFormed else prependChar c (readStringBody rest)

/-- Passes over a text after its opening quote: escapes are checked for their form only. -/
def skipStringBody : List Char → Except Fault (Unit × List Char)
  | [] => .error .illFormed
  | '"' :: rest => .ok ((), rest)
  | '\\' :: 'u' :: a :: b :: c :: d :: rest =>
    if (hex4? a b c d).isSome then skipStringBody rest else .error .illFormed
  | '\\' :: c :: rest => if (escaped? c).isSome then skipStringBody rest else .error .illFormed
  | c :: rest => if c = '\\' ∨ c.toNat < 0x20 then .error .illFormed else skipStringBody rest

/-- A text after its opening quote, as a string. -/
def readKey : Reader String := fun s => do
  let (key, s) ← readStringBody s
  .ok (String.ofList key, s)

/-! ## Words -/

/-- A word such as `null`. -/
def readWord : (word : List Char) → Reader Unit
  | [], s => .ok ((), s)
  | _ :: _, [] => .error .illFormed
  | c :: word, d :: s => if c = d then readWord word s else .error .illFormed

def readNull : Reader Unit := readWord ['n', 'u', 'l', 'l']

def readTrue : Reader Unit := readWord ['t', 'r', 'u', 'e']

def readFalse : Reader Unit := readWord ['f', 'a', 'l', 's', 'e']

end SentenceQuery.Json
