import SentenceQuery.Json.Scalar
import SentenceQuery.Yaml.Place

/-!
# YAML: scalars

A scalar is written plainly or in quotes, and may go on over several lines. Blanks around a line end do not count, and line
ends are folded: one is a space, and of several the first is dropped. In double quotes a line end may be escaped, which
drops it together with the blanks after it.
-/

namespace SentenceQuery.Yaml

/-- How a scalar is written. -/
inductive Style where
  | plain
  | quoted
deriving DecidableEq

/-! ## Gaps -/

/-- What stands between two words of a scalar: the blanks up to the first line end, and the line ends. -/
structure Gap where
  blanks : List Char
  breaks : List Char
deriving DecidableEq

namespace Gap

/-- Nothing. -/
def none : Gap := ⟨[], []⟩

/-- The gap has a line end in it. -/
def isBroken (g : Gap) : Bool := !g.breaks.isEmpty

/-- Line ends folded. -/
def fold : List Char → List Char
  | ['\n'] => [' ']
  | '\n' :: more => more
  | breaks => breaks

/-- What a gap stands for. -/
def text (g : Gap) : List Char := if g.breaks.isEmpty then g.blanks else fold g.breaks

end Gap

/-- The gap that stands here, and the place after it. Where a line is not `least` deep it must not be indented by a tab. The
fuel bounds the number of characters; `broken` tells that a line end is behind. -/
def readGap (least : Nat) : (fuel : Nat) → (broken : Bool) → Place → Option (Gap × Place)
  | 0, _, p => some (.none, p)
  | fuel + 1, broken, p =>
    match p.rest with
    | [] => some (.none, p)
    | c :: _ =>
      if isGap c then
        if broken then
          if c = '\t' ∧ p.column < least then none else readGap least fuel true (p.skip 1)
        else (readGap least fuel false (p.skip 1)).map fun (g, p) => ({ g with blanks := c :: g.blanks }, p)
      else if isBreak c then
        (readGap least fuel true p.nextLine).map fun (g, p) => ({ g with breaks := breakChar c :: g.breaks }, p)
      else some (.none, p)

/-! ## Quoted scalars -/

/-- The character of an escape of one letter. -/
def escaped? (c : Char) : Option Char :=
  match c with
  | '0' => some '\x00'
  | 'a' => some '\x07'
  | 'b' => some '\x08'
  | 't' | '\t' => some '\t'
  | 'n' => some '\n'
  | 'v' => some '\x0b'
  | 'f' => some '\x0c'
  | 'r' => some '\r'
  | 'e' => some '\x1b'
  | ' ' => some ' '
  | '"' => some '"'
  | '/' => some '/'
  | '\\' => some '\\'
  | 'N' => some '\u0085'
  | '_' => some '\u00a0'
  | 'L' => some '\u2028'
  | 'P' => some '\u2029'
  | _ => none

/-- How many hexadecimal digits follow the letter of an escape. -/
def escapeWidth? (c : Char) : Option Nat :=
  match c with
  | 'x' => some 2
  | 'u' => some 4
  | 'U' => some 8
  | _ => none

/-- The character of a code point in hexadecimal digits. -/
def hexChar? (digits : List Char) : Option Char := do
  let n ← digits.foldlM (fun n c => (Json.hexDigit? c).map fun d => 16 * n + d) 0
  if n.isValidChar then some (Char.ofNat n) else none

/-- What an escape stands for, and the place after it. -/
def readEscape (p : Place) : Option (List Char × Place) :=
  match p.rest.drop 1 with
  | [] => none
  | e :: rest =>
    if isBreak e then (readGap 0 rest.length true (p.skip 1).nextLine).map fun (g, p) => (g.breaks, p)
    else match escapeWidth? e with
      | some width =>
        if rest.length < width then none
        else (hexChar? (rest.take width)).map fun c => ([c], p.skip (2 + width))
      | none => (escaped? e).map fun c => ([c], p.skip 2)

/-- A quote is written twice inside single quotes. -/
def isDoubledQuote (rest : List Char) : Bool := rest.head? = some '\x27'

/-- A scalar after its opening quote, and the place after it. No mark between documents may stand in it. Each step takes at
least one character, so the length of the text is enough fuel. -/
def readQuoted (quote : Char) : (fuel : Nat) → Place → Option (List Char × Place)
  | 0, _ => none
  | fuel + 1, p =>
    let followedBy (text : List Char) (p : Place) :=
      (readQuoted quote fuel p).map fun (more, p) => (text ++ more, p)
    if p.mark?.isSome then none
    else match p.rest with
      | [] => none
      | c :: rest =>
        if isGap c || isBreak c then (readGap 0 (rest.length + 1) false p).bind fun (g, p) => followedBy g.text p
        else if c = quote then
          if quote = '\x27' ∧ isDoubledQuote rest then followedBy [c] (p.skip 2) else some ([], p.skip 1)
        else if c = '\\' ∧ quote = '"' then (readEscape p).bind fun (text, p) => followedBy text p
        else followedBy [c] (p.skip 1)

/-! ## Plain scalars -/

/-- The characters that structure a collection in braces or brackets. -/
def isFlowIndicator (c : Char) : Bool := [',', '[', ']', '{', '}'].contains c

/-- The characters that start something else than a plain scalar. -/
def isIndicator (c : Char) : Bool :=
  isFlowIndicator c || ['-', '?', ':', '#', '&', '*', '!', '|', '>', '\x27', '"', '%', '@', '\x60'].contains c

/-- A plain scalar starts here; `flow` tells that it stands in braces or brackets. -/
def startsPlain (flow : Bool) : List Char → Bool
  | [] => false
  | c :: rest =>
    if c = '-' then !(rest.head?.any isGap)
    else if c = '?' ∨ c = ':' then !flow && !endsWord rest
    else !isIndicator c && !isGap c && !isBreak c

/-- The characters of a plain scalar up to a gap or its end, and what follows. It ends before a colon at the end of a word
and, in braces or brackets, before what structures them; there a colon right before such a character is an error. -/
def readRun (flow : Bool) : List Char → Option (List Char × List Char)
  | [] => some ([], [])
  | c :: rest =>
    if isGap c || isBreak c then some ([], c :: rest)
    else if flow && c = ':' && rest.head?.any (fun d => isFlowIndicator d || d = '?') then none
    else if (c = ':' && endsWord rest) || (flow && isFlowIndicator c) then some ([], c :: rest)
    else (readRun flow rest).map fun (run, rest) => (c :: run, rest)

/-- A plain scalar as far as it has been read: its text, the gap after it, and the place after that. -/
structure PlainText where
  text : List Char
  gap : Gap
  after : Place
deriving DecidableEq

/-- A plain scalar from a place on, after the gap that stands before that place. It ends at a comment, at a mark between
documents and, outside braces and brackets, before a line that is not `least` deep. Each step takes at least one character,
so the length of the text is enough fuel. -/
def readPlain (flow : Bool) (least : Nat) : (fuel : Nat) → Gap → Place → Option PlainText
  | 0, _, _ => none
  | fuel + 1, gap, p =>
    if p.mark?.isSome || p.rest.head? = some '#' then some ⟨[], gap, p⟩
    else do
      let (run, rest) ← readRun flow p.rest
      if run = [] then some ⟨[], gap, p⟩
      else
        let (next, after) ← readGap least rest.length false (p.skip run.length)
        if !flow && after.column < least then some ⟨gap.text ++ run, next, after⟩
        else
          let more ← readPlain flow least fuel next after
          some { more with text := gap.text ++ run ++ more.text }

end SentenceQuery.Yaml
