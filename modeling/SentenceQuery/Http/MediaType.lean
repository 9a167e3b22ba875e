/-!
# Media types

The content type of a request names a media type: a type, a subtype that may end in `+` and a suffix, and parameters. Upper
and lower case do not matter. A body is read as JSON only if its media type says so.
-/

namespace SentenceQuery

/-- A media type without its parameters, in lower case. -/
structure MediaType where
  type : List Char
  subtype : List Char
  suffix : Option (List Char)
deriving DecidableEq

namespace MediaType

/-- A character of the names in a media type. -/
def isTokenChar (c : Char) : Bool :=
  c.isAlphanum || ['!', '#', '$', '%', '&', '\x27', '*', '+', '-', '.', '^', '_', '\x60', '|', '~'].contains c

/-- Where in the parameters of a media type a character stands. The parameters follow a semicolon. -/
inductive Place where
  /-- before a parameter -/
  | start
  | name
  /-- after the equals sign -/
  | equals
  | value
  /-- after the opening quote of a value -/
  | opened
  | quoted
  /-- after the closing quote of a value -/
  | closed
deriving DecidableEq

namespace Place

/-- A character that a value in quotes may hold. -/
def isQuotedChar (c : Char) : Bool := 0x20 ≤ c.toNat && c.toNat ≠ 0x7F

/-- The place after a character, if the character may stand there. A quote right after the opening quote is a character of
the value. -/
def next? : Place → Char → Option Place
  | .start, c => if c = ' ' then some .start else if isTokenChar c then some .name else none
  | .name, c => if c = '=' then some .equals else if isTokenChar c then some .name else none
  | .equals, c => if c = '"' then some .opened else if isTokenChar c then some .value else none
  | .value, c => if c = ';' then some .start else if isTokenChar c then some .value else none
  | .opened, c => if isQuotedChar c then some .quoted else none
  | .quoted, c => if c = '"' then some .closed else if isQuotedChar c then some .quoted else none
  | .closed, c => if c = ';' then some .start else if c = ' ' then some .closed else none

/-- The parameters may end here. -/
def mayEnd : Place → Bool
  | .start | .equals | .value | .closed => true
  | .name | .opened | .quoted => false

/-- The characters may be the rest of the parameters. -/
def accepts : Place → List Char → Bool
  | p, [] => p.mayEnd
  | p, c :: rest =>
    match p.next? c with
    | some p => p.accepts rest
    | none => false

end Place

/-- A name of a subtype cut at its last `+`, unless that is its first character. -/
def splitSuffix : List Char → List Char × Option (List Char)
  | [] => ([], none)
  | c :: rest =>
    if rest.contains '+' then
      let suffix := (rest.reverse.takeWhile (· ≠ '+')).reverse
      (c :: rest.take (rest.length - suffix.length - 1), some suffix)
    else (c :: rest, none)

/-- The media type of two names. -/
def ofNames (type subtype : List Char) : MediaType :=
  let (subtype, suffix) := splitSuffix (subtype.map Char.toLower)
  ⟨type.map Char.toLower, subtype, suffix⟩

/-- The media type of a content type. -/
def ofText? (s : List Char) : Option MediaType :=
  let type := s.takeWhile isTokenChar
  match s.dropWhile isTokenChar with
  | '/' :: rest =>
    let subtype := rest.takeWhile isTokenChar
    match rest.dropWhile isTokenChar with
    | [] => if type = [] then none else some (ofNames type subtype)
    | ';' :: parameters =>
      if type = [] ∨ subtype = [] then none
      else if Place.start.accepts parameters then some (ofNames type subtype)
      else none
    | _ => none
  | _ => none

/-- The media type is that of JSON: `application/json`, or a subtype of `application` that is JSON by its suffix. -/
def isJson (m : MediaType) : Bool :=
  m.type = "application".toList && (m.subtype = "json".toList || m.suffix = some "json".toList)

/-- A content type names JSON. Content types are ASCII. -/
def namesJson (contentType : String) : Bool :=
  contentType.toList.all (fun c => c.toNat < 0x7F) && ((ofText? contentType.toList).map isJson).getD false

end MediaType

end SentenceQuery
