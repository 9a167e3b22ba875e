import SentenceQuery.Json.Scalar

/-!
# Targets of requests

The target of a request is a path, perhaps with a query or a fragment after it, which do not count. A path names one of the
routes. The segments of a path that stand for values are percent-encoded UTF-8 (`decodeSegment?`).
-/

namespace SentenceQuery

/-- The paths that are served, with the segments that stand for values as they are written. -/
inductive Route where
  | dataset (id kind : List Char)
  | datasetById (id : List Char)
  | datasets
  | query
  | health
deriving DecidableEq

namespace Target

/-- What stands after `scheme://authority`, if the text starts so. -/
def dropAuthority? : List Char → Option (List Char)
  | ':' :: '/' :: '/' :: rest => some (rest.dropWhile fun c => c ≠ '/' && c ≠ '?' && c ≠ '#')
  | c :: rest => if c = '/' ∨ c = '?' ∨ c = '#' then none else dropAuthority? rest
  | [] => none

/-- The path of a target. A target may also name the server in front of the path. -/
def path (target : List Char) : List Char :=
  let rest := if target.head? = some '/' then target else (dropAuthority? target).getD []
  rest.takeWhile fun c => c ≠ '?' && c ≠ '#'

/-- The texts between slashes. -/
def segments : List Char → List (List Char)
  | [] => [[]]
  | c :: rest =>
    if c = '/' then [] :: segments rest
    else match segments rest with
      | [] => [[c]]
      | s :: ss => (c :: s) :: ss

/-- The route of a path. The last segment is not empty. -/
def route? (path : List Char) : Option Route :=
  match segments path with
  | [[], first] =>
    if first = "datasets".toList then some .datasets
    else if first = "query".toList then some .query
    else if first = "health".toList then some .health
    else none
  | [[], first, id] => if first = "dataset".toList ∧ id ≠ [] then some (.datasetById id) else none
  | [[], first, id, kind] => if first = "dataset".toList ∧ kind ≠ [] then some (.dataset id kind) else none
  | _ => none

/-! ## Percent-encoding -/

/-- The bytes that percent-encoded characters stand for: an escape is a percent sign and two hexadecimal digits; anything
else stands for itself. -/
def decodeBytes : List Char → List UInt8
  | '%' :: a :: b :: rest =>
    match Json.hexDigit? a, Json.hexDigit? b with
    | some high, some low => UInt8.ofNat (16 * high + low) :: decodeBytes rest
    | _, _ => String.utf8EncodeChar '%' ++ decodeBytes (a :: b :: rest)
  | c :: rest => String.utf8EncodeChar c ++ decodeBytes rest
  | [] => []

/-- The text of a segment, if its bytes are UTF-8. -/
def decodeSegment? (s : List Char) : Option String :=
  String.fromUTF8? ⟨(decodeBytes s).toArray⟩

end Target

end SentenceQuery
