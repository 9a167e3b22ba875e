import SentenceQuery.Json.Number

/-!
# Reading JSON: arrays, objects and values of any shape

Arrays and objects are read item by item into what is read so far, so each kind of value says itself what it keeps. Values
that are wanted may be nested 127 deep (`maxDepth`). Values that are not wanted are passed over however deep they are
(`skipValue`), and their numbers and escapes are checked for their form only.
-/

namespace SentenceQuery.Json

variable {σ α κ : Type}

/-- How deep the arrays and objects of a wanted value may be nested. -/
def maxDepth : Nat := 127

/-! ## Arrays and objects -/

/-- The items of an array that has one, up to and with the closing bracket. The fuel bounds their number. -/
def readItems (item : σ → Reader σ) : (fuel : Nat) → σ → Reader σ
  | 0, _, _ => .error .illFormed
  | fuel + 1, acc, s => do
    let (acc, s) ← item acc (skipSpace s)
    match skipSpace s with
    | ',' :: rest => readItems item fuel acc rest
    | ']' :: rest => .ok (acc, rest)
    | _ => .error .illFormed

/-- An array after its opening bracket. -/
def readArray (item : σ → Reader σ) (acc : σ) : Reader σ := fun s =>
  match skipSpace s with
  | ']' :: rest => .ok (acc, rest)
  | s => readItems item (s.length + 1) acc s

/-- The members of an object that has one, up to and with the closing brace. The fuel bounds their number. -/
def readMembers (key : Reader κ) (value : σ → κ → Reader σ) : (fuel : Nat) → σ → Reader σ
  | 0, _, _ => .error .illFormed
  | fuel + 1, acc, s =>
    match skipSpace s with
    | '"' :: rest => do
      let (k, s) ← key rest
      match skipSpace s with
      | ':' :: rest => do
        let (acc, s) ← value acc k (skipSpace rest)
        match skipSpace s with
        | ',' :: rest => readMembers key value fuel acc rest
        | '}' :: rest => .ok (acc, rest)
        | _ => .error .illFormed
      | _ => .error .illFormed
    | _ => .error .illFormed

/-- An object after its opening brace. -/
def readObject (key : Reader κ) (value : σ → κ → Reader σ) (acc : σ) : Reader σ := fun s =>
  match skipSpace s with
  | '}' :: rest => .ok (acc, rest)
  | s => readMembers key value (s.length + 1) acc s

/-- One more value at the end of those read. -/
def appendItem (item : Reader α) (acc : List α) : Reader (List α) := fun s => do
  let (v, s) ← item s
  .ok (acc ++ [v], s)

/-- One more value under a key at the end of those read. -/
def appendMember (value : Reader α) (acc : List (String × α)) (key : String) : Reader (List (String × α)) := fun s => do
  let (v, s) ← value s
  .ok (acc ++ [(key, v)], s)

/-! ## Values of any shape -/

/-- A JSON value of any shape. -/
inductive Value where
  | null
  | bool (value : Bool)
  | number (value : Binary64)
  | string (value : String)
  | array (items : List Value)
  | object (members : List (String × Value))

/-- A value of any shape, with at most `depth` arrays and objects around one another. -/
def readValue : (depth : Nat) → Reader Value
  | depth, s =>
    match skipSpace s with
    | [] => .error .illFormed
    | '"' :: rest => do let (text, s) ← readKey rest; .ok (.string text, s)
    | '[' :: rest =>
      match depth with
      | 0 => .error .illFormed
      | depth + 1 => do
        let (items, s) ← readArray (appendItem (readValue depth)) [] rest
        .ok (.array items, s)
    | '{' :: rest =>
      match depth with
      | 0 => .error .illFormed
      | depth + 1 => do
        let (members, s) ← readObject readKey (appendMember (readValue depth)) [] rest
        .ok (.object members, s)
    | c :: rest =>
      if startsNumber c then do let (x, s) ← readNumber (c :: rest); .ok (.number x, s)
      else if c = 'n' then do let (_, s) ← readNull (c :: rest); .ok (.null, s)
      else if c = 't' then do let (_, s) ← readTrue (c :: rest); .ok (.bool true, s)
      else if c = 'f' then do let (_, s) ← readFalse (c :: rest); .ok (.bool false, s)
      else .error .illFormed

/-- Passes over a value of any shape. The fuel bounds its depth. -/
def skipNested : (fuel : Nat) → Reader Unit
  | fuel, s =>
    match skipSpace s with
    | [] => .error .illFormed
    | '"' :: rest => skipStringBody rest
    | '[' :: rest =>
      match fuel with
      | 0 => .error .illFormed
      | fuel + 1 => readArray (fun _ => skipNested fuel) () rest
    | '{' :: rest =>
      match fuel with
      | 0 => .error .illFormed
      | fuel + 1 => readObject skipStringBody (fun _ _ => skipNested fuel) () rest
    | c :: rest =>
      if startsNumber c then do let (_, s) ← readNumberText (c :: rest); .ok ((), s)
      else if c = 'n' then readNull (c :: rest)
      else if c = 't' then readTrue (c :: rest)
      else if c = 'f' then readFalse (c :: rest)
      else .error .illFormed

/-- Passes over a value of any shape. A value is no deeper than its text is long. -/
def skipValue : Reader Unit := fun s => skipNested s.length s

end SentenceQuery.Json
