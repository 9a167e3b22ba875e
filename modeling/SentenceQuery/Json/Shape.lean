import SentenceQuery.Json.Composite

/-!
# Reading JSON: values of a known shape

Readers for values whose shape is fixed: texts, lists, maps, choices between names, and values with fields. Where a value
of another shape stands, the fault is the shape, unless what stands there is not even JSON (`mismatch`).
-/

namespace SentenceQuery.Json

variable {σ α : Type}

/-- The fault of a scalar that is not wanted: its own, if it is ill-formed. -/
def scalarFault : Except Fault (α × List Char) → Fault
  | .ok _ => .wrongShape
  | .error fault => fault

/-- The fault where a value of another shape stands. Of arrays and objects only the beginning is looked at. -/
def mismatch : List Char → Fault
  | [] => .illFormed
  | '"' :: rest => scalarFault (readStringBody rest)
  | c :: rest =>
    if c = '[' ∨ c = '{' then .wrongShape
    else if startsNumber c then scalarFault (readNumber (c :: rest))
    else if c = 'n' then scalarFault (readNull (c :: rest))
    else if c = 't' then scalarFault (readTrue (c :: rest))
    else if c = 'f' then scalarFault (readFalse (c :: rest))
    else .illFormed

/-- A text. -/
def readString : Reader String := fun s =>
  match skipSpace s with
  | '"' :: rest => readKey rest
  | s => .error (mismatch s)

/-- An array of values of one shape; `item` is told how deep its values may still be nested. -/
def readList (item : (depth : Nat) → Reader α) (depth : Nat) : Reader (List α) := fun s =>
  match skipSpace s with
  | '[' :: rest =>
    match depth with
    | 0 => .error .illFormed
    | depth + 1 => readArray (appendItem (item depth)) [] rest
  | s => .error (mismatch s)

/-- An object whose members are read into what is read so far. -/
def readMap (value : (depth : Nat) → σ → String → Reader σ) (acc : σ) (depth : Nat) : Reader σ := fun s =>
  match skipSpace s with
  | '{' :: rest =>
    match depth with
    | 0 => .error .illFormed
    | depth + 1 => readObject readKey (value depth) acc rest
  | s => .error (mismatch s)

/-- A member of a value with fields; a member that is no field is passed over. -/
def readField (fields : List String) (field : σ → String → Reader σ) (acc : σ) (key : String) : Reader σ := fun s =>
  if fields.contains key then field acc key s
  else do
    let (_, s) ← skipValue s
    .ok (acc, s)

/-- The next of the fields in their order, where `acc.2` fields are read already; there are no items beyond the last. -/
def readNextField (fields : List String) (field : σ → String → Reader σ) (acc : σ × Nat) : Reader (σ × Nat) := fun s =>
  match fields[acc.2]? with
  | none => .error .illFormed
  | some key => do
    let (r, s) ← field acc.1 key s
    .ok ((r, acc.2 + 1), s)

/-- A value with fields: an object, or an array of the fields in their order. -/
def readFields (fields : List String) (field : (depth : Nat) → σ → String → Reader σ) (acc : σ) (depth : Nat) :
    Reader σ := fun s =>
  match skipSpace s with
  | '{' :: rest =>
    match depth with
    | 0 => .error .illFormed
    | depth + 1 => readObject readKey (readField fields (field depth)) acc rest
  | '[' :: rest =>
    match depth with
    | 0 => .error .illFormed
    | depth + 1 => do
      let ((acc, _), s) ← readArray (readNextField fields (field depth)) (acc, 0) rest
      .ok (acc, s)
  | s => .error (mismatch s)

/-- The choice of a name. -/
def choose (ofName? : String → Option α) (name : String) : Except Fault α :=
  match ofName? name with
  | some choice => .ok choice
  | none => .error .wrongShape

/-- The rest of a choice written as an object, after its name: null and the closing brace. -/
def readChoiceEnd : Reader Unit := fun s =>
  match skipSpace s with
  | ':' :: rest =>
    match skipSpace rest with
    | 'n' :: rest => do
      let (_, s) ← readNull ('n' :: rest)
      match skipSpace s with
      | '}' :: rest => .ok ((), rest)
      | _ => .error .illFormed
    | s => .error (mismatch s)
  | _ => .error .illFormed

/-- One of several names: a text, or an object with the name as its only key, over null. -/
def readChoice (ofName? : String → Option α) (depth : Nat) : Reader α := fun s =>
  match skipSpace s with
  | '"' :: rest => do
    let (name, s) ← readKey rest
    let choice ← choose ofName? name
    .ok (choice, s)
  | '{' :: rest =>
    if depth = 0 then .error .illFormed
    else do
      let (name, s) ← readString rest
      let choice ← choose ofName? name
      let (_, s) ← readChoiceEnd s
      .ok (choice, s)
  | _ => .error .illFormed

/-- The choice that a value of any shape names: a text, or an object with the name as its only key, over null or over an
empty object. -/
def Value.choice? (ofName? : String → Option α) : Value → Option α
  | .string name => ofName? name
  | .object [(name, .null)] => ofName? name
  | .object [(name, .object [])] => ofName? name
  | _ => none

/-- A value or null. -/
def readOptional (value : Reader α) : Reader (Option α) := fun s =>
  match skipSpace s with
  | 'n' :: rest => do
    let (_, s) ← readNull ('n' :: rest)
    .ok (none, s)
  | s => do
    let (v, s) ← value s
    .ok (some v, s)

/-- A whole text: one value with nothing but space around it. -/
def readWholeText (value : Reader α) (s : List Char) : Except Fault α := do
  let (v, rest) ← value s
  if skipSpace rest = [] then .ok v else .error .illFormed

end SentenceQuery.Json
