import SentenceQuery.Text.Blank

/-!
# Patterns over text

A pattern says what a text may start with. Alternatives are tried in order and the first that matches is final; a
repetition takes as much as it can and gives nothing back; look-ahead takes nothing. Matching a pattern (`Pattern.run`)
answers the part of the text it takes, the nodes of the named rules within it, and the rest of the text.
-/

namespace SentenceQuery

/-- A named rule that matched: where its text starts, in bytes, the text, and the nodes of the rules within it. -/
structure Node (ρ : Type) where
  rule : ρ
  start : Nat
  text : List Char
  inner : List (Node ρ)

namespace Node

variable {ρ : Type}

/-- Where the text of a node ends, in bytes. -/
def stop (n : Node ρ) : Nat := n.start + byteSize n.text

/-- The text of a node. -/
def string (n : Node ρ) : String := String.ofList n.text

end Node

/-- A pattern with named rules `ρ`. -/
inductive Pattern (ρ : Type) where
  /-- one character of a class -/
  | char (accepts : Char → Bool)
  /-- these characters -/
  | literal (text : List Char)
  /-- the end of the text -/
  | finish
  /-- the one and then the other -/
  | seq (first second : Pattern ρ)
  /-- the one, or else the other -/
  | choice (first second : Pattern ρ)
  /-- as many as there are -/
  | many (item : Pattern ρ)
  /-- nothing, where the pattern matches -/
  | present (item : Pattern ρ)
  /-- nothing, where the pattern does not match -/
  | absent (item : Pattern ρ)
  /-- the pattern as a node that keeps the nodes within it -/
  | node (rule : ρ) (body : Pattern ρ)
  /-- the pattern as a node without nodes within it -/
  | token (rule : ρ) (body : Pattern ρ)

/-- What a pattern took, and what is left. -/
structure Outcome (ρ : Type) where
  text : List Char
  nodes : List (Node ρ)
  rest : List Char

namespace Pattern

variable {ρ : Type}

/-- The text without the given characters at its start. -/
def dropLiteral? : (text s : List Char) → Option (List Char)
  | [], s => some s
  | _ :: _, [] => none
  | c :: text, d :: s => if c = d then dropLiteral? text s else none

/-- A step taken again and again from an offset, until it fails or takes nothing. The fuel is a bound on the number of
steps; each takes a character, so the length of the text is enough. -/
def repeatStep (step : Nat → List Char → Option (Outcome ρ)) : (fuel offset : Nat) → List Char → Outcome ρ
  | 0, _, s => ⟨[], [], s⟩
  | fuel + 1, offset, s =>
    match step offset s with
    | none => ⟨[], [], s⟩
    | some one =>
      if one.text = [] then ⟨[], [], s⟩
      else
        let more := repeatStep step fuel (offset + byteSize one.text) one.rest
        ⟨one.text ++ more.text, one.nodes ++ more.nodes, more.rest⟩

/-- Matches a pattern at the start of a text that stands at an offset. -/
def run : Pattern ρ → (offset : Nat) → List Char → Option (Outcome ρ)
  | char _, _, [] => none
  | char accepts, _, c :: rest => if accepts c then some ⟨[c], [], rest⟩ else none
  | literal text, _, s => (dropLiteral? text s).map fun rest => ⟨text, [], rest⟩
  | finish, _, s => if s = [] then some ⟨[], [], []⟩ else none
  | seq first second, offset, s =>
    match first.run offset s with
    | none => none
    | some one =>
      match second.run (offset + byteSize one.text) one.rest with
      | none => none
      | some two => some ⟨one.text ++ two.text, one.nodes ++ two.nodes, two.rest⟩
  | choice first second, offset, s =>
    match first.run offset s with
    | none => second.run offset s
    | some one => some one
  | many item, offset, s => some (repeatStep item.run s.length offset s)
  | present item, offset, s => (item.run offset s).map fun _ => ⟨[], [], s⟩
  | absent item, offset, s => if (item.run offset s).isSome then none else some ⟨[], [], s⟩
  | node rule body, offset, s =>
    (body.run offset s).map fun o => ⟨o.text, [⟨rule, offset, o.text, o.nodes⟩], o.rest⟩
  | token rule body, offset, s =>
    (body.run offset s).map fun o => ⟨o.text, [⟨rule, offset, o.text, []⟩], o.rest⟩

/-! ## Patterns made of patterns -/

/-- These patterns one after the other. -/
def all : List (Pattern ρ) → Pattern ρ
  | [] => literal []
  | [p] => p
  | p :: ps => seq p (all ps)

/-- The first of these patterns that matches; of none, nothing matches. -/
def firstOf : List (Pattern ρ) → Pattern ρ
  | [] => absent (literal [])
  | [p] => p
  | p :: ps => choice p (firstOf ps)

/-- At least one, and as many as there are. -/
def atLeastOne (item : Pattern ρ) : Pattern ρ := seq item (many item)

/-- The pattern, or nothing. -/
def optional (item : Pattern ρ) : Pattern ρ := choice item (literal [])

/-- The characters of a string. -/
def text (s : String) : Pattern ρ := literal s.toList

/-- Any character. -/
def anyChar : Pattern ρ := char fun _ => true

end Pattern

end SentenceQuery
