import SentenceQuery.Json.Shape
import SentenceQuery.Proofs.Json.Text
import SentenceQuery.Proofs.Steps

/-!
# Reading what was written

A reader reads a text as a value if it takes just that text, whatever delimiter comes behind it (`Reads`). Arrays and objects are read as
such when their items and members are, one after the other (`ReadsItems`, `ReadsMembers`), and so are the shapes that are put
together from them.
-/

namespace SentenceQuery.Json

variable {σ α β κ : Type}

/-- The characters behind a value: a comma or the end of an array or of an object. -/
def endsValue (c : Char) : Bool := c = ',' || c = ']' || c = '}'

/-- Nothing follows, or what may follow a value. -/
def Delimited (s : List Char) : Prop := ∀ c ∈ s.head?, endsValue c = true

/-- The text starts as a value does. -/
def StartsValue (text : List Char) : Prop := ∃ c r, text = c :: r ∧ isSpace c = false ∧ endsValue c = false

/-- The reader takes just the text, whatever comes behind it, and makes the value of it. -/
structure Reads (read : Reader α) (text : List Char) (a : α) : Prop where
  starts : StartsValue text
  reads : ∀ rest, Delimited rest → read (text ++ rest) = .ok (a, rest)

theorem delimited_nil : Delimited [] := by simp [Delimited]

/-- The text by itself is read to its end. -/
theorem Reads.eq_ok {read : Reader α} {text : List Char} {a : α} (h : Reads read text a) : read text = .ok (a, []) := by
  have hread := h.reads [] delimited_nil
  rwa [List.append_nil] at hread

/-- A text is read as one value only. -/
theorem Reads.inj {read : Reader α} {text : List Char} {a b : α} (ha : Reads read text a) (hb : Reads read text b) :
    a = b := by
  have hread := ha.eq_ok
  rw [hb.eq_ok, Except.ok.injEq, Prod.mk.injEq] at hread
  exact hread.1.symm

theorem delimited_cons {c : Char} {s : List Char} : Delimited (c :: s) ↔ endsValue c = true := by simp [Delimited]

theorem startsValue_cons {c : Char} {s : List Char} : StartsValue (c :: s) ↔ isSpace c = false ∧ endsValue c = false := by
  simp [StartsValue]

theorem skipSpace_cons {c : Char} (h : isSpace c = false) (s : List Char) : skipSpace (c :: s) = c :: s := by
  simp [skipSpace, h]

theorem StartsValue.skipSpace {text : List Char} (h : StartsValue text) (rest : List Char) :
    skipSpace (text ++ rest) = text ++ rest := by
  obtain ⟨c, r, rfl, hspace, -⟩ := h
  exact skipSpace_cons hspace _

theorem skipSpace_of_delimited {s : List Char} (h : Delimited s) : skipSpace s = s := by
  cases s with
  | nil => rfl
  | cons c s =>
    refine skipSpace_cons ?_ s
    rw [delimited_cons, endsValue] at h
    simp only [Bool.or_eq_true, decide_eq_true_eq] at h
    rcases h with (rfl | rfl) | rfl <;> decide

/-- What is made of a value, without looking at what comes behind it. -/
theorem Reads.bind {read : Reader α} {text : List Char} {a : α} {b : β} {f : α → Reader β} (h : Reads read text a)
    (hf : ∀ rest, f a rest = .ok (b, rest)) : Reads (fun s => do let (v, s) ← read s; f v s) text b :=
  ⟨h.starts, fun rest hrest => by simp [h.reads rest hrest, hf, Bind.bind, Except.bind]⟩

theorem Reads.map {read : Reader α} {text : List Char} {a : α} (h : Reads read text a) (f : α → β) :
    Reads (fun s => do let (v, s) ← read s; .ok (f v, s)) text (f a) :=
  h.bind (f := fun v s => .ok (f v, s)) fun _ => rfl

/-! ## Arrays and objects -/

/-- The items are read one after the other, each into what is read so far. -/
inductive ReadsItems (item : σ → Reader σ) : σ → List (List Char) → σ → Prop where
  | nil (a : σ) : ReadsItems item a [] a
  | cons {a b c : σ} {text : List Char} {texts : List (List Char)} :
      Reads (item a) text b → ReadsItems item b texts c → ReadsItems item a (text :: texts) c

/-- The members are read one after the other, each into what is read so far. -/
inductive ReadsMembers (keyOf : String → κ) (value : σ → κ → Reader σ) : σ → List (String × List Char) → σ → Prop where
  | nil (a : σ) : ReadsMembers keyOf value a [] a
  | cons {a b c : σ} {key : String} {text : List Char} {members : List (String × List Char)} :
      Reads (value a (keyOf key)) text b → ReadsMembers keyOf value b members c →
        ReadsMembers keyOf value a ((key, text) :: members) c

theorem ReadsMembers.append {keyOf : String → κ} {value : σ → κ → Reader σ} {a b c : σ}
    {members members' : List (String × List Char)} (h : ReadsMembers keyOf value a members b)
    (h' : ReadsMembers keyOf value b members' c) : ReadsMembers keyOf value a (members ++ members') c := by
  induction h with
  | nil a => exact h'
  | cons hread _ ih => exact ReadsMembers.cons hread (ih h')

theorem length_le_commaSeparated (pieces : List (List Char)) : pieces.length ≤ (commaSeparated pieces).length + 1 := by
  fun_induction commaSeparated pieces with
  | case1 => simp
  | case2 piece => simp
  | case3 piece pieces _ ih =>
    simp only [List.length_cons, List.length_append]
    omega

theorem readItems_commaSeparated {item : σ → Reader σ} {acc acc' : σ} {texts : List (List Char)}
    (h : ReadsItems item acc texts acc') (hne : texts ≠ []) {fuel : Nat} (hfuel : texts.length ≤ fuel) (rest : List Char) :
    readItems item fuel acc (commaSeparated texts ++ ']' :: rest) = .ok (acc', rest) := by
  induction h generalizing fuel with
  | nil => exact absurd rfl hne
  | @cons acc acc₁ acc₂ text texts hread hrest ih =>
    obtain ⟨fuel, rfl⟩ : ∃ n, fuel = n + 1 := ⟨fuel - 1, by simp only [List.length_cons] at hfuel; omega⟩
    cases texts with
    | nil =>
      cases hrest
      rw [commaSeparated, readItems, hread.starts.skipSpace, hread.reads _ (delimited_cons.2 (by decide))]
      rfl
    | cons next texts =>
      rw [commaSeparated, List.append_assoc, List.cons_append, readItems, hread.starts.skipSpace,
        hread.reads _ (delimited_cons.2 (by decide))]
      · exact ih (by simp) (by simpa using hfuel)
      · simp

/-- The items of an array with its closing bracket. -/
theorem readArray_commaSeparated {item : σ → Reader σ} {acc acc' : σ} {texts : List (List Char)}
    (h : ReadsItems item acc texts acc') (rest : List Char) :
    readArray item acc (commaSeparated texts ++ ']' :: rest) = .ok (acc', rest) := by
  cases h with
  | nil => rfl
  | @cons _ acc₁ _ text texts hread hrest =>
    obtain ⟨c, r, htext, hspace, hends⟩ := hread.starts
    have hstart : ∃ r', commaSeparated (text :: texts) ++ ']' :: rest = c :: r' := by
      cases texts <;> simp [commaSeparated, htext]
    have hfuel : (text :: texts).length ≤ (commaSeparated (text :: texts) ++ ']' :: rest).length + 1 := by
      have := length_le_commaSeparated (text :: texts)
      rw [List.length_append]
      omega
    have hitems := readItems_commaSeparated (ReadsItems.cons hread hrest) (by simp) hfuel rest
    obtain ⟨r', hr'⟩ := hstart
    rw [hr'] at hitems ⊢
    rw [readArray, skipSpace_cons hspace]
    split
    · rename_i heq
      cases heq
      exact absurd hends (by decide)
    · exact hitems

/-- One more member is read, up to the comma or the brace behind it. -/
theorem readMembers_member {keyOf : String → κ} {key : Reader κ} {value : σ → κ → Reader σ} {acc acc' : σ} {name : String}
    {text : List Char} (hkey : ∀ name rest, key (quotedBody name ++ rest) = .ok (keyOf name, rest))
    (h : Reads (value acc (keyOf name)) text acc') (fuel : Nat) (rest : List Char) :
    readMembers key value (fuel + 1) acc (member name text ++ ',' :: rest) = readMembers key value fuel acc' rest ∧
      readMembers key value (fuel + 1) acc (member name text ++ '}' :: rest) = .ok (acc', rest) := by
  have hquote : isSpace '"' = false := by decide
  have hcolon : isSpace ':' = false := by decide
  have hcomma : Delimited (',' :: rest) := delimited_cons.2 (by decide)
  have hbrace : Delimited ('}' :: rest) := delimited_cons.2 (by decide)
  constructor
  · rw [member, ofString_eq, List.cons_append, List.cons_append, readMembers, skipSpace_cons hquote]
    simp only [List.append_assoc, List.cons_append, hkey, bind, Except.bind, skipSpace_cons hcolon,
      h.starts.skipSpace, h.reads _ hcomma, skipSpace_of_delimited hcomma]
  · rw [member, ofString_eq, List.cons_append, List.cons_append, readMembers, skipSpace_cons hquote]
    simp only [List.append_assoc, List.cons_append, hkey, bind, Except.bind, skipSpace_cons hcolon,
      h.starts.skipSpace, h.reads _ hbrace, skipSpace_of_delimited hbrace]

theorem readMembers_commaSeparated {keyOf : String → κ} {key : Reader κ} {value : σ → κ → Reader σ} {acc acc' : σ}
    {members : List (String × List Char)} (hkey : ∀ name rest, key (quotedBody name ++ rest) = .ok (keyOf name, rest))
    (h : ReadsMembers keyOf value acc members acc') (hne : members ≠ []) {fuel : Nat} (hfuel : members.length ≤ fuel)
    (rest : List Char) :
    readMembers key value fuel acc (commaSeparated (members.map fun m => member m.1 m.2) ++ '}' :: rest) =
      .ok (acc', rest) := by
  induction h generalizing fuel with
  | nil => exact absurd rfl hne
  | @cons acc acc₁ acc₂ name text members hread hrest ih =>
    obtain ⟨fuel, rfl⟩ : ∃ n, fuel = n + 1 := ⟨fuel - 1, by simp only [List.length_cons] at hfuel; omega⟩
    cases members with
    | nil =>
      cases hrest
      exact (readMembers_member hkey hread fuel rest).2
    | cons next members =>
      rw [List.map_cons, List.map_cons, commaSeparated, List.append_assoc, List.cons_append]
      · rw [(readMembers_member hkey hread fuel _).1]
        exact ih (by simp) (by simpa using hfuel)
      · simp

/-- The members of an object with its closing brace. -/
theorem readObject_commaSeparated {keyOf : String → κ} {key : Reader κ} {value : σ → κ → Reader σ} {acc acc' : σ}
    {members : List (String × List Char)} (hkey : ∀ name rest, key (quotedBody name ++ rest) = .ok (keyOf name, rest))
    (h : ReadsMembers keyOf value acc members acc') (rest : List Char) :
    readObject key value acc (commaSeparated (members.map fun m => member m.1 m.2) ++ '}' :: rest) = .ok (acc', rest) := by
  cases members with
  | nil =>
    cases h
    rfl
  | cons m members =>
    have hstart : ∃ r, commaSeparated ((m :: members).map fun m => member m.1 m.2) ++ '}' :: rest = '"' :: r := by
      cases members <;> simp [commaSeparated, member, ofString]
    have hfuel : (m :: members).length ≤
        (commaSeparated ((m :: members).map fun m => member m.1 m.2) ++ '}' :: rest).length + 1 := by
      have := length_le_commaSeparated ((m :: members).map fun m => member m.1 m.2)
      rw [List.length_map] at this
      rw [List.length_append]
      omega
    have hmembers := readMembers_commaSeparated hkey h (by simp) hfuel rest
    obtain ⟨r, hr⟩ := hstart
    rw [hr] at hmembers ⊢
    exact hmembers

/-! ## Shapes -/

theorem reads_string (s : String) : Reads readString (ofString s) s := by
  refine ⟨startsValue_cons.2 (by decide), fun rest _ => ?_⟩
  rw [ofString_eq, List.cons_append, readString, skipSpace_cons (by decide)]
  exact readKey_quotedBody s rest

theorem readsItems_appendItem {item : Reader α} {texts : List (List Char)} {values : List α}
    (h : List.Forall₂ (Reads item) texts values) (acc : List α) :
    ReadsItems (appendItem item) acc texts (acc ++ values) := by
  induction h generalizing acc with
  | nil => simpa using ReadsItems.nil acc
  | @cons text value texts values hread _ ih =>
    have hrest := ih (acc ++ [value])
    rw [List.append_assoc, List.singleton_append] at hrest
    exact ReadsItems.cons (hread.map fun v => acc ++ [v]) hrest

theorem reads_list {item : Nat → Reader α} {depth : Nat} {texts : List (List Char)} {values : List α}
    (h : List.Forall₂ (Reads (item depth)) texts values) : Reads (readList item (depth + 1)) (ofItems texts) values := by
  refine ⟨startsValue_cons.2 (by decide), fun rest _ => ?_⟩
  rw [ofItems, List.cons_append, readList, skipSpace_cons (by decide), List.append_assoc, List.singleton_append]
  exact readArray_commaSeparated (readsItems_appendItem h []) rest

theorem reads_fields {fields : List String} {field : Nat → σ → String → Reader σ} {acc acc' : σ} {depth : Nat}
    {members : List (String × List Char)} (h : ReadsMembers id (readField fields (field depth)) acc members acc') :
    Reads (readFields fields field acc (depth + 1)) (ofMembers members) acc' := by
  refine ⟨startsValue_cons.2 (by decide), fun rest _ => ?_⟩
  rw [ofMembers, List.cons_append, readFields, skipSpace_cons (by decide), List.append_assoc, List.singleton_append]
  exact readObject_commaSeparated readKey_quotedBody h rest

theorem reads_choice {ofName? : String → Option α} {name : String} {choice : α} (h : ofName? name = some choice)
    (depth : Nat) : Reads (readChoice ofName? depth) (ofString name) choice := by
  refine ⟨startsValue_cons.2 (by decide), fun rest _ => ?_⟩
  rw [ofString_eq, List.cons_append, readChoice, skipSpace_cons (by decide)]
  simp [readKey_quotedBody, choose, h, bind, Except.bind]

theorem reads_optional {value : Reader α} {text : List Char} {a : α} (h : Reads value text a)
    (hnull : ∀ r, text ≠ 'n' :: r) : Reads (readOptional value) text (some a) := by
  refine ⟨h.starts, fun rest hrest => ?_⟩
  obtain ⟨c, r, rfl, hspace, -⟩ := h.starts
  have hread := h.reads rest hrest
  rw [List.cons_append] at hread ⊢
  rw [readOptional, skipSpace_cons hspace]
  split
  · rename_i heq
    cases heq
    exact absurd rfl (hnull _)
  · rw [hread]
    rfl

/-- A whole text is one value. -/
theorem Reads.wholeText {value : Reader α} {text : List Char} {a : α} (h : Reads value text a) :
    readWholeText value text = .ok a := by
  rw [readWholeText, h.eq_ok]
  rfl

/-- A whole text is read where a value is, and nothing but space follows. -/
theorem readWholeText_eq_ok {value : Reader α} {s : List Char} {a : α} :
    readWholeText value s = .ok a ↔ ∃ rest, value s = .ok (a, rest) ∧ skipSpace rest = [] := by
  rw [readWholeText, bind_eq_ok]
  constructor
  · rintro ⟨⟨v, rest⟩, hread, hrest⟩
    dsimp only at hrest
    split at hrest
    · rename_i hspace
      cases hrest
      exact ⟨rest, hread, hspace⟩
    · cases hrest
  · rintro ⟨rest, hread, hspace⟩
    exact ⟨(a, rest), hread, if_pos hspace⟩

end SentenceQuery.Json
