import SentenceQuery.Proofs.Sentence.Reading
import SentenceQuery.Proofs.Sentence.Vocabulary
import SentenceQuery.Proofs.Text.Slices

/-!
# How far a sentence is read

The clauses of a sentence are tried in a fixed order, and the cursor takes a path through the sentence (`Cursor.path`). What
holds of a place on the path (`Progress`): the text before it is the clauses found so far with blanks before each, a clause is
what its rule takes where it stands, and the rules tried since the last clause found do not match behind the blanks that
stand here. One lemma says that a clause found keeps this, one that a clause left out does (`Progress.find`,
`Progress.pass`); so it holds all along the path (`exists_progress_of_mem_path`).
-/

namespace SentenceQuery

/-! ## The path -/

/-- The clauses of a sentence in their order. -/
def clauseRules : List Rule :=
  [.datasetClause, .groupClause, .filterClause, .displayClause, .applyClause, .sortClause, .finish]

/-- The clause may be left out. -/
def Rule.isOptional : Rule → Bool
  | .groupClause | .applyClause | .sortClause => true
  | _ => false

theorem isSilent_of_mem_clauseRules {rule : Rule} (h : rule ∈ clauseRules) : rule.isSilent = false := by
  revert rule
  decide

/-- The places that a cursor takes when these clauses are tried one after the other: that where it stands, and one behind
each clause. A clause that may be left out leaves the cursor where it is; without one that may not the path ends. -/
def Cursor.path : List Rule → Cursor → List Cursor
  | [], c => [c]
  | rule :: rules, c => c :: match c.accept? rule with
    | some (_, c') => Cursor.path rules c'
    | none => if rule.isOptional then Cursor.path rules c else []

/-- The places that the cursor takes in a sentence. -/
def sentencePath (sentence : String) : List Cursor := (Cursor.start sentence.toList).path clauseRules

/-! ## Single steps -/

/-- A clause is there exactly where its rule matches behind the blanks. -/
theorem accept?_eq_none_iff {rule : Rule} (hrule : rule.isSilent = false) {c : Cursor} :
    c.accept? rule = none ↔ rule.match? (c.rest.dropWhile isBlank) = none := by
  have hshift : rule.pattern.run c.skipBlanks.offset c.skipBlanks.rest =
      (rule.match? (c.rest.dropWhile isBlank)).map (Outcome.shift c.skipBlanks.offset) := by
    rw [Rule.match?, ← Pattern.run_shift, Nat.zero_add]
    rfl
  constructor
  · intro h
    cases hmatch : rule.match? (c.rest.dropWhile isBlank) with
    | none => rfl
    | some o =>
      rw [hmatch, Option.map_some] at hshift
      obtain ⟨n, hn, -⟩ := complete_of_run hrule hshift
      rw [accept?_eq_some.2 ⟨_, [], hshift, hn, rfl⟩] at h
      cases h
  · intro h
    rw [h, Option.map_none] at hshift
    unfold Cursor.accept?
    simp only [hshift]

/-- What a clause takes: the blanks where the cursor stands, the text of the clause, and the place behind it. -/
theorem accept?_splits {rule : Rule} {c c' : Cursor} {n : Node Rule} (h : c.accept? rule = some (n, c')) :
    ∃ gap text o, Over isBlank gap ∧ c.rest = gap ++ (text ++ c'.rest) ∧
      c'.offset = c.offset + byteSize (gap ++ text) ∧ rule.match? (text ++ c'.rest) = some o ∧ o.text = text := by
  obtain ⟨o, ns, hrun, -, rfl⟩ := accept?_eq_some.1 h
  have hsplit : c.skipBlanks.rest = o.text ++ o.rest := Pattern.run_splits hrun
  have hrest : c.rest.takeWhile isBlank ++ c.skipBlanks.rest = c.rest := List.takeWhile_append_dropWhile
  rw [← Nat.zero_add c.skipBlanks.offset, Pattern.run_shift, Option.map_eq_some_iff] at hrun
  obtain ⟨o', hmatch, rfl⟩ := hrun
  rw [hsplit] at hrest hmatch
  refine ⟨_, _, o', over_takeWhile c.rest, hrest.symm, ?_, hmatch, rfl⟩
  simp only [Cursor.skipBlanks, byteSize_append, Nat.add_assoc]

theorem offset_le_of_accept? {rule : Rule} {c c' : Cursor} {n : Node Rule} (h : c.accept? rule = some (n, c')) :
    c.offset ≤ c'.offset := by
  obtain ⟨gap, text, -, -, -, hoffset, -⟩ := accept?_splits h
  rw [hoffset]
  exact Nat.le_add_right _ _

/-- The path only goes on. -/
theorem offset_le_of_mem_path {rules : List Rule} {c c' : Cursor} (h : c' ∈ c.path rules) : c.offset ≤ c'.offset := by
  induction rules generalizing c with
  | nil => exact Nat.le_of_eq (congrArg Cursor.offset (List.mem_singleton.1 h).symm)
  | cons rule rules ih =>
    rw [Cursor.path, List.mem_cons] at h
    rcases h with rfl | h
    · exact Nat.le_refl _
    · split at h
      · rename_i haccept
        exact Nat.le_trans (offset_le_of_accept? haccept) (ih h)
      · split at h
        · exact ih h
        · cases h

theorem pairwise_path (rules : List Rule) (c : Cursor) :
    (c.path rules).Pairwise fun c₁ c₂ => c₁.offset ≤ c₂.offset := by
  induction rules generalizing c with
  | nil => exact List.pairwise_singleton _ c
  | cons rule rules ih =>
    rw [Cursor.path, List.pairwise_cons]
    split
    · rename_i haccept
      exact ⟨fun c' hc' => Nat.le_trans (offset_le_of_accept? haccept) (offset_le_of_mem_path hc'), ih _⟩
    · split
      · exact ⟨fun c' hc' => offset_le_of_mem_path hc', ih _⟩
      · exact ⟨fun c' hc' => absurd hc' List.not_mem_nil, List.Pairwise.nil⟩

/-! ## Progress -/

/-- A clause that was found: the blanks before it, its rule, and its text. -/
structure FoundClause where
  gap : List Char
  rule : Rule
  text : List Char

/-- The text of clauses that stand one behind the other. -/
def foundText (found : List FoundClause) : List Char := found.flatMap fun f => f.gap ++ f.text

theorem foundText_concat (found : List FoundClause) (f : FoundClause) :
    foundText (found ++ [f]) = foundText found ++ (f.gap ++ f.text) := by
  simp [foundText]

/-- A place in the text `s` that is behind the clauses found. The rules tried are those in `before`, up to the last that
was found, and then those in `passed`. -/
structure Progress (s : List Char) (before : List Rule) (found : List FoundClause) (passed : List Rule) (c : Cursor) :
    Prop where
  text : s = foundText found ++ c.rest
  offset : c.offset = byteSize (foundText found)
  gaps : ∀ f ∈ found, Over isBlank f.gap
  /-- a clause is what its rule takes where it stands -/
  spans : ∀ left f right, found = left ++ f :: right →
    ∃ o, f.rule.match? (f.text ++ (foundText right ++ c.rest)) = some o ∧ o.text = f.text
  order : (found.map FoundClause.rule).Sublist before
  last : before.getLast? = found.getLast?.map FoundClause.rule
  /-- only clauses that may be left out are missing so far -/
  required : ∀ rule ∈ before ++ passed, rule.isOptional = false → rule ∈ found.map FoundClause.rule
  missing : ∀ rule ∈ passed, rule.match? (c.rest.dropWhile isBlank) = none
  /-- the path from the start of the text goes on from here -/
  path : ∃ visited : List Cursor, visited.length = (before ++ passed).length ∧
    ∀ rules, (Cursor.start s).path (before ++ passed ++ rules) = visited ++ c.path rules

namespace Progress

variable {s : List Char} {before passed : List Rule} {found : List FoundClause} {c c' : Cursor} {rule : Rule}

theorem start (s : List Char) : Progress s [] [] [] (Cursor.start s) where
  text := rfl
  offset := rfl
  gaps := nofun
  spans left f right h := by simp at h
  order := List.Sublist.refl _
  last := rfl
  required := nofun
  missing := nofun
  path := ⟨[], rfl, fun _ => rfl⟩

/-- A clause found is one more clause before the place behind it. -/
theorem find (h : Progress s before found passed c) {n : Node Rule} (haccept : c.accept? rule = some (n, c')) :
    ∃ f : FoundClause, Progress s (before ++ passed ++ [rule]) (found ++ [f]) [] c' := by
  obtain ⟨gap, text, o, hgap, hrest, hoffset, hmatch, htext⟩ := accept?_splits haccept
  refine ⟨⟨gap, rule, text⟩, ?_, ?_, ?_, ?_, ?_, ?_, ?_, nofun, ?_⟩
  · rw [foundText_concat, h.text, hrest]
    simp
  · rw [foundText_concat, byteSize_append, hoffset, h.offset]
  · exact List.forall_mem_append.2 ⟨h.gaps, List.forall_mem_singleton.2 hgap⟩
  · -- the clause just found is the last one, or the one in question stood there before
    intro left f right hsplit
    rcases List.eq_nil_or_concat right with rfl | ⟨right, g, rfl⟩
    · obtain ⟨rfl, hf⟩ := List.append_inj' hsplit rfl
      obtain ⟨rfl, -⟩ := List.cons.inj hf
      exact ⟨o, hmatch, htext⟩
    · rw [List.concat_eq_append, ← List.cons_append, ← List.append_assoc] at hsplit
      obtain ⟨hleft, hg⟩ := List.append_inj' hsplit rfl
      obtain ⟨rfl, -⟩ := List.cons.inj hg
      obtain ⟨o', hmatch', htext'⟩ := h.spans left f right hleft
      refine ⟨o', ?_, htext'⟩
      rw [List.concat_eq_append, foundText_concat]
      simpa [hrest] using hmatch'
  · rw [List.map_append]
    exact (h.order.trans (List.sublist_append_left _ _)).append (List.Sublist.refl _)
  · simp
  · intro r hr hoptional
    rw [List.append_nil, List.mem_append, List.mem_singleton] at hr
    rw [List.map_append, List.mem_append]
    rcases hr with hr | rfl
    · exact Or.inl (h.required r hr hoptional)
    · exact Or.inr List.mem_cons_self
  · obtain ⟨visited, hlength, hpath⟩ := h.path
    refine ⟨visited ++ [c], by simp [hlength, Nat.add_assoc], fun rules => ?_⟩
    rw [List.append_nil, List.append_assoc, hpath, List.singleton_append, Cursor.path, haccept, List.append_assoc]
    rfl

/-- A clause that is not there is one more that was tried at this place. -/
theorem pass (h : Progress s before found passed c) (hoptional : rule.isOptional = true)
    (hsilent : rule.isSilent = false) (haccept : c.accept? rule = none) :
    Progress s before found (passed ++ [rule]) c where
  text := h.text
  offset := h.offset
  gaps := h.gaps
  spans := h.spans
  order := h.order
  last := h.last
  required := by
    intro r hr hr'
    rw [← List.append_assoc, List.mem_append, List.mem_singleton] at hr
    rcases hr with hr | rfl
    · exact h.required r hr hr'
    · rw [hoptional] at hr'
      cases hr'
  missing := List.forall_mem_append.2 ⟨h.missing, List.forall_mem_singleton.2 ((accept?_eq_none_iff hsilent).1 haccept)⟩
  path := by
    obtain ⟨visited, hlength, hpath⟩ := h.path
    refine ⟨visited ++ [c], by simp [hlength, Nat.add_assoc], fun rules => ?_⟩
    rw [← List.append_assoc, List.append_assoc, hpath, List.singleton_append, Cursor.path, haccept, List.append_assoc]
    simp only [hoptional, if_true]
    rfl

/-- The place is between two characters of the text, and what stands behind it is a slice. -/
theorem slice?_rest (h : Progress s before found passed c) : slice? s c.offset (byteSize s) = some c.rest :=
  slice?_eq_some.2 ⟨foundText found, [], by rw [List.append_nil]; exact h.text, h.offset, by
    rw [congrArg byteSize h.text, byteSize_append]⟩

/-- So is the place behind the blanks. -/
theorem slice?_skipBlanks (h : Progress s before found passed c) :
    slice? s c.skipBlanks.offset (byteSize s) = some c.skipBlanks.rest := by
  have hrest : c.rest.takeWhile isBlank ++ c.skipBlanks.rest = c.rest := List.takeWhile_append_dropWhile
  have htext : s = (foundText found ++ c.rest.takeWhile isBlank) ++ c.skipBlanks.rest := by
    rw [List.append_assoc, hrest]
    exact h.text
  have hoffset : c.skipBlanks.offset = byteSize (foundText found ++ c.rest.takeWhile isBlank) := by
    rw [byteSize_append, ← h.offset]
    rfl
  refine slice?_eq_some.2 ⟨_, [], by rw [List.append_nil]; exact htext, hoffset, ?_⟩
  rw [congrArg byteSize htext, byteSize_append]

end Progress

/-- What holds at the start of a path holds, with more clauses tried, all along it. -/
theorem exists_progress_of_mem_path {rules : List Rule} (hrules : ∀ rule ∈ rules, rule.isSilent = false)
    {s : List Char} {before passed : List Rule} {found : List FoundClause} {c c' : Cursor}
    (h : Progress s before found passed c) (hmem : c' ∈ c.path rules) :
    ∃ before' found' passed', Progress s before' found' passed' c' := by
  induction rules generalizing before found passed c with
  | nil =>
    rw [List.mem_singleton.1 hmem]
    exact ⟨_, _, _, h⟩
  | cons rule rules ih =>
    obtain ⟨hsilent, hrules⟩ := List.forall_mem_cons.1 hrules
    rw [Cursor.path, List.mem_cons] at hmem
    rcases hmem with rfl | hmem
    · exact ⟨_, _, _, h⟩
    · split at hmem
      · rename_i haccept
        obtain ⟨f, hfound⟩ := h.find haccept
        exact ih hrules hfound hmem
      · rename_i haccept
        split at hmem
        · rename_i hoptional
          exact ih hrules (h.pass hoptional hsilent haccept) hmem
        · cases hmem

end SentenceQuery
