import SentenceQuery.Proofs.Faults
import SentenceQuery.Proofs.Sentence.Progress
import SentenceQuery.Proofs.Sentence.Ranges

/-!
# The places of a sentence that are reported

That a clause is expected is reported by the sentence's own steps and by no reader of a clause (`NeverExpects`), so it is
reported where the path ends (`exists_reached_of_expected`). What a report says of the sentence is `IsReport`: the clauses
found and blanks stand before the place, and neither the clause nor those tried there just before it match behind it.
`ofSentence_offsets` puts this together with what holds of every place of the cursor and of every slice that is taken.
-/

namespace SentenceQuery

open Sentence

/-! ## Who reports a missing clause -/

/-- The fault is that a clause is missing. -/
def QueryError.IsExpected : QueryError → Prop
  | .wording (.expected _ _) => True
  | _ => False

/-- The step does not report a missing clause. -/
abbrev NeverExpects {α : Type} (x : Except QueryError α) : Prop := FailsOnly (fun e => ¬e.IsExpected) x

section Readers

variable (kind : Kind) (n : Node Rule)

theorem neverExpects_single : NeverExpects n.single := by
  unfold Node.single
  split
  · exact failsOnly_error id
  · exact failsOnly_ok _

theorem neverExpects_readColumns : NeverExpects (readColumns kind n) := by
  refine FailsOnly.mapM fun column _ => ?_
  unfold resolveColumn
  split
  · exact failsOnly_ok _
  · split
    · exact failsOnly_ok _
    · exact failsOnly_error id

theorem neverExpects_readColumnList : NeverExpects (readColumnList kind n) :=
  (neverExpects_single n).bind fun list _ => neverExpects_readColumns kind list

theorem neverExpects_lookup {α : Type} (x : Except LookupError α) : NeverExpects (x.mapError QueryError.lookup) := by
  intro e h
  obtain ⟨e', -, rfl⟩ := mapError_eq_error.1 h
  exact id

theorem neverExpects_readDataset : NeverExpects (readDataset n) := by
  unfold readDataset
  split
  · exact (neverExpects_lookup _).bind fun kind _ => FailsOnly.check id (failsOnly_ok _)
  · exact failsOnly_error id

theorem neverExpects_literalValue (op : Operator) : NeverExpects (literalValue op n) := by
  unfold literalValue
  split
  · split
    · exact failsOnly_ok _
    · exact failsOnly_error id
  · exact failsOnly_ok _
  · exact failsOnly_error id

theorem neverExpects_parseCriterion (text : List Char) (glue : Option Connective) :
    NeverExpects (parseCriterion text kind glue) := by
  unfold parseCriterion
  simp only
  split
  · split
    · exact failsOnly_error id
    · refine (neverExpects_lookup _).bind fun op _ => ?_
      split
      · exact failsOnly_error id
      · refine (neverExpects_literalValue _ op).bind fun value _ => ?_
        exact FailsOnly.check id (FailsOnly.check id (failsOnly_ok _))
  · exact failsOnly_error id

theorem neverExpects_splitCriteria (s : List Char) : NeverExpects (splitCriteria s) := by
  unfold splitCriteria
  simp only
  split
  · exact failsOnly_ok _
  · exact failsOnly_error id

theorem neverExpects_readFilter : NeverExpects (readFilter kind n) := by
  unfold readFilter
  refine (neverExpects_single n).bind fun body _ => ?_
  split
  · exact failsOnly_ok _
  · refine (neverExpects_single body).bind fun text _ => (neverExpects_splitCriteria _).bind fun cut _ => ?_
    exact FailsOnly.mapM fun segment _ => neverExpects_parseCriterion kind _ _

theorem neverExpects_readDefinition (groupFields : List String) (earlier : List ApplyDefinition) :
    NeverExpects (readDefinition kind groupFields earlier n) := by
  unfold readDefinition
  split
  · refine FailsOnly.check id (FailsOnly.check id ((neverExpects_lookup _).bind fun op _ => ?_))
    split
    · exact failsOnly_error id
    · split
      · exact failsOnly_error id
      · split
        · exact failsOnly_ok _
        · exact failsOnly_error id
  · exact failsOnly_error id

theorem neverExpects_readDefinitions (groupFields : List String) : NeverExpects (readDefinitions kind groupFields n) :=
  FailsOnly.foldlM (fun earlier d _ =>
    (neverExpects_readDefinition kind d groupFields earlier).bind fun _ _ => failsOnly_ok _) []

theorem neverExpects_readOrder : NeverExpects (readOrder kind n) := by
  unfold readOrder
  split
  · split
    · exact failsOnly_error id
    · exact (neverExpects_readColumns kind _).bind fun fields _ => failsOnly_ok _
  · exact failsOnly_error id

theorem neverExpects_readOptional {α : Type} (rule : Rule) (c : Cursor) (default : α)
    {read : Node Rule → Except QueryError α} (hread : ∀ n, NeverExpects (read n)) :
    NeverExpects (readOptional rule c default read) := by
  unfold readOptional
  split
  · exact (hread _).bind fun _ _ => failsOnly_ok _
  · exact failsOnly_ok _

theorem neverExpects_validate (p : Plan) : NeverExpects p.validate := by
  unfold Plan.validate
  refine FailsOnly.check id ?_
  split
  · exact failsOnly_error id
  · split
    · exact failsOnly_error id
    · exact failsOnly_ok _

end Readers

/-! ## Along the clauses -/

/-- The place is reached by trying these clauses from the start of the text. -/
def Reached (s : List Char) (tried : List Rule) (c : Cursor) : Prop :=
  ∃ before found passed, tried = before ++ passed ∧ Progress s before found passed c

namespace Reached

variable {s : List Char} {tried : List Rule} {c c' : Cursor}

theorem start (s : List Char) : Reached s [] (Cursor.start s) := ⟨[], [], [], rfl, Progress.start s⟩

theorem accept? (h : Reached s tried c) {rule : Rule} {n : Node Rule} (haccept : c.accept? rule = some (n, c')) :
    Reached s (tried ++ [rule]) c' := by
  obtain ⟨before, found, passed, rfl, hprogress⟩ := h
  obtain ⟨f, hfound⟩ := hprogress.find haccept
  exact ⟨_, _, _, (List.append_nil _).symm, hfound⟩

theorem readOptional {α : Type} (h : Reached s tried c) {rule : Rule} (hoptional : rule.isOptional = true)
    (hsilent : rule.isSilent = false) {default a : α} {read : Node Rule → Except QueryError α}
    (hread : Sentence.readOptional rule c default read = .ok (a, c')) : Reached s (tried ++ [rule]) c' := by
  rcases readOptional_eq_ok.1 hread with ⟨clause, haccept, -⟩ | ⟨hnone, -, rfl⟩
  · exact h.accept? haccept
  · obtain ⟨before, found, passed, rfl, hprogress⟩ := h
    exact ⟨before, found, passed ++ [rule], (List.append_assoc _ _ _), hprogress.pass hoptional hsilent hnone⟩

/-- The path from the start of the text leads here. -/
theorem path (h : Reached s tried c) : ∃ visited : List Cursor, visited.length = tried.length ∧
    ∀ rules, (Cursor.start s).path (tried ++ rules) = visited ++ c.path rules := by
  obtain ⟨before, found, passed, rfl, hprogress⟩ := h
  exact hprogress.path

end Reached

theorem expect_eq_error {clause : RequiredClause} {c : Cursor} {e : QueryError} :
    c.expect clause = .error e ↔
      c.accept? clause.rule = none ∧ e = .wording (.expected clause c.skipBlanks.offset) := by
  unfold Cursor.expect
  cases c.accept? clause.rule <;> simp [eq_comm]

/-- A missing clause is reported where the clauses before it were tried and it is not there. -/
theorem exists_reached_of_expected {sentence : String} {clause : RequiredClause} {n : Nat}
    (h : Plan.ofSentence sentence = .error (.wording (.expected clause n))) :
    ∃ tried later c, Reached sentence.toList tried c ∧ clauseRules = tried ++ clause.rule :: later ∧
      c.accept? clause.rule = none ∧ n = c.skipBlanks.offset := by
  have hmissing : ∀ {clause' c}, Cursor.expect clause' c = .error (.wording (.expected clause n)) →
      clause' = clause ∧ c.accept? clause'.rule = none ∧ n = c.skipBlanks.offset := by
    intro clause' c hexpect
    obtain ⟨hnone, he⟩ := expect_eq_error.1 hexpect
    cases he
    exact ⟨rfl, hnone, rfl⟩
  unfold Plan.ofSentence at h
  have h₀ := Reached.start sentence.toList
  rcases bind_eq_error.1 h with h | ⟨⟨dataset, c₁⟩, hdataset, h⟩
  · obtain ⟨rfl, hnone⟩ := hmissing h
    exact ⟨_, _, _, h₀, rfl, hnone⟩
  have h₁ := h₀.accept? (expect_eq_ok.1 hdataset)
  rcases bind_eq_error.1 h with h | ⟨⟨kind, id⟩, -, h⟩
  · exact absurd trivial (neverExpects_readDataset dataset _ h)
  rcases bind_eq_error.1 h with h | ⟨⟨groupFields, c₂⟩, hgroup, h⟩
  · exact absurd trivial (neverExpects_readOptional _ _ _ (neverExpects_readColumnList kind) _ h)
  have h₂ := h₁.readOptional rfl rfl hgroup
  rcases bind_eq_error.1 h with h | ⟨⟨filter, c₃⟩, hfilter, h⟩
  · obtain ⟨rfl, hnone⟩ := hmissing h
    exact ⟨_, _, _, h₂, rfl, hnone⟩
  have h₃ := h₂.accept? (expect_eq_ok.1 hfilter)
  rcases bind_eq_error.1 h with h | ⟨criteria, -, h⟩
  · exact absurd trivial (neverExpects_readFilter kind filter _ h)
  rcases bind_eq_error.1 h with h | ⟨⟨display, c₄⟩, hdisplay, h⟩
  · obtain ⟨rfl, hnone⟩ := hmissing h
    exact ⟨_, _, _, h₃, rfl, hnone⟩
  have h₄ := h₃.accept? (expect_eq_ok.1 hdisplay)
  rcases bind_eq_error.1 h with h | ⟨list, -, h⟩
  · exact absurd trivial (neverExpects_single display _ h)
  rcases bind_eq_error.1 h with h | ⟨displayFields, -, h⟩
  · exact absurd trivial (neverExpects_readColumns kind list _ h)
  rcases bind_eq_error.1 h with h | ⟨⟨applyDefs, c₅⟩, happly, h⟩
  · exact absurd trivial
      (neverExpects_readOptional _ _ _ (fun n => neverExpects_readDefinitions kind n groupFields) _ h)
  have h₅ := h₄.readOptional rfl rfl happly
  rcases bind_eq_error.1 h with h | ⟨⟨order, c₆⟩, hsort, h⟩
  · exact absurd trivial (neverExpects_readOptional _ _ _ (neverExpects_readOrder kind) _ h)
  have h₆ := h₅.readOptional rfl rfl hsort
  rcases bind_eq_error.1 h with h | ⟨⟨finish, c₇⟩, -, h⟩
  · obtain ⟨rfl, hnone⟩ := hmissing h
    exact ⟨_, _, _, h₆, rfl, hnone⟩
  rcases bind_eq_error.1 h with h | ⟨_, -, habsurd⟩
  · exact absurd trivial (neverExpects_validate _ _ h)
  · cases habsurd

/-- A sentence that is accepted is read to its end, with every clause tried. -/
theorem reached_of_ofSentence {sentence : String} {p : Plan} (h : Plan.ofSentence sentence = .ok p) :
    ∃ c, Reached sentence.toList clauseRules c ∧ c.rest = [] := by
  obtain ⟨head, c₂, filter, c₃, criteria, tail, hhead, hfilter, -, htail, -⟩ := ofSentence_eq_ok.1 h
  obtain ⟨dataset, c₁, hdataset, -, hgroup⟩ := readHead_eq_ok.1 hhead
  obtain ⟨display, c₄, c₅, c₆, finish, c₇, hdisplay, -, happly, hsort, hfinish⟩ := readTail_eq_ok.1 htail
  have h₂ := ((Reached.start sentence.toList).accept? hdataset).readOptional rfl rfl hgroup
  have h₄ := (h₂.accept? hfilter).accept? hdisplay
  have h₆ := (h₄.readOptional rfl rfl happly).readOptional rfl rfl hsort
  exact ⟨c₇, h₆.accept? hfinish, rest_of_accept?_finish hfinish⟩

/-! ## Reports -/

/-- What it says that a clause is expected at a byte: the clauses found before it, in their order and with blanks before each,
further rules that were passed over, the blanks before the place, and the text from there on. -/
structure IsReport (s : List Char) (clause : RequiredClause) (n : Nat) (found : List FoundClause) (passed : List Rule)
    (gap rest : List Char) : Prop where
  text : s = foundText found ++ (gap ++ rest)
  offset : n = byteSize (foundText found ++ gap)
  blank : Over isBlank gap ∧ ∀ f ∈ found, Over isBlank f.gap
  stops : Stops isBlank rest
  /-- a clause found is what its rule takes where it stands -/
  spans : ∀ left f right, found = left ++ f :: right →
    ∃ o, f.rule.match? (f.text ++ (foundText right ++ (gap ++ rest))) = some o ∧ o.text = f.text
  /-- the clauses found are among those up to the last of them, and only clauses that may be left out are not; then come
  those passed over, and then the one that is missing -/
  order : ∃ before later, clauseRules = before ++ (passed ++ clause.rule :: later) ∧
    (found.map FoundClause.rule).Sublist before ∧ before.getLast? = found.getLast?.map FoundClause.rule ∧
      ∀ rule ∈ before ++ passed, rule.isOptional = false → rule ∈ found.map FoundClause.rule
  missing : clause.rule.match? rest = none ∧ ∀ rule ∈ passed, rule.match? rest = none

/-- Where a clause is missing on the path, the report of it is right. -/
theorem exists_report {s : List Char} {tried later : List Rule} {c : Cursor} {clause : RequiredClause}
    (h : Reached s tried c) (hrules : clauseRules = tried ++ clause.rule :: later) (hnone : c.accept? clause.rule = none) :
    ∃ found passed gap, IsReport s clause c.skipBlanks.offset found passed gap c.skipBlanks.rest := by
  obtain ⟨before, found, passed, rfl, hprogress⟩ := h
  have hsilent : clause.rule.isSilent = false := isSilent_of_mem_clauseRules (by rw [hrules]; simp)
  have hrest : c.rest.takeWhile isBlank ++ c.rest.dropWhile isBlank = c.rest := List.takeWhile_append_dropWhile
  refine ⟨found, passed, c.rest.takeWhile isBlank, ?_, ?_, ?_, ?_, ?_, ?_, ?_⟩
  · exact hprogress.text.trans (congrArg (foundText found ++ ·) hrest.symm)
  · rw [byteSize_append, ← hprogress.offset]
    rfl
  · exact ⟨over_takeWhile c.rest, hprogress.gaps⟩
  · exact stops_dropWhile c.rest
  · intro left f right hfound
    obtain ⟨o, hmatch, htext⟩ := hprogress.spans left f right hfound
    exact ⟨o, (congrArg (fun r => f.rule.match? (f.text ++ (foundText right ++ r))) hrest).trans hmatch, htext⟩
  · exact ⟨before, later, by rw [hrules, List.append_assoc], hprogress.order, hprogress.last, hprogress.required⟩
  · exact ⟨(accept?_eq_none_iff hsilent).1 hnone, hprogress.missing⟩

/-- The places that are counted in a sentence are right. The cursor only goes on, through places between characters, and what
it takes from there on is a slice; a clause that is left out does not move it. A body is cut by byte ranges, each of which is a
slice of it, and so is a quoted literal without its quotes. An accepted sentence is read to its end. And where a clause is
reported as expected at a byte, the path ends: before the byte stand the clauses found, in their order and with blanks before
each, and behind it stands no blank and neither the clause nor one of those that were passed over at this place. -/
theorem ofSentence_offsets (sentence : String) :
    (∀ c ∈ sentencePath sentence, c.offset ≤ sentence.utf8ByteSize ∧ (⟨c.offset⟩ : String.Pos.Raw).IsValid sentence ∧
        slice? sentence.toList c.offset sentence.utf8ByteSize = some c.rest ∧
        slice? sentence.toList c.skipBlanks.offset sentence.utf8ByteSize = some c.skipBlanks.rest) ∧
      (sentencePath sentence).Pairwise (fun c c' => c.offset ≤ c'.offset) ∧
      (∀ (rule : Rule) (c : Cursor) (α : Type) (default : α) (read : Node Rule → Except QueryError α),
        c.accept? rule = none → readOptional rule c default read = .ok (default, c)) ∧
      (∀ body, cutByRanges? body = some (splitCriteria body)) ∧
      (∀ text o n column operator literal form ns inner forms, Rule.criterion.match? (trim text) = some o →
        o.nodes = n :: ns → n.inner = column :: operator :: literal :: inner → literal.inner = form :: forms →
          form.rule = .string → slice? form.text 1 (byteSize form.text - 1) = some (form.text.drop 1).dropLast) ∧
      (∀ p, Plan.ofSentence sentence = .ok p → (sentencePath sentence).length = clauseRules.length + 1 ∧
        ∃ c, (sentencePath sentence).getLast? = some c ∧ c.rest = []) ∧
      ∀ clause n, Plan.ofSentence sentence = .error (.wording (.expected clause n)) →
        n ≤ sentence.utf8ByteSize ∧ (⟨n⟩ : String.Pos.Raw).IsValid sentence ∧
          ∃ found passed gap rest, IsReport sentence.toList clause n found passed gap rest ∧
            ∃ c, (sentencePath sentence).getLast? = some c ∧ c.skipBlanks = ⟨n, rest⟩ := by
  have hsize : sentence.utf8ByteSize = byteSize sentence.toList := by
    rw [← utf8ByteSize_ofList, String.ofList_toList]
  have hlegal : ∀ {u t : List Char}, sentence.toList = u ++ t →
      byteSize u ≤ sentence.utf8ByteSize ∧ (⟨byteSize u⟩ : String.Pos.Raw).IsValid sentence := by
    intro u t hs
    refine ⟨?_, isValid_iff.2 ⟨u, t, hs, rfl⟩⟩
    rw [hsize, hs, byteSize_append]
    exact Nat.le_add_right _ _
  refine ⟨fun c hc => ?_, pairwise_path _ _, fun rule c α default read hnone => ?_, cutByRanges?_eq, ?_, fun p hp => ?_,
    fun clause n h => ?_⟩
  · obtain ⟨before, found, passed, hprogress⟩ :=
      exists_progress_of_mem_path (fun rule => isSilent_of_mem_clauseRules) (Progress.start sentence.toList) hc
    obtain ⟨hle, hvalid⟩ := hlegal hprogress.text
    rw [← hprogress.offset] at hle hvalid
    rw [hsize] at hle ⊢
    exact ⟨hle, hvalid, hprogress.slice?_rest, hprogress.slice?_skipBlanks⟩
  · exact readOptional_eq_ok.2 (Or.inr ⟨hnone, rfl, rfl⟩)
  · intro text o n column operator literal form ns inner forms hmatch hnode hinner hform hrule
    exact slice?_of_criterion hmatch hnode hinner hform hrule
  · obtain ⟨c, hreached, hrest⟩ := reached_of_ofSentence hp
    obtain ⟨visited, hlength, hpath⟩ := hreached.path
    have hsentence : sentencePath sentence = visited ++ [c] := by
      rw [sentencePath, ← List.append_nil clauseRules, hpath]
      rfl
    refine ⟨?_, c, ?_, hrest⟩
    · rw [hsentence, List.length_append, hlength, List.length_singleton]
    · rw [hsentence, List.getLast?_concat]
  · obtain ⟨tried, later, c, hreached, hrules, hnone, rfl⟩ := exists_reached_of_expected h
    obtain ⟨found, passed, gap, hreport⟩ := exists_report hreached hrules hnone
    obtain ⟨visited, -, hpath⟩ := hreached.path
    have hrequired : clause.rule.isOptional = false := by cases clause <;> rfl
    have hsentence : sentencePath sentence = visited ++ [c] := by
      rw [sentencePath, hrules, hpath, Cursor.path, hnone]
      simp [hrequired]
    have htext := hreport.text
    rw [← List.append_assoc] at htext
    obtain ⟨hle, hvalid⟩ := hlegal htext
    rw [← hreport.offset] at hle hvalid
    exact ⟨hle, hvalid, found, passed, gap, _, hreport, c, by rw [hsentence, List.getLast?_concat], rfl⟩

/-- A clause that is missing behind a blank of three bytes and one of two, an optional clause that is left out, a sentence that
is accepted, and a literal whose three characters have seven bytes. -/
theorem ofSentence_offsets_multibyte :
    (Plan.ofSentence "In courses dataset c,find all entries;\u2003\u00a0show\u00a0Average." =
        .error (.wording (.expected .display 43)) ∧
      (⟨43⟩ : String.Pos.Raw).IsValid "In courses dataset c,find all entries;\u2003\u00a0show\u00a0Average." ∧
      ∃ found passed gap rest, IsReport "In courses dataset c,find all entries;\u2003\u00a0show\u00a0Average.".toList
        .display 43 found passed gap rest) ∧
      ((Cursor.start "\u2003, find all entries;".toList).accept? .groupClause = none ∧
        readOptional .groupClause (Cursor.start "\u2003, find all entries;".toList) [] (readColumnList .courses) =
          .ok ([], Cursor.start "\u2003, find all entries;".toList)) ∧
      ((∃ p, Plan.ofSentence "In courses dataset c,find all entries;\u2003show Average\u3000." = .ok p) ∧
        (sentencePath "In courses dataset c,find all entries;\u2003show Average\u3000.").length = 8) ∧
      slice? "\"é\u3000ü\"".toList 1 8 = some "é\u3000ü".toList := by
  have hmissing : Plan.ofSentence "In courses dataset c,find all entries;\u2003\u00a0show\u00a0Average." =
      .error (.wording (.expected .display 43)) := by
    decide +kernel
  have hnone : (Cursor.start "\u2003, find all entries;".toList).accept? .groupClause = none := by rfl
  have haccepted : ∃ p, Plan.ofSentence "In courses dataset c,find all entries;\u2003show Average\u3000." = .ok p :=
    ⟨_, by rfl⟩
  have hcriterion : Rule.criterion.match? (trim "Title is \"é\u3000ü\"".toList) =
      some ⟨"Title is \"é\u3000ü\"".toList, [⟨.criterion, 0, "Title is \"é\u3000ü\"".toList,
        [⟨.field, 0, "Title".toList, []⟩, ⟨.operator, 6, "is".toList, [⟨.stringOp, 6, "is".toList, []⟩]⟩,
          ⟨.literal, 9, "\"é\u3000ü\"".toList, [⟨.string, 9, "\"é\u3000ü\"".toList, []⟩]⟩, ⟨.endOfText, 18, [], []⟩]⟩], []⟩ := by
    rfl
  obtain ⟨-, -, hoptional, -, hliteral, -, hreport⟩ :=
    ofSentence_offsets "In courses dataset c,find all entries;\u2003\u00a0show\u00a0Average."
  obtain ⟨-, -, -, -, -, hread, -⟩ := ofSentence_offsets "In courses dataset c,find all entries;\u2003show Average\u3000."
  obtain ⟨-, hvalid, found, passed, gap, rest, hwhere, -⟩ := hreport .display 43 hmissing
  exact ⟨⟨hmissing, hvalid, found, passed, gap, rest, hwhere⟩, ⟨hnone, hoptional _ _ _ _ _ hnone⟩,
    ⟨haccepted, (hread _ haccepted.choose_spec).1⟩, hliteral _ _ _ _ _ _ _ _ _ _ hcriterion rfl rfl rfl rfl⟩

end SentenceQuery
