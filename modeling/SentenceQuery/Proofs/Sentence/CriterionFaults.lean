import SentenceQuery.Proofs.Grammar.LongerPhrase
import SentenceQuery.Proofs.Sentence.FilterText

/-!
# What a criterion is refused for

A criterion over a column of the kind is refused for its literal or for the types of its parts. A literal that is written
well counts by its type, which must be that of the operator, and then the column's must be (`parseCriterion_typed`). Any
other text in its place is reported as a literal of the wrong form, unless it hides the operator
(`parseCriterion_malformed`).
-/

namespace SentenceQuery

open Grammar

/-! ## A column, a phrase and a text -/

variable {kind : Kind} {column : Column} {op : Operator}

/-- The text of a criterion has blanks at neither end if that in the place of the literal has none. -/
theorem trimmed_criterionText (hcolumn : column ∈ kind.columns) (op : Operator) (g₁ g₂ : List Char) {l : List Char}
    (hl : Trimmed l) : Trimmed (column.display.toList ++ (g₁ ++ (op.phrase.toList ++ (g₂ ++ l)))) :=
  (isRunText_of_fieldText (fieldText_display hcolumn)).trimmed.append g₁ ((isRunText_phrase op).trimmed.append g₂ hl)

/-- Where the phrase behind a column is read, the text in the place of the literal says what is answered. -/
theorem parseCriterion_of_readsPhrase (hcolumn : column ∈ kind.columns) (glue : Option Connective)
    {g₁ g₂ l : List Char} {form : Rule} (hne₁ : g₁ ≠ []) (hg₁ : Over isGap g₁) (hne₂ : g₂ ≠ []) (hg₂ : Over isGap g₂)
    (hop : ReadsPhrase op (g₂ ++ l)) (hl : Trimmed l)
    (hliteral : ∀ start, Grammar.literal.run start l = some ⟨l, [⟨.literal, start, l, [⟨form, start, l, []⟩]⟩], []⟩) :
    ∃ start, parseCriterion (column.display.toList ++ (g₁ ++ (op.phrase.toList ++ (g₂ ++ l)))) kind glue =
      literalValue op ⟨form, start, l, []⟩ >>= fun value =>
        answerUnless (typeFault? op value.fieldType (some column.type)) ⟨column.field, op, value, glue⟩ := by
  have hgap : Stops isGap l := fun c hc => not_isGap_of_not_isBlank (hl.start c hc)
  obtain ⟨n, hrun, hn⟩ :=
    run_criterion_of_parts (fieldText_display hcolumn) hne₁ hg₁ hne₂ hg₂ hop hgap hliteral 0
  rw [← (trimmed_criterionText hcolumn op g₁ g₂ hl).trim_eq] at hrun
  obtain ⟨start, hreads⟩ := parseCriterion_of_reads kind glue hrun hn
  rw [String.ofList_toList, Kind.resolve?_display hcolumn] at hreads
  simp only [Kind.fieldType?_of_mem hcolumn] at hreads
  exact ⟨start, hreads⟩

/-! ## Types -/

/-- A criterion whose literal is written well is refused only for the types of its parts. -/
theorem parseCriterion_of_spaced (hcolumn : column ∈ kind.columns) {l : Literal} (hl : l.WellFormed)
    (glue : Option Connective) {t : List Char} (ht : Spaced [column.display.toList, op.phrase.toList, l.written] t) :
    parseCriterion t kind glue =
      answerUnless (typeFault? op l.value.fieldType (some column.type)) ⟨column.field, op, l.value, glue⟩ := by
  simp only [spaced_cons_cons, spaced_singleton] at ht
  obtain ⟨g₁, _, hne₁, hg₁, ⟨g₂, _, hne₂, hg₂, rfl, rfl⟩, rfl⟩ := ht
  obtain ⟨form, hform, hvalue⟩ := (Literal.literalText hl).exists_form
  obtain ⟨c, r, hhead, -, halpha⟩ := hform.head
  have hop : ReadsPhrase op (g₂ ++ l.written) :=
    readsPhrase_append op hne₂ hg₂ (by rw [hhead]; exact stops_cons.2 halpha)
  obtain ⟨start, hreads⟩ := parseCriterion_of_readsPhrase hcolumn glue hne₁ hg₁ hne₂ hg₂ hop
    (isRunText_of_literal hl).trimmed (run_literal_of_form hform)
  rw [hreads, hvalue]
  rfl

/-- What is reported of the types of a criterion. -/
theorem typeFault?_eq_some {literal : FieldType} {column : Option FieldType} {e : QueryError}
    (h : typeFault? op literal column = some e) :
    e.kind = "TypeMismatch" ∧ e.message = "Type mismatch: " ++ op.phrase ++ " requires a " ++ op.operandType.name ++
      (if literal ≠ op.operandType then " value" else " field") := by
  unfold typeFault? at h
  by_cases hliteral : literal = op.operandType
  · rw [if_neg (not_not.2 hliteral)] at h ⊢
    split at h
    · obtain rfl := Option.some.inj h
      exact ⟨rfl, rfl⟩
    · cases h
  · rw [if_pos hliteral] at h ⊢
    obtain rfl := Option.some.inj h
    exact ⟨rfl, rfl⟩

/-- A criterion over a column of the kind whose literal is written well is accepted exactly where the operator compares the
type of both, and it is then the one that is written. If the literal is of the other type, this is reported, and only else
the type of the column. -/
theorem parseCriterion_typed (hcolumn : column ∈ kind.columns) {l : Literal} (hl : l.WellFormed) (glue : Option Connective)
    {t : List Char} (ht : Spaced [column.display.toList, op.phrase.toList, l.written] t) :
    ((∃ c, parseCriterion t kind glue = .ok c) ↔ op.operandType = l.value.fieldType ∧ op.operandType = column.type) ∧
      (∀ c, parseCriterion t kind glue = .ok c → c = ⟨column.field, op, l.value, glue⟩) ∧
      ∀ e, parseCriterion t kind glue = .error e → e.kind = "TypeMismatch" ∧
        e.message = "Type mismatch: " ++ op.phrase ++ " requires a " ++ op.operandType.name ++
          (if l.value.fieldType ≠ op.operandType then " value" else " field") := by
  rw [parseCriterion_of_spaced hcolumn hl glue ht]
  refine ⟨?_, fun c hc => (answerUnless_eq_ok.1 hc).2.symm, fun e he => ?_⟩
  · simp only [answerUnless_eq_ok, exists_and_left, exists_eq', and_true, typeFault?_eq_none, Option.some.injEq]
    exact and_congr eq_comm eq_comm
  · have hfault := fault?_eq_some.2 he
    rw [fault?_answerUnless] at hfault
    exact typeFault?_eq_some hfault

theorem title_mem_columns : (⟨"Title", "title", .text⟩ : Column) ∈ Kind.courses.columns := by decide

/-- A criterion that is accepted, one in which neither the literal nor the column is of the right type, and one in which the
column is not. -/
theorem parseCriterion_typed_three :
    parseCriterion "Full Name is not  \"is not\"".toList .rooms (some .and) =
        .ok ⟨"fullname", .text .isNot, .text "is not", some .and⟩ ∧
      (∃ e, parseCriterion "Title is less than \"5\"".toList .courses none = .error e ∧
        e.message = "Type mismatch: is less than requires a number value") ∧
      ∃ e, parseCriterion "Title is less than -4.5".toList .courses none = .error e ∧
        e.message = "Type mismatch: is less than requires a number field" := by
  have hgaps : Spaced ["Full Name".toList, "is not".toList, "\"is not\"".toList] "Full Name is not  \"is not\"".toList :=
    Spaced.more (g := [' ']) (by decide) (by decide) (Spaced.more (g := [' ', ' ']) (by decide) (by decide) (Spaced.last _))
  have haccepted := @parseCriterion_typed .rooms ⟨"Full Name", "fullname", .text⟩ (.text .isNot) (by decide)
    (.text "is not") (by decide) (some .and) _ hgaps
  have hvalue := @parseCriterion_typed .courses ⟨"Title", "title", .text⟩ (.number .lessThan) title_mem_columns
    (.text "5") (by decide) none "Title is less than \"5\"".toList (spaced_furtherText _ _)
  have hfield := @parseCriterion_typed .courses ⟨"Title", "title", .text⟩ (.number .lessThan) title_mem_columns
    (.number ⟨true, ['4'], some ['5']⟩) (by decide) none "Title is less than -4.5".toList (spaced_furtherText _ _)
  obtain ⟨c, hc⟩ := haccepted.1.2 ⟨rfl, rfl⟩
  obtain ⟨e, he⟩ := exists_error fun hok => absurd (hvalue.1.1 hok).1 (by decide)
  obtain ⟨e', he'⟩ := exists_error fun hok => absurd (hfield.1.1 hok).2 (by decide)
  refine ⟨haccepted.2.1 c hc ▸ hc, ⟨e, he, ?_⟩, e', he', ?_⟩
  · exact (hvalue.2.2 e he).2
  · exact (hfield.2.2 e' he').2

/-! ## Texts that are no literal -/

theorem not_literalForm {l : List Char} (h : ∀ m : Literal, m.WellFormed → l ≠ m.written) (form : Rule) :
    ¬LiteralForm form l := by
  intro hform
  cases hform with
  | @number n hn => exact h (.number n) hn rfl
  | @string v hv => exact h (.text (String.ofList v)) (by simpa [Literal.WellFormed] using hv) (by simp [Literal.written])

/-- A text with a character that no number has, and without a quote in front, is no literal. -/
theorem ne_written {l : List Char} {c : Char} (hc : c ∈ l) (hnumeral : isNumeralChar c = false)
    (hquote : Stops (fun d => d = '"') l) : ∀ m : Literal, m.WellFormed → l ≠ m.written := by
  rintro m hm rfl
  cases m with
  | number n =>
    have hchar := Numeral.over_isNumeralChar hm c hc
    rw [hnumeral] at hchar
    cases hchar
  | text v => exact absurd (stops_cons.1 hquote) (by decide)

/-- A text that is neither a number nor a text in quotes is reported as a literal of the wrong form, behind any operator.
Only where `is` runs into a word that begins with `not` no operator is found, and the whole criterion is reported. -/
theorem parseCriterion_malformed (hcolumn : column ∈ kind.columns) {g₁ g₂ l t : List Char}
    (hne₁ : g₁ ≠ []) (hg₁ : Over isGap g₁) (hne₂ : g₂ ≠ []) (hg₂ : Over isGap g₂) (hl : Trimmed l)
    (hmalformed : ∀ m : Literal, m.WellFormed → l ≠ m.written)
    (hlonger : ¬LongerPhraseStands op (op.phrase.toList ++ (g₂ ++ l)))
    (ht : t = column.display.toList ++ (g₁ ++ (op.phrase.toList ++ (g₂ ++ l)))) (glue : Option Connective) :
    ∃ e, parseCriterion t kind glue = .error e ∧ e.kind = "GrammarError" ∧
      e.message = "Syntax error: " ++
        (if RunsIntoNot op g₂ l then "unparseable criteria: " ++ String.ofList t
          else "invalid " ++ op.operandType.name ++ " literal") := by
  have hgap : Stops isGap l := fun c hc => not_isGap_of_not_isBlank (hl.start c hc)
  by_cases hnot : RunsIntoNot op g₂ l
  · have hnone : Rule.criterion.match? (trim t) = none := by
      rw [ht, (trimmed_criterionText hcolumn op g₁ g₂ hl).trim_eq]
      exact run_criterion_eq_none op (fieldText_display hcolumn) hne₁ hg₁
        (run_operator_eq_none_of_runsIntoNot hnot hlonger) 0
    refine ⟨.wording (.unparseableCriterion (String.ofList t)), ?_, rfl, ?_⟩
    · unfold parseCriterion
      rw [hnone]
    · rw [if_pos hnot]
      rfl
  · have hop := readsPhrase_of_no_longer hne₂ hg₂ hgap hlonger hnot
    obtain ⟨start, hreads⟩ := parseCriterion_of_readsPhrase hcolumn glue hne₁ hg₁ hne₂ hg₂ hop hl
      (run_literal_of_no_form hl.ne_nil (not_literalForm hmalformed))
    refine ⟨.wording (.invalidLiteral op.operandType), ?_, rfl, ?_⟩
    · rw [ht, hreads]
      rfl
    · rw [if_neg hnot]
      rfl

/-- A number that is not one, and a text without quotes that hides its operator. -/
theorem parseCriterion_malformed_two :
    (∃ e, parseCriterion "Average is less than 9x".toList .courses none = .error e ∧
        e.kind = "GrammarError" ∧ e.message = "Syntax error: invalid number literal") ∧
      ∃ e, parseCriterion "Title is notable".toList .courses none = .error e ∧
        e.kind = "GrammarError" ∧ e.message = "Syntax error: unparseable criteria: Title is notable" := by
  have hne : [' '] ≠ [] := List.cons_ne_nil _ _
  have hgap : Over isGap [' '] := by decide
  have hnumber : Trimmed "9x".toList := ⟨by decide, by decide, by decide⟩
  have hword : Trimmed "notable".toList := ⟨by decide, by decide, by decide⟩
  constructor
  · exact @parseCriterion_malformed .courses ⟨"Average", "avg", .number⟩ (.number .lessThan) (by decide) [' '] [' ']
      "9x".toList _ hne hgap hne hgap hnumber (ne_written (c := 'x') (by decide) (by decide) (by decide)) (by decide) rfl none
  · exact @parseCriterion_malformed .courses ⟨"Title", "title", .text⟩ (.text .is) title_mem_columns [' '] [' ']
      "notable".toList _ hne hgap hne hgap hword (ne_written (c := 'n') (by decide) (by decide) (by decide)) (by decide) rfl
      none

/-- Behind `is` the text `notable` is no literal, and no longer phrase stands there; it is not reported as a literal. -/
theorem parseCriterion_notable :
    (⟨"Title", "title", .text⟩ : Column) ∈ Kind.courses.columns ∧ Trimmed "notable".toList ∧
      (∀ m : Literal, m.WellFormed → "notable".toList ≠ m.written) ∧
      ¬LongerPhraseStands (.text .is) "is notable".toList ∧
      parseCriterion "Title is notable".toList .courses none =
        .error (.wording (.unparseableCriterion "Title is notable")) := by
  refine ⟨title_mem_columns, ⟨by decide, by decide, by decide⟩, ?_, by decide, rfl⟩
  exact ne_written (c := 'n') (by decide) (by decide) (by decide)

end SentenceQuery
