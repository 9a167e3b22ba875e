import SentenceQuery.Proofs.Faults
import SentenceQuery.Proofs.Grammar.Criterion
import SentenceQuery.Sentence.Criteria

/-!
# What the text of a criterion says

The text of a criterion is accepted exactly where it is the name of a column, a phrase and a literal whose types agree
(`parseCriterion_eq_ok`), and the criterion is then the one that the three say.
-/

namespace SentenceQuery

open Grammar

/-! ## The value of a literal -/

theorem toLower_of_isDigit {c : Char} (h : c.isDigit = true) : c.toLower = c := by
  have halpha := not_isAlpha_of_isDigit h
  have hupper : c.isUpper = false := by
    unfold Char.isAlpha at halpha
    exact (Bool.or_eq_false_iff.1 halpha).1
  unfold Char.isUpper at hupper
  simp only [decide_eq_false_iff_not, ge_iff_le] at hupper
  unfold Char.toLower
  rw [dif_neg hupper]

theorem readSign_text {n : Numeral} (hn : n.WellFormed) :
    Binary64.readSign n.text = (n.negative, n.whole ++ n.fractionText) := by
  obtain ⟨hne, hdigits, -⟩ := hn
  obtain ⟨c, w, hwhole⟩ := List.exists_cons_of_ne_nil hne
  have hc : c.isDigit = true := hdigits c (by rw [hwhole]; exact List.mem_cons_self)
  unfold Numeral.text Numeral.signText
  cases n.negative with
  | true => rfl
  | false =>
    rw [hwhole]
    unfold Binary64.readSign
    split
    · rename_i heq
      obtain ⟨rfl, -⟩ := List.cons.inj heq
      exact absurd hc (by decide)
    · rename_i heq
      obtain ⟨rfl, -⟩ := List.cons.inj heq
      exact absurd hc (by decide)
    · rfl

theorem readFraction_fractionText {n : Numeral} (hn : n.WellFormed) :
    Binary64.readFraction n.fractionText = (n.fraction.getD [], []) := by
  unfold Numeral.fractionText
  cases hf : n.fraction with
  | none => rfl
  | some f =>
    have hover := (hn.2.2 f hf).2
    have htake := takeWhile_append_of_stops hover stops_nil
    have hdrop := dropWhile_append_of_stops hover stops_nil
    rw [List.append_nil] at htake hdrop
    simp only [Binary64.readFraction, htake, hdrop, Option.getD_some]

/-- A numeral does not start like a word, in letters of any case. -/
theorem map_toLower_ne {n : Numeral} (hn : n.WellFormed) {d : Char} (hd : d.isDigit = false) (ds : List Char) :
    (n.whole ++ n.fractionText).map Char.toLower ≠ d :: ds := by
  obtain ⟨hne, hdigits, -⟩ := hn
  obtain ⟨c, w, hwhole⟩ := List.exists_cons_of_ne_nil hne
  have hc : c.isDigit = true := hdigits c (by rw [hwhole]; exact List.mem_cons_self)
  intro heq
  rw [hwhole, List.cons_append, List.map_cons, toLower_of_isDigit hc] at heq
  obtain ⟨rfl, -⟩ := List.cons.inj heq
  rw [hc] at hd
  cases hd

/-- A numeral is read as the number nearest to it. -/
theorem ofText?_text {n : Numeral} (hn : n.WellFormed) : Binary64.ofText? n.text = some n.value := by
  have htake : (n.whole ++ n.fractionText).takeWhile Char.isDigit = n.whole :=
    takeWhile_append_of_stops hn.2.1 n.stops_fractionText
  have hdrop : (n.whole ++ n.fractionText).dropWhile Char.isDigit = n.fractionText :=
    dropWhile_append_of_stops hn.2.1 n.stops_fractionText
  unfold Binary64.ofText?
  simp only [readSign_text hn, htake, hdrop, readFraction_fractionText hn]
  rw [if_neg, if_neg, if_neg]
  · rfl
  · exact fun h => hn.1 h.1
  · exact map_toLower_ne hn (by decide) _
  · rintro (h | h)
    · exact map_toLower_ne hn (by decide) _ h
    · exact map_toLower_ne hn (by decide) _ h

/-- How a literal is written, and its value. -/
inductive LiteralText : List Char → Cell → Prop where
  | number {n : Numeral} (h : n.WellFormed) : LiteralText n.text (.number n.value)
  | text {v : List Char} (h : Quotable v) : LiteralText ('"' :: (v ++ ['"'])) (.text (String.ofList v))

/-- A literal has a form, and its value is read off its node. -/
theorem LiteralText.exists_form {l : List Char} {value : Cell} (h : LiteralText l value) :
    ∃ form, LiteralForm form l ∧ ∀ op start, literalValue op ⟨form, start, l, []⟩ = .ok value := by
  cases h with
  | number hn =>
    refine ⟨.number, LiteralForm.number hn, fun op start => ?_⟩
    simp only [literalValue, ofText?_text hn]
  | @text v hv =>
    refine ⟨.string, LiteralForm.string hv, fun op start => ?_⟩
    simp [literalValue]

/-- A node that has a value is that of a literal of this value. -/
theorem literalText_of_literalValue {form : Rule} {l : List Char} {start : Nat} {op : Operator} {value : Cell}
    (hform : LiteralForm form l ∨ form = .raw) (h : literalValue op ⟨form, start, l, []⟩ = .ok value) :
    LiteralText l value := by
  rcases hform with hform | rfl
  · cases hform with
    | number hn =>
      simp only [literalValue, ofText?_text hn, Except.ok.injEq] at h
      subst h
      exact LiteralText.number hn
    | @string v hv =>
      simp only [literalValue, List.drop_succ_cons, List.drop_zero, List.dropLast_concat, Except.ok.injEq] at h
      subst h
      exact LiteralText.text hv
  · cases h

/-! ## The criterion -/

/-- The text says the criterion over the columns of a kind: it names a column of the field, the operator, and a literal of the
value, and the types of the three agree. -/
def Says (kind : Kind) (t : List Char) (glue : Option Connective) (c : Criterion) : Prop :=
  ∃ column l, CriterionText column c.operator l t ∧ kind.resolve? (String.ofList column) = some c.field ∧
    LiteralText l c.value ∧ c.value.fieldType = c.operator.operandType ∧
    kind.fieldType? c.field = some c.operator.operandType ∧ c.glue = glue

theorem ofPhrase_phrase (op : Operator) : Operator.ofPhrase op.phrase = .ok op := by
  rw [Operator.ofPhrase, ofPhrase?_phrase]

/-- What is wrong with the types of a criterion. That of the literal counts before that of the column. -/
def typeFault? (op : Operator) (literal : FieldType) (column : Option FieldType) : Option QueryError :=
  if literal ≠ op.operandType then some (.literalType op)
  else if column ≠ some op.operandType then some (.columnType op)
  else none

theorem typeFault?_eq_none {op : Operator} {literal : FieldType} {column : Option FieldType} :
    typeFault? op literal column = none ↔ literal = op.operandType ∧ column = some op.operandType := by
  unfold typeFault?
  by_cases hliteral : literal = op.operandType
  · by_cases hcolumn : column = some op.operandType <;> simp [hliteral, hcolumn]
  · simp [hliteral]

/-- What is answered for the node of a criterion: the column counts first, then the literal, then the types. -/
theorem parseCriterion_of_reads (kind : Kind) (glue : Option Connective) {s text rest : List Char} {n : Node Rule}
    {column l : List Char} {op : Operator} {form : Rule}
    (hrun : Rule.criterion.pattern.run 0 (trim s) = some ⟨text, [n], rest⟩) (hn : ReadsCriterion column op form l n) :
    ∃ start, parseCriterion s kind glue =
      match kind.resolve? (String.ofList column) with
      | none => .error (.wording (.unparseableCriterion (String.ofList s)))
      | some field => literalValue op ⟨form, start, l, []⟩ >>= fun value =>
          answerUnless (typeFault? op value.fieldType (kind.fieldType? field)) ⟨field, op, value, glue⟩ := by
  obtain ⟨n₁, n₂, n₃, more, hinner, hcolumn, hop, start, hliteral⟩ := hn
  obtain ⟨rule, begins, ntext, inner⟩ := n
  simp only at hinner
  subst hinner
  refine ⟨start, ?_⟩
  unfold parseCriterion Rule.match?
  simp only [hrun, Node.string, hcolumn, hop, String.ofList_toList]
  cases kind.resolve? (String.ofList column) with
  | none => rfl
  | some field =>
    simp only [ofPhrase_phrase, hliteral]
    refine congrArg (literalValue op ⟨form, start, l, []⟩ >>= ·) (funext fun value => ?_)
    unfold typeFault?
    by_cases htype : value.fieldType = op.operandType
    · by_cases hfield : kind.fieldType? field = some op.operandType <;> simp [htype, hfield]
    · simp [htype]

/-- What is accepted of the node of a criterion: the column is one of the kind, and its type and that of the value are the type
that the operator compares. -/
theorem parseCriterion_of_reads_eq_ok (kind : Kind) (glue : Option Connective) (c : Criterion) {s text rest : List Char}
    {n : Node Rule} {column l : List Char} {op : Operator} {form : Rule}
    (hrun : Rule.criterion.pattern.run 0 (trim s) = some ⟨text, [n], rest⟩) (hn : ReadsCriterion column op form l n) :
    ∃ start, parseCriterion s kind glue = .ok c ↔ kind.resolve? (String.ofList column) = some c.field ∧ c.operator = op ∧
      literalValue op ⟨form, start, l, []⟩ = .ok c.value ∧ c.value.fieldType = op.operandType ∧
      kind.fieldType? c.field = some op.operandType ∧ c.glue = glue := by
  obtain ⟨start, hreads⟩ := parseCriterion_of_reads kind glue hrun hn
  refine ⟨start, ?_⟩
  rw [hreads]
  cases kind.resolve? (String.ofList column) with
  | none => simp
  | some field =>
    simp only [bind_eq_ok, answerUnless_eq_ok, typeFault?_eq_none, Option.some.injEq]
    constructor
    · rintro ⟨value, hvalue, ⟨htype, hfield⟩, rfl⟩
      exact ⟨rfl, rfl, hvalue, htype, hfield, rfl⟩
    · rintro ⟨rfl, rfl, hvalue, htype, hfield, rfl⟩
      exact ⟨c.value, hvalue, ⟨htype, hfield⟩, rfl⟩

/-- The text of a criterion is accepted exactly where it says one. -/
theorem parseCriterion_eq_ok {s : List Char} {kind : Kind} {glue : Option Connective} {c : Criterion} :
    parseCriterion s kind glue = .ok c ↔ Says kind (trim s) glue c := by
  constructor
  · intro h
    cases hrun : Rule.criterion.pattern.run 0 (trim s) with
    | none =>
      unfold parseCriterion Rule.match? at h
      simp only [hrun] at h
      cases h
    | some o =>
      obtain ⟨column, op, form, l, n, ht, hform, hnodes, hn⟩ := run_criterion_eq_some hrun
      obtain ⟨text, nodes, rest⟩ := o
      simp only at hnodes
      subst hnodes
      obtain ⟨start, hreads⟩ := parseCriterion_of_reads_eq_ok kind glue c hrun hn
      obtain ⟨hresolve, rfl, hvalue, htype, hfield, hglue⟩ := hreads.1 h
      exact ⟨column, l, ht, hresolve, literalText_of_literalValue hform hvalue, htype, hfield, hglue⟩
  · rintro ⟨column, l, ht, hresolve, hl, htype, hfield, hglue⟩
    obtain ⟨form, hform, hvalue⟩ := hl.exists_form
    obtain ⟨n, hrun, hn⟩ := run_criterion ht hform 0
    obtain ⟨start, hreads⟩ := parseCriterion_of_reads_eq_ok kind glue c hrun hn
    exact hreads.2 ⟨hresolve, rfl, hvalue c.operator start, htype, hfield, hglue⟩

/-! ## Exchanging what stands in quotes -/

theorem Numeral.unquoted {n : Numeral} (hn : n.WellFormed) : Unquoted n.text := by
  have hdigits : ∀ {d : List Char}, Over Char.isDigit d → Unquoted d := by
    intro d hd hmem
    exact absurd (hd _ hmem) (by decide)
  have hsign : Unquoted n.signText := by
    unfold Numeral.signText
    split <;> decide
  have hfraction : Unquoted n.fractionText := by
    unfold Numeral.fractionText
    split
    · exact List.not_mem_nil
    · rename_i f hf
      intro hmem
      rcases List.mem_cons.1 hmem with habsurd | hmem
      · exact absurd habsurd (by decide)
      · exact hdigits (hn.2.2 f hf).2 hmem
  unfold Numeral.text Unquoted
  simp only [List.mem_append, not_or]
  exact ⟨hsign, hdigits hn.2.1, hfraction⟩

/-- The quotes of a criterion are even in number: none, or those of its literal. -/
theorem Says.evenQuotes {kind : Kind} {t : List Char} {glue : Option Connective} {c : Criterion}
    (h : Says kind t glue c) : EvenQuotes t := by
  obtain ⟨column, l, ht, -, hl, -⟩ := h
  obtain ⟨before, hbefore, rfl, -⟩ := ht.split
  rw [evenQuotes_append hbefore.evenQuotes]
  generalize c.value = value at hl
  cases hl with
  | number hn => exact (Numeral.unquoted hn).evenQuotes
  | text hv => exact (evenQuotes_quoted hv.unquoted).2 rfl

/-- What stands in quotes in a criterion is its literal, and it can be exchanged. -/
theorem Says.exchange {kind : Kind} {x v w y : List Char} {glue : Option Connective} {c : Criterion}
    (h : Says kind (x ++ '"' :: (v ++ '"' :: y)) glue c) (hx : EvenQuotes x) (hv : Unquoted v) (hw : Quotable w) :
    c.value = .text (String.ofList v) ∧
      Says kind (x ++ '"' :: (w ++ '"' :: y)) glue { c with value := .text (String.ofList w) } := by
  obtain ⟨column, l, ht, hresolve, hl, htype, hfield, hglue⟩ := h
  obtain ⟨before, hbefore, hsplit, hnew⟩ := ht.split
  generalize hvalue : c.value = value at hl htype
  cases hl with
  | @number n hn =>
    have hmem : '"' ∈ before ++ n.text := by
      rw [← hsplit]
      simp
    rcases List.mem_append.1 hmem with hmem | hmem
    · exact absurd hmem hbefore
    · exact absurd hmem (Numeral.unquoted hn)
  | @text q hq =>
    by_cases hmem : '"' ∈ x
    · -- the first quote of the text would be closed before the last one
      obtain ⟨p, x', rfl, hp⟩ := List.eq_append_cons_of_mem hmem
      have hp : Unquoted p := hp
      obtain ⟨q', r, rfl, hq', -⟩ := exists_close ((evenQuotes_append hp.evenQuotes).1 hx)
      simp only [List.append_assoc, List.cons_append] at hsplit
      obtain ⟨-, hrest⟩ := unquoted_unique hp hbefore hsplit
      obtain ⟨-, hrest⟩ := unquoted_unique hq' hq.unquoted hrest
      simp at hrest
    · obtain ⟨rfl, hrest⟩ := unquoted_unique hmem hbefore hsplit
      obtain ⟨rfl, rfl⟩ := unquoted_unique hv hq.unquoted hrest
      exact ⟨rfl, column, _, hnew _, hresolve, LiteralText.text hw, htype, hfield, hglue⟩

end SentenceQuery
