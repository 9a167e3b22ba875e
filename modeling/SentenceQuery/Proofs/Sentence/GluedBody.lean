import SentenceQuery.Proofs.Grammar.GluedClauses
import SentenceQuery.Proofs.Sentence.CriterionFaults
import SentenceQuery.Proofs.Sentence.Marked

/-!
# Bodies in which a connective runs into a condition

Where the blanks behind a connective are left out, the connective and the column behind it are one word, and the two
conditions are one criterion. The literal of the first then reaches over the second: it is neither a number nor a text in
quotes, and the criterion is refused (`parseCriterion_glued`). So is the body, however many conditions stand before and behind
(`glued_joinedPieces`).
-/

namespace SentenceQuery

open Grammar Sentence

/-! ## Refusals -/

/-- Something is wrong with the wording. -/
def Refused {α : Type} (x : Except QueryError α) : Prop := ∃ fault, x = .error (.wording fault)

theorem Refused.bind {α β : Type} {x : Except QueryError α} (h : Refused x) (f : α → Except QueryError β) :
    Refused (x >>= f) := by
  obtain ⟨fault, rfl⟩ := h
  exact ⟨fault, rfl⟩

/-! ## A literal that goes on -/

theorem not_isNumeralChar_of_isBlank {c : Char} (h : isBlank c = true) : isNumeralChar c = false := by
  refine Bool.eq_false_iff.2 fun hnumeral => ?_
  simp only [isNumeralChar, Bool.or_eq_true, decide_eq_true_eq] at hnumeral
  rcases hnumeral with (hdigit | rfl) | rfl
  · rw [not_isBlank_of_isWordChar (isWordChar_of_isDigit hdigit)] at h
    cases h
  · exact absurd h (by decide)
  · exact absurd h (by decide)

/-- A literal with blanks and more behind it is none. -/
theorem ne_written_append {l : Literal} (hl : l.WellFormed) {u : List Char} (hne : u ≠ []) (hu : Over isBlank u)
    (r : List Char) : ∀ m : Literal, m.WellFormed → l.written ++ (u ++ r) ≠ m.written := by
  cases l with
  | number n =>
    obtain ⟨c, u', rfl⟩ := List.exists_cons_of_ne_nil hne
    have hc := not_isNumeralChar_of_isBlank (hu c List.mem_cons_self)
    refine ne_written (c := c) (by simp) hc ?_
    refine (stops_append (Numeral.text_ne_nil hl)).2 fun d hd => decide_eq_false fun hquote => ?_
    obtain ⟨s, hs⟩ := List.head?_eq_some_iff.1 (Option.mem_def.1 hd)
    exact Numeral.text_ne_quote hl s (hquote ▸ hs)
  | text v =>
    rintro (n | w) hm heq
    · exact Numeral.text_ne_quote hm _ heq.symm
    · have hquoted : v.toList ++ '"' :: (u ++ r) = w.toList ++ '"' :: [] := by simpa [Literal.written] using heq
      have hend := (unquoted_unique (Quotable.unquoted hl) (Quotable.unquoted hm) hquoted).2
      exact hne (List.append_eq_nil_iff.1 hend).1

/-- A condition with blanks and more behind it is refused for its literal. -/
theorem parseCriterion_glued {kind : Kind} {c : Condition} (hc : c.WellFormed kind) {t u r : List Char}
    (ht : ConditionText c t) (hne : u ≠ []) (hu : Over isBlank u) (hr : Trimmed r) (glue : Option Connective) :
    Refused (parseCriterion (t ++ (u ++ r)) kind glue) := by
  obtain ⟨column, hmem, hdisplay, -⟩ := hc.column
  simp only [ConditionText, spaced_cons_cons, spaced_singleton, ← hdisplay] at ht
  obtain ⟨g₁, _, hne₁, hg₁, ⟨g₂, _, hne₂, hg₂, rfl, rfl⟩, rfl⟩ := ht
  have htrimmed : Trimmed (c.literal.written ++ (u ++ r)) := (isRunText_of_literal hc.literal).trimmed.append u hr
  obtain ⟨form, hform, -⟩ := (Literal.literalText hc.literal).exists_form
  obtain ⟨d, x, hhead, -, halpha⟩ := hform.head
  have hop : ReadsPhrase c.op (g₂ ++ (c.literal.written ++ (u ++ r))) :=
    readsPhrase_append c.op hne₂ hg₂ (by rw [hhead]; exact stops_cons.2 halpha)
  obtain ⟨start, hreads⟩ := parseCriterion_of_readsPhrase hmem glue hne₁ hg₁ hne₂ hg₂ hop htrimmed
    (run_literal_of_no_form htrimmed.ne_nil (not_literalForm (ne_written_append hc.literal hne hu r)))
  simp only [List.append_assoc]
  rw [hreads]
  exact ⟨.invalidLiteral c.op.operandType, rfl⟩

/-! ## A connective that is none -/

/-- A connective that runs into a column's name makes a column's name with it. -/
theorem fieldText_connective_append (c : Connective) {column : List Char} (h : FieldText column) :
    FieldText (c.word.toList ++ column) := by
  obtain ⟨w, ws, hw, hws, rfl⟩ := h
  have hmem : c.word ∈ keywords := by cases c <;> decide
  exact ⟨c.word.toList ++ w, ws, isName_keyword_append hmem hw.1, hws, by simp⟩

theorem isRunText_connective_append (c : Connective) {kind : Kind} {a : Condition} (ha : a.WellFormed kind) {t : List Char}
    (h : ConditionText a t) : IsRunText (c.word.toList ++ t) := by
  obtain ⟨column, hmem, hdisplay, -⟩ := ha.column
  have hcolumn := fieldText_display hmem
  rw [hdisplay] at hcolumn
  refine isRunText_of_parts (fieldText_connective_append c hcolumn) a.op ha.literal ?_
  obtain ⟨g, t', hne, hg, hrest, rfl⟩ := spaced_cons_cons.1 h
  simpa using Spaced.more (w := c.word.toList ++ a.column.toList) hne hg hrest

/-! ## The body -/

/-- The text is that of one criterion of a body: it is not cut, and no semicolon ends it. -/
def IsBodyText (a t : List Char) : Prop := a = t ∧ IsRunText t ∧ Balanced t

theorem isBodyText_of_conditionText {kind : Kind} {c : Condition} (hc : c.WellFormed kind) {t : List Char}
    (h : ConditionText c t) : IsBodyText t t :=
  ⟨rfl, isRunText_of_conditionText hc h, balanced_of_conditionText hc h⟩

/-- Conditions as a body of texts. -/
theorem JoinedPieces.exists_texts {kind : Kind} {a : Condition} {more : List (Connective × Condition)} {ps : List Piece}
    (h : JoinedPieces a more ps) (hmore : ∀ c ∈ a :: more.map Prod.snd, c.WellFormed kind) :
    ∃ first rest, ConditionText a first ∧ JoinedText IsBodyText first rest (written ps) := by
  induction h with
  | @last a t h =>
    exact ⟨t, [], h, by simpa using JoinedText.last (isBodyText_of_conditionText (hmore a List.mem_cons_self) h)⟩
  | @more a b c more t u u' ps h hne hu hne' hu' _ ih =>
    obtain ⟨first, rest, -, hrest⟩ := ih fun d hd => hmore d (List.mem_cons_of_mem _ hd)
    have ht := isBodyText_of_conditionText (hmore a List.mem_cons_self) h
    exact ⟨t, (c, first) :: rest, h, by simpa using JoinedText.more ht hne hu hne' hu' hrest⟩

/-- More in front of the first text of a body. -/
theorem joinedText_append {x first b : List Char} {rest : List (Connective × List Char)}
    (h : JoinedText IsBodyText first rest b) (hx : IsBodyText (x ++ first) (x ++ first)) :
    JoinedText IsBodyText (x ++ first) rest (x ++ b) := by
  cases h with
  | last h =>
    obtain ⟨rfl, -⟩ := h
    exact JoinedText.last hx
  | more h hne hu hne' hu' hrest =>
    obtain ⟨rfl, -⟩ := h
    rw [← List.append_assoc]
    exact JoinedText.more hx hne hu hne' hu' hrest

theorem JoinedPieces.wordFirst {kind : Kind} {a : Condition} {more : List (Connective × Condition)} {ps : List Piece}
    (h : JoinedPieces a more ps) (ha : a.WellFormed kind) : WordFirst ps := by
  have hstart : ∀ t, ConditionText a t → StartsWord t := by
    intro t ht
    obtain ⟨column, hmem, hdisplay, -⟩ := ha.column
    obtain ⟨w, ws, hw, -, hname⟩ := fieldText_display hmem
    obtain ⟨s, rfl⟩ := ht.exists_eq_append
    rw [← hdisplay, hname, List.append_assoc]
    exact hw.1.startsWord.append _
  cases h with
  | last h => exact ⟨_, _, rfl, hstart _ h⟩
  | more h _ _ _ _ _ => exact ⟨_, _, rfl, hstart _ h⟩

/-- A body that is cut into texts of which one is refused. -/
def BodyRefused (kind : Kind) (b : List Char) : Prop :=
  ∃ first rest, JoinedText IsBodyText first rest b ∧
    Refused (readCriteria kind (first :: rest.map Prod.snd) (rest.map Prod.fst))

/-- Two conditions of which the connective between them runs into the second, in front of others. -/
theorem bodyRefused_glued {kind : Kind} {a b : Condition} (ha : a.WellFormed kind) {more : List (Connective × Condition)}
    (hmore : ∀ d ∈ b :: more.map Prod.snd, d.WellFormed kind) {ps : List Piece} (hps : JoinedPieces b more ps)
    {t u : List Char} (ht : ConditionText a t) (hne : u ≠ []) (hu : Over isBlank u) (c : Connective) :
    BodyRefused kind (t ++ (u ++ (c.word.toList ++ written ps))) := by
  obtain ⟨first, rest, hfirst, hrest⟩ := hps.exists_texts hmore
  have hb := hmore b List.mem_cons_self
  have hglued : IsRunText (c.word.toList ++ first) := isRunText_connective_append c hb hfirst
  have hword : Balanced c.word.toList := by cases c <;> exact balanced_of_unquoted (by decide) (by decide)
  have hbalanced : Balanced (t ++ (u ++ (c.word.toList ++ first))) :=
    (balanced_of_conditionText ha ht).append
      ((balanced_of_over_isBlank hu).append (hword.append (balanced_of_conditionText hb hfirst)))
  have hrun : IsRunText (t ++ (u ++ (c.word.toList ++ first))) :=
    (isRunText_of_conditionText ha ht).append hne hu hglued
  have htext := joinedText_append (x := t ++ (u ++ c.word.toList)) hrest (by simpa using ⟨rfl, hrun, hbalanced⟩)
  simp only [List.append_assoc] at htext
  refine ⟨_, rest, htext, ?_⟩
  rw [readCriteria_cons]
  exact (parseCriterion_glued ha ht hne hu hglued.trimmed _).bind _

/-- A condition in front of a body that is refused. -/
theorem BodyRefused.cons {kind : Kind} {a : Condition} (ha : a.WellFormed kind) {t u u' b : List Char}
    (ht : ConditionText a t) (hne : u ≠ []) (hu : Over isBlank u) (c : Connective) (hne' : u' ≠ []) (hu' : Over isBlank u')
    (hb : BodyRefused kind b) : BodyRefused kind (t ++ (u ++ (c.word.toList ++ (u' ++ b)))) := by
  obtain ⟨first, rest, hrest, hrefused⟩ := hb
  refine ⟨t, (c, first) :: rest, JoinedText.more (isBodyText_of_conditionText ha ht) hne hu hne' hu' hrest, ?_⟩
  rw [readCriteria_cons, parseCriterion_of_conditionText ha ht, ok_bind]
  exact hrefused.bind _

/-- A body in which a connective runs into a condition is refused, or the keyword without blanks stands behind the body. -/
theorem glued_joinedPieces {kind : Kind} {a : Condition} {more : List (Connective × Condition)}
    (hmore : ∀ c ∈ a :: more.map Prod.snd, c.WellFormed kind) {ps qs : List Piece} (h : JoinedPieces a more ps)
    {s : List Char} (hs : Glued (ps ++ qs) s) :
    (∃ b, s = b ++ written qs ∧ BodyRefused kind b) ∨ ∃ s', s = written ps ++ s' ∧ Glued qs s' := by
  induction h generalizing s with
  | last h =>
    obtain ⟨s', rfl, hs'⟩ := glued_text_cons hs
    exact Or.inr ⟨s', by simp, hs'⟩
  | @more a b c more t u u' ps h hne hu hne' hu' hrest ih =>
    have ha := hmore a List.mem_cons_self
    have hmore' : ∀ d ∈ b :: more.map Prod.snd, d.WellFormed kind := fun d hd => hmore d (List.mem_cons_of_mem _ hd)
    simp only [List.cons_append] at hs
    obtain ⟨s₁, rfl, hs₁⟩ := glued_text_cons hs
    obtain ⟨s₂, rfl, hs₂⟩ := glued_text_cons hs₁
    rcases glued_keyword_cons hs₂ with rfl | ⟨s₃, rfl, hs₃⟩
    · have hfirst := (hrest.wordFirst (hmore' b List.mem_cons_self)).append qs
      rw [trimStart_written hu' hfirst]
      exact Or.inl ⟨_, by simp, bodyRefused_glued ha hmore' hrest h hne hu c⟩
    · obtain ⟨s₄, rfl, hs₄⟩ := glued_text_cons hs₃
      rcases ih hmore' hs₄ with ⟨b', rfl, hb⟩ | ⟨s', rfl, hs'⟩
      · exact Or.inl ⟨_, by simp, hb.cons ha h hne hu c hne' hu'⟩
      · exact Or.inr ⟨s', by simp, hs'⟩

end SentenceQuery
