import SentenceQuery.Proofs.Sentence.Query

/-!
# The words of a condition

The text of a condition is a run of words: no word of it is a connective, so the body of a filter is not cut inside it, whatever
its literal holds (`isRunText_of_conditionText`). Nor does it have a semicolon outside quotes (`balanced_of_conditionText`).
-/

namespace SentenceQuery

open Grammar

/-! ## Texts that are runs -/

/-- The text is that of a run of words. -/
def IsRunText (t : List Char) : Prop := ∃ run, IsRun run ∧ runText run = t

theorem IsRunText.trimmed {t : List Char} (h : IsRunText t) : Trimmed t := by
  obtain ⟨run, hrun, rfl⟩ := h
  exact trimmed_runText hrun.ne_nil hrun.solid

theorem connective?_eq_none {w : SpacedWord} :
    w.connective? = none ↔ ∀ c ∈ Connective.all, String.ofList w.text ≠ c.word := by
  unfold SpacedWord.connective? Connective.ofWord?
  rw [List.find?_eq_none]
  simp [eq_comm]

/-- A solid word that is no connective is a run. -/
theorem isRunText_of_solid {t : List Char} (h : Solid t) (hne : t ≠ [])
    (hplain : ∀ c ∈ Connective.all, String.ofList t ≠ c.word) : IsRunText t := by
  refine ⟨[⟨[], t⟩], ⟨by simp, ?_, ?_, by simp [Apart]⟩, by simp [runText]⟩
  · intro w hw
    rw [List.mem_singleton.1 hw]
    exact ⟨over_nil, h, hne⟩
  · intro w hw
    rw [List.mem_singleton.1 hw]
    exact connective?_eq_none.2 hplain

/-- Two runs with blanks between them are a run. -/
theorem IsRunText.append {t g t' : List Char} (h : IsRunText t) (hne : g ≠ []) (hg : Over isBlank g)
    (h' : IsRunText t') : IsRunText (t ++ (g ++ t')) := by
  obtain ⟨run, hrun, rfl⟩ := h
  obtain ⟨run', hrun', rfl⟩ := h'
  have hset := hrun'.setGap hg
  have hgaps : ∀ w ∈ setGap g run', w.gap ≠ [] :=
    hset.apart.gap_ne_nil fun w hw => by rw [gap_setGap g run' w hw]; exact hne
  refine ⟨run ++ setGap g run', ⟨by simp [hrun.ne_nil], ?_, ?_, hrun.apart.append hgaps⟩, ?_⟩
  · exact List.forall_mem_append.2 ⟨hrun.solid, hset.solid⟩
  · exact List.forall_mem_append.2 ⟨hrun.plain, hset.plain⟩
  · rw [runText_append hrun.ne_nil, wordsText_setGap hrun'.ne_nil]

/-- A word without blanks and quotes that is no connective. -/
def IsPlainText (w : List Char) : Prop :=
  w ≠ [] ∧ Over (fun c => !isBlank c) w ∧ Unquoted w ∧ ∀ c ∈ Connective.all, String.ofList w ≠ c.word

instance (w : List Char) : Decidable (IsPlainText w) :=
  inferInstanceAs
    (Decidable (w ≠ [] ∧ Over (fun c => !isBlank c) w ∧ '"' ∉ w ∧ ∀ c ∈ Connective.all, String.ofList w ≠ c.word))

theorem isRunText_of_isPlainText {w : List Char} (h : IsPlainText w) : IsRunText w := by
  obtain ⟨hne, hblank, hquote, hplain⟩ := h
  exact isRunText_of_solid (Closed.of_over hblank hquote) hne hplain

/-- Words that stand one space apart are a run. -/
theorem isRunText_of_words {w : List Char} {ws : List (List Char)} (h : ∀ v ∈ w :: ws, IsPlainText v) :
    IsRunText (w ++ furtherText ws) := by
  induction ws generalizing w with
  | nil =>
    rw [furtherText, List.flatMap_nil, List.append_nil]
    exact isRunText_of_isPlainText (h w List.mem_cons_self)
  | cons v ws ih =>
    obtain ⟨hw, hws⟩ := List.forall_mem_cons.1 h
    have hspace : Over isBlank [' '] := by decide
    have hrun := (isRunText_of_isPlainText hw).append (by simp) hspace (ih hws)
    simpa [furtherText] using hrun

/-! ## The parts of a condition -/

/-- A text is its words with one space between them. -/
theorem exists_words (t : List Char) : ∃ w ws, t.splitOn ' ' = w :: ws ∧ t = w ++ furtherText ws := by
  have hfurther : ∀ (w : List Char) (ws : List (List Char)), [' '].intercalate (w :: ws) = w ++ furtherText ws := by
    intro w ws
    induction ws generalizing w with
    | nil => simp [furtherText, List.intercalate]
    | cons v ws ih =>
      have hv := ih v
      simp only [List.intercalate, List.intersperse_cons_cons, List.flatten_cons] at hv ⊢
      rw [hv]
      simp [furtherText]
  have htext : [' '].intercalate (t.splitOn ' ') = t := List.intercalate_splitOn ' '
  cases hwords : t.splitOn ' ' with
  | nil => exact absurd hwords (List.splitOn_ne_nil _ _)
  | cons w ws =>
    rw [hwords, hfurther] at htext
    exact ⟨w, ws, rfl, htext.symm⟩

theorem isPlainText_of_isName {w : List Char} (h : IsName w) : IsPlainText w := by
  obtain ⟨⟨hne, hchars⟩, hkeyword⟩ := h
  refine ⟨hne, fun c hc => by simp [not_isBlank_of_isWordChar (hchars c hc)], unquoted_of_over_isWordChar hchars,
    fun c hc heq => ?_⟩
  refine hkeyword ?_
  rw [heq]
  cases c <;> decide

theorem isRunText_of_fieldText {t : List Char} (h : FieldText t) : IsRunText t := by
  obtain ⟨w, ws, hw, hws, rfl⟩ := h
  refine isRunText_of_words fun v hv => ?_
  rcases List.mem_cons.1 hv with rfl | hv
  · exact isPlainText_of_isName hw
  · exact isPlainText_of_isName (hws v hv).1

theorem isRunText_phrase (op : Operator) : IsRunText op.phrase.toList := by
  have hplain : ∀ v ∈ op.phrase.toList.splitOn ' ', IsPlainText v := by
    rcases op with op | op <;> cases op <;> decide
  obtain ⟨w, ws, hwords, htext⟩ := exists_words op.phrase.toList
  rw [hwords] at hplain
  rw [htext]
  exact isRunText_of_words hplain

theorem Literal.literalText {l : Literal} (h : l.WellFormed) : LiteralText l.written l.value := by
  cases l with
  | number n => exact LiteralText.number h
  | text v =>
    have htext := LiteralText.text (v := v.toList) h
    rwa [String.ofList_toList] at htext

/-- The characters of a number. -/
def isNumeralChar (c : Char) : Bool := c.isDigit || c = '-' || c = '.'

theorem Numeral.over_isNumeralChar {n : Numeral} (h : n.WellFormed) : Over isNumeralChar n.text := by
  obtain ⟨-, hwhole, hfraction⟩ := h
  have hdigit : ∀ c, c.isDigit = true → isNumeralChar c = true := by
    intro c hc
    simp [isNumeralChar, hc]
  intro c hc
  unfold Numeral.text Numeral.signText Numeral.fractionText at hc
  rcases List.mem_append.1 hc with hc | hc
  · split at hc
    · rw [List.mem_singleton.1 hc]
      decide
    · cases hc
  · rcases List.mem_append.1 hc with hc | hc
    · exact hdigit c (hwhole c hc)
    · split at hc
      · cases hc
      · rename_i f hf
        rcases List.mem_cons.1 hc with rfl | hc
        · decide
        · exact hdigit c ((hfraction f hf).2 c hc)

theorem Numeral.text_ne_nil {n : Numeral} (h : n.WellFormed) : n.text ≠ [] := by
  simp [Numeral.text, h.1]

theorem isPlainText_of_numeral {n : Numeral} (h : n.WellFormed) : IsPlainText n.text := by
  have hchars := Numeral.over_isNumeralChar h
  refine ⟨Numeral.text_ne_nil h, fun c hc => ?_, Numeral.unquoted h, fun c hc heq => ?_⟩
  · have hnumeral := hchars c hc
    simp only [isNumeralChar, Bool.or_eq_true, decide_eq_true_eq] at hnumeral
    rcases hnumeral with (hdigit | rfl) | rfl
    · simp [not_isBlank_of_isWordChar (isWordChar_of_isDigit hdigit)]
    · decide
    · decide
  · -- a connective has a letter
    have htext : n.text = c.word.toList := by rw [← heq, String.toList_ofList]
    rw [htext] at hchars
    cases c <;> exact absurd hchars (by decide)

theorem isRunText_of_literal {l : Literal} (h : l.WellFormed) : IsRunText l.written := by
  cases l with
  | number n => exact isRunText_of_isPlainText (isPlainText_of_numeral h)
  | text v =>
    have hunquoted : Unquoted v.toList := h.unquoted
    refine isRunText_of_solid (Closed.quoted hunquoted Closed.nil) (by simp [Literal.written]) fun c _ heq => ?_
    have htext := congrArg String.toList heq
    rw [String.toList_ofList] at htext
    cases c <;> cases htext

/-! ## The condition -/

/-- The name of a column of a kind can be read as one. -/
theorem fieldText_display {kind : Kind} {column : Column} (h : column ∈ kind.columns) :
    FieldText column.display.toList := by
  have hnames : ∀ kind : Kind, ∀ column ∈ kind.columns,
      (∀ w ∈ (column.display.toList.splitOn ' ').head?, IsName w) ∧
        ∀ v ∈ (column.display.toList.splitOn ' ').tail, IsFurtherName v := by
    intro kind
    cases kind <;> decide
  obtain ⟨hw, hws⟩ := hnames kind column h
  obtain ⟨w, ws, hwords, htext⟩ := exists_words column.display.toList
  rw [hwords] at hw hws
  exact ⟨w, ws, hw w rfl, hws, htext⟩

/-- A column's name, a phrase and a literal with blanks between them are a run. -/
theorem isRunText_of_parts {column t : List Char} {l : Literal} (hcolumn : FieldText column) (op : Operator)
    (hl : l.WellFormed) (h : Spaced [column, op.phrase.toList, l.written] t) : IsRunText t := by
  simp only [spaced_cons_cons, spaced_singleton] at h
  obtain ⟨g, _, hne, hg, ⟨g', _, hne', hg', rfl, rfl⟩, rfl⟩ := h
  have hrest := (isRunText_phrase op).append hne' (over_isBlank_of_isGap hg') (isRunText_of_literal hl)
  exact (isRunText_of_fieldText hcolumn).append hne (over_isBlank_of_isGap hg) hrest

theorem isRunText_of_conditionText {kind : Kind} {c : Condition} (hc : c.WellFormed kind) {t : List Char}
    (h : ConditionText c t) : IsRunText t := by
  obtain ⟨column, hmem, hdisplay, -⟩ := hc.column
  have hcolumn := fieldText_display hmem
  rw [hdisplay] at hcolumn
  exact isRunText_of_parts hcolumn c.op hc.literal h

/-! ## Semicolons -/

/-- A text with neither a semicolon nor a quote is balanced. -/
theorem balanced_of_unquoted {t : List Char} (hmark : ';' ∉ t) (hquote : Unquoted t) : Balanced t :=
  Closed.of_over (fun c hc => by simpa using fun heq : c = ';' => hmark (heq ▸ hc)) hquote

theorem balanced_of_over_isBlank {u : List Char} (h : Over isBlank u) : Balanced u :=
  balanced_of_unquoted (fun hmem => absurd (h _ hmem) (by decide)) (unquoted_of_over_isBlank h)

theorem balanced_of_literal {l : Literal} (h : l.WellFormed) : Balanced l.written := by
  cases l with
  | number n =>
    have hchars := Numeral.over_isNumeralChar h
    exact balanced_of_unquoted (fun hmem => absurd (hchars _ hmem) (by decide)) (Numeral.unquoted h)
  | text v =>
    have hunquoted : Unquoted v.toList := h.unquoted
    exact Closed.quoted hunquoted Closed.nil

theorem balanced_of_conditionText {kind : Kind} {c : Condition} (hc : c.WellFormed kind) {t : List Char}
    (h : ConditionText c t) : Balanced t := by
  have hnames : ∀ kind : Kind, ∀ column ∈ kind.columns, ';' ∉ column.display.toList := by
    intro kind
    cases kind <;> decide
  have hphrase : ';' ∉ c.op.phrase.toList := by
    rcases c.op with op | op <;> cases op <;> decide
  obtain ⟨column, hmem, hdisplay, -⟩ := hc.column
  have hmark := hnames kind column hmem
  have hquote := (fieldText_display hmem).unquoted
  rw [hdisplay] at hmark hquote
  simp only [ConditionText, spaced_cons_cons, spaced_singleton] at h
  obtain ⟨g, _, -, hg, ⟨g', _, -, hg', rfl, rfl⟩, rfl⟩ := h
  have hrest := (balanced_of_over_isBlank (over_isBlank_of_isGap hg')).append (balanced_of_literal hc.literal)
  have hop := (balanced_of_unquoted hphrase (unquoted_phrase c.op)).append hrest
  exact (balanced_of_unquoted hmark hquote).append ((balanced_of_over_isBlank (over_isBlank_of_isGap hg)).append hop)

/-- A body is balanced if its members are. -/
theorem balanced_of_joinedText {α : Type} {member : α → List Char → Prop} {a : α} {rest : List (Connective × α)}
    {t : List Char} (hmember : ∀ a t, member a t → Balanced t) (h : JoinedText member a rest t) : Balanced t := by
  induction h with
  | last h => exact hmember _ _ h
  | @more a b c rest t u u' s h _ hu _ hu' _ ih =>
    have hword : Balanced c.word.toList := by
      cases c <;> exact balanced_of_unquoted (by decide) (by decide)
    have hbehind := hword.append ((balanced_of_over_isBlank hu').append ih)
    exact (hmember a t h).append ((balanced_of_over_isBlank hu).append hbehind)

end SentenceQuery
