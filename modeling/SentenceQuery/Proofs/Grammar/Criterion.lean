import SentenceQuery.Proofs.Grammar.Literal

/-!
# One criterion

A criterion is the name of a column, the phrase of an operator and a literal, with blanks between them. The phrase of an
operator may begin another one's; since a literal does not start with a letter, the phrase that is read is the one that was
written (`readsPhrase_append`).
-/

namespace SentenceQuery

namespace Grammar

open Pattern

/-! ## Operators -/

/-- The text is empty, or a space and a letter start it. -/
def goesOn : List Char → Bool
  | [] => true
  | [_] => false
  | d :: c :: _ => d = ' ' && c.isAlpha

/-- Where a phrase begins another one, the longer goes on with a space and a letter. -/
theorem phrase_goesOn :
    ∀ v ∈ Operator.phrases, ∀ w ∈ Operator.phrases, w.toList <+: v.toList →
      goesOn (v.toList.drop w.toList.length) = true := by
  decide

/-- Before blanks and a character that is no letter no longer phrase stands than the one that was written. -/
theorem prefix_phrase_of_prefix_append {v w : String} (hv : v ∈ Operator.phrases) (hw : w ∈ Operator.phrases)
    {g r : List Char} (hne : g ≠ []) (hg : Over isGap g) (hr : Stops Char.isAlpha r)
    (h : v.toList <+: w.toList ++ (g ++ r)) : v.toList <+: w.toList := by
  rcases List.prefix_or_prefix_of_prefix h (List.prefix_append _ _) with hvw | hwv
  · exact hvw
  obtain ⟨y, hy⟩ := h
  have hgoes := phrase_goesOn v hv w hw hwv
  obtain ⟨x, hx⟩ := hwv
  rw [← hx, List.drop_left] at hgoes
  rw [← hx, List.append_assoc, List.append_cancel_left_eq] at hy
  cases x with
  | nil => exact ⟨[], by rw [← hx, List.append_nil, List.append_nil]⟩
  | cons d x =>
  cases x with
  | nil => cases hgoes
  | cons c x =>
    simp only [goesOn, Bool.and_eq_true, decide_eq_true_eq] at hgoes
    obtain ⟨rfl, hc⟩ := hgoes
    -- the letter stands where the blanks go on or end
    cases g with
    | nil => exact absurd rfl hne
    | cons e g =>
      obtain ⟨-, hrest⟩ := List.cons.inj hy
      cases g with
      | nil =>
        have hfalse := hr c (Option.mem_def.2 (congrArg List.head? hrest.symm))
        rw [hc] at hfalse
        cases hfalse
      | cons e' g =>
        obtain ⟨rfl, -⟩ := List.cons.inj hrest
        have hgap := (over_cons.1 (over_cons.1 hg).2).1
        simp only [isGap, Bool.or_eq_true, decide_eq_true_eq] at hgap
        rcases hgap with ((rfl | rfl) | rfl) | rfl <;> exact absurd hc (by decide)

theorem isVocabulary_numberPhrases : IsVocabulary (NumberOperator.all.map NumberOperator.phrase) := by decide

/-- Longer phrases for texts come before their beginnings. -/
theorem textPhrases_ordered :
    (TextOperator.all.reverse.map TextOperator.phrase).Pairwise fun v w => ¬v.toList <+: w.toList := by
  decide

theorem numberPhrase_begins_none :
    ∀ v ∈ NumberOperator.all.map NumberOperator.phrase, ∀ w ∈ TextOperator.all.map TextOperator.phrase,
      ¬v.toList <+: w.toList := by
  decide

theorem mem_phrases_of_number {v : String} (h : v ∈ NumberOperator.all.map NumberOperator.phrase) :
    v ∈ Operator.phrases := List.mem_append_left _ h

theorem mem_phrases_of_text {v : String} (h : v ∈ TextOperator.all.map TextOperator.phrase) : v ∈ Operator.phrases :=
  List.mem_append_right _ h

theorem ofPhrase?_phrase (op : Operator) : Operator.ofPhrase? op.phrase = some op := by
  rcases op with op | op <;> cases op <;> decide

/-- A phrase is that of an operator. -/
theorem exists_phrase_eq {v : String} (h : v ∈ Operator.phrases) : ∃ op : Operator, op.phrase = v := by
  rcases List.mem_append.1 h with h | h
  · obtain ⟨op, -, rfl⟩ := List.mem_map.1 h
    exact ⟨.number op, rfl⟩
  · obtain ⟨op, -, rfl⟩ := List.mem_map.1 h
    exact ⟨.text op, rfl⟩

/-- The node of an operator has the phrase as its text. -/
theorem run_operator_eq_some {offset : Nat} {s : List Char} {o : Outcome Rule} (h : operator.run offset s = some o) :
    ∃ (op : Operator) (r : List Char) (ns : List (Node Rule)), s = op.phrase.toList ++ r ∧
      o = ⟨op.phrase.toList, [⟨.operator, offset, op.phrase.toList, ns⟩], r⟩ := by
  obtain ⟨one, hone, rfl⟩ := run_node_eq_some.1 h
  rcases run_choice_eq_some.1 hone with h | ⟨-, h⟩
  · obtain ⟨_, hword, rfl⟩ := run_token_eq_some.1 h
    obtain ⟨pre, w, post, r, hphrases, -, rfl, -, rfl⟩ := run_oneOf_eq_some_first.1 hword
    have hmem : w ∈ NumberOperator.all.map NumberOperator.phrase := by simp [hphrases]
    obtain ⟨op, rfl⟩ := exists_phrase_eq (mem_phrases_of_number hmem)
    exact ⟨op, r, _, rfl, rfl⟩
  · obtain ⟨_, hword, rfl⟩ := run_token_eq_some.1 h
    obtain ⟨pre, w, post, r, hphrases, -, rfl, -, rfl⟩ := run_oneOf_eq_some_first.1 hword
    have hmem : w ∈ TextOperator.all.map TextOperator.phrase := by
      rw [List.map_reverse] at hphrases
      rw [← List.mem_reverse, hphrases]
      simp
    obtain ⟨op, rfl⟩ := exists_phrase_eq (mem_phrases_of_text hmem)
    exact ⟨op, r, _, rfl, rfl⟩

/-- The phrase is read as it stands, in front of a text. -/
def ReadsPhrase (op : Operator) (s : List Char) : Prop :=
  ∀ offset, ∃ ns, operator.run offset (op.phrase.toList ++ s) =
    some ⟨op.phrase.toList, [⟨.operator, offset, op.phrase.toList, ns⟩], s⟩

/-- Where a phrase for texts is tried, none for numbers has been read. -/
theorem run_numericOp_eq_none {op : Operator} (hop : op.operandType = .text) {s : List Char}
    (hnumber : ∀ v ∈ NumberOperator.all.map NumberOperator.phrase, ∀ r, op.phrase.toList ++ s = v.toList ++ r →
      Stops isWordChar r → v.toList <+: op.phrase.toList) (offset : Nat) :
    numericOp.run offset (op.phrase.toList ++ s) = none := by
  cases hrun : numericOp.run offset (op.phrase.toList ++ s) with
  | none => rfl
  | some o =>
    obtain ⟨_, hword, -⟩ := run_token_eq_some.1 hrun
    obtain ⟨v, hv, r, hs, hr, -⟩ := (run_oneOf_eq_some isVocabulary_numberPhrases).1 hword
    have hmem : op.phrase ∈ TextOperator.all.map TextOperator.phrase := by
      rcases op with op | op
      · cases hop
      · cases op <;> decide
    exact absurd (hnumber v hv r hs hr) (numberPhrase_begins_none v hv op.phrase hmem)

/-- A phrase is read as it stands if no longer one for numbers stands there as a whole and no longer one for texts begins
there. -/
theorem readsPhrase_of_longest {op : Operator} {s : List Char} (hs : Stops isWordChar s)
    (hnumber : ∀ v ∈ NumberOperator.all.map NumberOperator.phrase, ∀ r, op.phrase.toList ++ s = v.toList ++ r →
      Stops isWordChar r → v.toList <+: op.phrase.toList)
    (htext : ∀ v ∈ TextOperator.all.map TextOperator.phrase, v.toList <+: op.phrase.toList ++ s →
      v.toList <+: op.phrase.toList) : ReadsPhrase op s := by
  intro offset
  cases op with
  | number op =>
    have hmem : op.phrase ∈ NumberOperator.all.map NumberOperator.phrase := by cases op <;> decide
    have hrun : numericOp.run offset (op.phrase.toList ++ s) = _ :=
      run_token_eq_some.2
        ⟨_, (run_oneOf_eq_some isVocabulary_numberPhrases).2 ⟨op.phrase, hmem, s, rfl, hs, rfl⟩, rfl⟩
    exact ⟨_, run_node_eq_some.2 ⟨_, run_choice_eq_some.2 (Or.inl hrun), rfl⟩⟩
  | text op =>
    have hnone : numericOp.run offset (op.phrase.toList ++ s) = none := run_numericOp_eq_none rfl hnumber offset
    have hmem : op.phrase ∈ TextOperator.all.reverse.map TextOperator.phrase := by cases op <;> decide
    have hlongest : ∀ v ∈ TextOperator.all.reverse.map TextOperator.phrase,
        v.toList <+: op.phrase.toList ++ s → v.toList <+: op.phrase.toList := by
      intro v hv hprefix
      rw [List.map_reverse, List.mem_reverse] at hv
      exact htext v hv hprefix
    have hrun : stringOp.run offset (op.phrase.toList ++ s) = _ :=
      run_token_eq_some.2 ⟨_, run_oneOf_append textPhrases_ordered hmem hs hlongest offset, rfl⟩
    exact ⟨_, run_node_eq_some.2 ⟨_, run_choice_eq_some.2 (Or.inr ⟨hnone, hrun⟩), rfl⟩⟩

theorem phrase_mem (op : Operator) : op.phrase ∈ Operator.phrases := by
  rcases op with op | op <;> cases op <;> decide

/-- The phrase that was written is read, before blanks and a character that is no letter. -/
theorem readsPhrase_append (op : Operator) {g r : List Char} (hne : g ≠ []) (hg : Over isGap g)
    (hr : Stops Char.isAlpha r) : ReadsPhrase op (g ++ r) := by
  refine readsPhrase_of_longest (stops_isWordChar_of_isGap hne hg r) (fun v hv r' hs _ => ?_) fun v hv hprefix => ?_
  · exact prefix_phrase_of_prefix_append (mem_phrases_of_number hv) (phrase_mem op) hne hg hr ⟨r', hs.symm⟩
  · exact prefix_phrase_of_prefix_append (mem_phrases_of_text hv) (phrase_mem op) hne hg hr hprefix

/-! ## The criterion -/

/-- How a criterion is written: a column's name, the phrase of an operator, and a literal. -/
def CriterionText (column : List Char) (op : Operator) (l t : List Char) : Prop :=
  FieldText column ∧ Spaced [column, op.phrase.toList, l] t

/-- What a criterion's node says: a column's name, a phrase, and a literal of a form. -/
def ReadsCriterion (column : List Char) (op : Operator) (form : Rule) (l : List Char) (n : Node Rule) : Prop :=
  ∃ columnNode opNode literalNode more, n.inner = columnNode :: opNode :: literalNode :: more ∧
    columnNode.text = column ∧ opNode.text = op.phrase.toList ∧ ∃ start, literalNode.inner = [⟨form, start, l, []⟩]

theorem phrase_head (op : Operator) :
    ∃ c r, op.phrase.toList = c :: r ∧ isGap c = false ∧ c.isUpper = false := by
  rcases op with op | op <;> cases op <;> exact ⟨_, _, rfl, by decide, by decide⟩

/-- A column's name goes on neither in the blanks behind it nor in the phrase of an operator. -/
theorem fieldEnds_phrase (op : Operator) {g : List Char} (hne : g ≠ []) (hg : Over isGap g) (s : List Char) :
    FieldEnds (g ++ (op.phrase.toList ++ s)) := by
  obtain ⟨c, r, hphrase, -, hupper⟩ := phrase_head op
  exact fieldEnds_blank_append (over_isBlank_of_isGap hg) (by rw [hphrase]; exact stops_cons.2 hupper)
    fun hnil => absurd hnil hne

/-- A criterion is read part by part. -/
theorem run_criterion_of_parts {column g₁ g₂ l : List Char} {op : Operator} {form : Rule} (hcolumn : FieldText column)
    (hne₁ : g₁ ≠ []) (hg₁ : Over isGap g₁) (hne₂ : g₂ ≠ []) (hg₂ : Over isGap g₂) (hop : ReadsPhrase op (g₂ ++ l))
    (hl : Stops isGap l)
    (hliteral : ∀ start, literal.run start l = some ⟨l, [⟨.literal, start, l, [⟨form, start, l, []⟩]⟩], []⟩)
    (offset : Nat) :
    ∃ n, criterion.run offset (column ++ (g₁ ++ (op.phrase.toList ++ (g₂ ++ l)))) =
      some ⟨column ++ (g₁ ++ (op.phrase.toList ++ (g₂ ++ l))), [n], []⟩ ∧ ReadsCriterion column op form l n := by
  obtain ⟨c, r, hphrase, hgap, -⟩ := phrase_head op
  obtain ⟨ns, hop⟩ := hop (offset + byteSize column + byteSize g₁)
  have hend : ∀ offset, endOfText.run offset [] = some ⟨[], [⟨.endOfText, offset, [], []⟩], []⟩ := fun _ => rfl
  have hrun := run_seq_ws (run_field_append hcolumn (fieldEnds_phrase op hne₁ hg₁ _) offset) hne₁ hg₁
    (by rw [hphrase]; exact stops_cons.2 hgap)
    (run_seq_ws hop hne₂ hg₂ hl (run_seq_eq_some.2 ⟨_, _, hliteral _, hend _, rfl⟩))
  simp only [List.append_nil] at hrun
  exact ⟨_, run_node_eq_some.2 ⟨_, hrun, rfl⟩, _, _, _, _, rfl, rfl, rfl, _, rfl⟩

/-- A criterion is read as it is written. -/
theorem run_criterion {column : List Char} {op : Operator} {form : Rule} {l t : List Char}
    (ht : CriterionText column op l t) (hl : LiteralForm form l) (offset : Nat) :
    ∃ n, criterion.run offset t = some ⟨t, [n], []⟩ ∧ ReadsCriterion column op form l n := by
  obtain ⟨hcolumn, ht⟩ := ht
  simp only [spaced_cons_cons, spaced_singleton] at ht
  obtain ⟨g₁, _, hne₁, hg₁, ⟨g₂, _, hne₂, hg₂, rfl, rfl⟩, rfl⟩ := ht
  obtain ⟨d, r, rfl, hgap, halpha⟩ := hl.head
  exact run_criterion_of_parts hcolumn hne₁ hg₁ hne₂ hg₂ (readsPhrase_append op hne₂ hg₂ (stops_cons.2 halpha))
    (stops_cons.2 hgap) (run_literal_of_form hl) offset

/-- What is read as a criterion was written as one. -/
theorem run_criterion_eq_some {offset : Nat} {s : List Char} {o : Outcome Rule}
    (h : criterion.run offset s = some o) :
    ∃ column op form l n, CriterionText column op l s ∧ (LiteralForm form l ∨ form = .raw) ∧ o.nodes = [n] ∧
      ReadsCriterion column op form l n := by
  simp only [criterion, Pattern.all, run_node_eq_some, run_seq_eq_some, run_field_eq_some, run_ws_eq_some] at h
  obtain ⟨_, ⟨_, _, ⟨column, _, rfl, hcolumn, -, rfl⟩, ⟨_, _, ⟨g₁, _, hs₁, hne₁, hg₁, -, rfl⟩,
    ⟨_, _, hop, ⟨_, _, ⟨g₂, l, hs₂, hne₂, hg₂, -, rfl⟩, ⟨_, _, hliteral, -, rfl⟩, rfl⟩, rfl⟩, rfl⟩, rfl⟩, rfl⟩ := h
  obtain ⟨op, _, ns, hphrase, rfl⟩ := run_operator_eq_some hop
  obtain ⟨form, hform, rfl⟩ := run_literal_eq_some hliteral
  simp only at hs₁ hs₂ hphrase
  subst hs₁ hphrase hs₂
  exact ⟨column, op, form, l, _, ⟨hcolumn, Spaced.more hne₁ hg₁ (Spaced.more hne₂ hg₂ (Spaced.last l))⟩, hform, rfl,
    _, _, _, _, rfl, rfl, rfl, _, rfl⟩

/-! ## Where quotes stand -/

theorem unquoted_of_over_isWordChar {w : List Char} (h : Over isWordChar w) : Unquoted w := by
  intro hmem
  exact absurd (h _ hmem) (by decide)

theorem FieldText.unquoted {t : List Char} (h : FieldText t) : Unquoted t := by
  obtain ⟨w, ws, hw, hws, rfl⟩ := h
  intro hmem
  rcases List.mem_append.1 hmem with hmem | hmem
  · exact unquoted_of_over_isWordChar hw.1.2 hmem
  · obtain ⟨v, hv, hmem⟩ := List.mem_flatMap.1 hmem
    rcases List.mem_cons.1 hmem with habsurd | hmem
    · exact absurd habsurd (by decide)
    · exact unquoted_of_over_isWordChar (hws v hv).1.1.2 hmem

theorem unquoted_phrase (op : Operator) : Unquoted op.phrase.toList := by
  rcases op with op | op <;> cases op <;> decide

theorem unquoted_of_over_isGap {g : List Char} (h : Over isGap g) : Unquoted g := by
  intro hmem
  exact absurd (h _ hmem) (by decide)

/-- The text of a criterion ends with its literal, and no quote stands before that. -/
theorem CriterionText.split {column l t : List Char} {op : Operator} (h : CriterionText column op l t) :
    ∃ before, Unquoted before ∧ t = before ++ l ∧ ∀ l', CriterionText column op l' (before ++ l') := by
  obtain ⟨hcolumn, ht⟩ := h
  simp only [spaced_cons_cons, spaced_singleton] at ht
  obtain ⟨g₁, _, hne₁, hg₁, ⟨g₂, _, hne₂, hg₂, rfl, rfl⟩, rfl⟩ := ht
  refine ⟨column ++ (g₁ ++ (op.phrase.toList ++ g₂)), ?_, by simp, fun l' => ⟨hcolumn, ?_⟩⟩
  · simp only [Unquoted, List.mem_append, not_or]
    exact ⟨hcolumn.unquoted, unquoted_of_over_isGap hg₁, unquoted_phrase op, unquoted_of_over_isGap hg₂⟩
  · have hspaced := Spaced.more (w := column) hne₁ hg₁
      (Spaced.more (w := op.phrase.toList) hne₂ hg₂ (Spaced.last l'))
    simpa using hspaced

end Grammar

end SentenceQuery
