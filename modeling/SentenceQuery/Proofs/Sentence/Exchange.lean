import SentenceQuery.Proofs.Sentence.Filter

/-!
# Literals cannot inject

What stands in quotes in a sentence is the literal of one criterion. If it is exchanged for any other text without quotes and
stars, the sentence is still accepted, and its plan differs in the value of that criterion alone (`ofSentence_exchange`). Three
readers agree on where quotes stand: the one that looks for the end of the filter, the one that looks for the connectives
in it, and the one that reads a literal. No other clause takes a quote.
-/

namespace SentenceQuery

open Grammar Sentence

namespace Grammar

theorem Spaced.unquoted {ws : List (List Char)} {t : List Char} (h : Spaced ws t) (hws : ∀ w ∈ ws, Unquoted w) :
    Unquoted t := by
  induction h with
  | last w => exact hws w List.mem_cons_self
  | @more w g t ws _ hg _ ih =>
    obtain ⟨hw, hws⟩ := List.forall_mem_cons.1 hws
    simp only [Unquoted, List.mem_append, not_or]
    exact ⟨hw, unquoted_of_over_isGap hg, ih hws⟩

theorem AllText.unquoted {h : List Char} (hh : AllText h) : Unquoted h := by
  obtain ⟨g, t, g', hg, ht, hg', rfl⟩ := hh
  have hwords : Unquoted t := Spaced.unquoted ht (by decide)
  simp only [Unquoted, List.mem_cons, List.mem_append, not_or]
  exact ⟨by decide, unquoted_of_over_isGap hg, hwords, unquoted_of_over_isGap hg'⟩

theorem WhoseText.unquoted {h : List Char} (hh : WhoseText h) : Unquoted h := by
  obtain ⟨g, t, g', hg, ht, -, hg', rfl⟩ := hh
  have hwords : Unquoted t := Spaced.unquoted ht (by decide)
  simp only [Unquoted, List.mem_cons, List.mem_append, not_or]
  exact ⟨by decide, unquoted_of_over_isGap hg, hwords, unquoted_of_over_isGap hg'⟩

end Grammar

/-! ## The quoted part lies in the body of the filter -/

/-- Between texts without quotes, a quoted part lies in what stands between them. -/
theorem exists_body_of_quoted {h body rest a v b : List Char} (hh : Unquoted h) (hrest : Unquoted rest)
    (heq : a ++ '"' :: (v ++ '"' :: b) = h ++ (body ++ ';' :: rest)) :
    ∃ x y, a = h ++ x ∧ body = x ++ '"' :: (v ++ '"' :: y) ∧ b = y ++ ';' :: rest := by
  obtain ⟨x, rfl, hx⟩ := exists_of_unquoted_append hh heq.symm
  have hx' : body ++ ';' :: rest = (x ++ '"' :: v) ++ '"' :: b := by simpa using hx
  rcases List.append_eq_append_iff.1 hx' with ⟨y, -, hy⟩ | ⟨y, rfl, hy⟩
  · -- the closing quote does not stand behind the semicolon
    have hmem : '"' ∈ ';' :: rest := by
      rw [hy]
      simp
    rcases List.mem_cons.1 hmem with habsurd | hmem
    · exact absurd habsurd (by decide)
    · exact absurd hmem hrest
  · cases y with
    | nil => exact absurd (List.cons.inj hy).1 (by decide)
    | cons c y =>
      obtain ⟨rfl, rfl⟩ := List.cons.inj hy
      exact ⟨x, y, rfl, by simp, rfl⟩

/-- What stands in quotes in a filter can be exchanged: one criterion's value changes, and the filter ends before the same
text. -/
theorem filter_exchange {c c' : Cursor} {clause : Node Rule} {kind : Kind} {criteria : List Criterion} {v w b : List Char}
    (h : (c.extend ('"' :: (v ++ '"' :: b))).accept? .filterClause = some (clause, c'))
    (hread : readFilter kind clause = .ok criteria) (hc : EvenQuotes c.rest) (hrest : Unquoted c'.rest) (hv : Unquoted v)
    (hw : Quotable w) :
    ∃ cs₁ d cs₂ clause' o', criteria = cs₁ ++ d :: cs₂ ∧ d.value = .text (String.ofList v) ∧
      (c.extend ('"' :: (w ++ '"' :: b))).accept? .filterClause = some (clause', ⟨o', c'.rest⟩) ∧
      readFilter kind clause' = .ok (cs₁ ++ { d with value := .text (String.ofList w) } :: cs₂) := by
  obtain ⟨o, ns, hrun, hnodes, rfl⟩ := accept?_eq_some.1 h
  rw [skipBlanks_extend_quote] at hrun
  have heven : EvenQuotes c.skipBlanks.rest := by
    have hover : Over isBlank (c.rest.takeWhile isBlank) := over_takeWhile c.rest
    have hsplit : c.rest.takeWhile isBlank ++ c.rest.dropWhile isBlank = c.rest := List.takeWhile_append_dropWhile
    rw [← hsplit, evenQuotes_append (unquoted_of_over_isBlank hover).evenQuotes] at hc
    exact hc
  obtain ⟨n, hn, hcases⟩ := filterClause_cases hrun
  obtain ⟨rfl, -⟩ := List.cons.inj (hnodes.symm.trans hn)
  simp only [Cursor.extend] at hcases
  rcases hcases with ⟨h₁, hall, htext, -⟩ | ⟨h₁, body, o₁, one, hwhose, htext, hne, hstops, hone, hbody, hclause⟩
  · -- a filter without a body has no quotes
    have hmem : '"' ∈ h₁ ++ ';' :: o.rest := by
      rw [← htext]
      simp
    rcases List.mem_append.1 hmem with hmem | hmem
    · exact absurd hmem hall.unquoted
    · rcases List.mem_cons.1 hmem with habsurd | hmem
      · exact absurd habsurd (by decide)
      · exact absurd hmem hrest
  · obtain ⟨x, y, hx, rfl, hb⟩ := exists_body_of_quoted hwhose.unquoted hrest htext
    have hxeven : EvenQuotes x := by
      rw [hx, evenQuotes_append hwhose.unquoted.evenQuotes] at heven
      exact heven
    obtain ⟨texts, connectives, hsplit, hcriteria⟩ := (readFilter_eq_ok hclause).1 hread
    have hbalanced : Balanced (x ++ '"' :: (v ++ '"' :: y)) := by
      have hquotes := evenQuotes_of_readCriteria hsplit hcriteria
      rw [← hbody] at hquotes ⊢
      exact balanced_of_repeated hone hquotes
    have hbalanced' : Balanced (x ++ '"' :: (w ++ '"' :: y)) := hbalanced.replace rfl hxeven hv hw.unquoted
    have hstops' : Stops isGap (x ++ '"' :: (w ++ '"' :: y)) := by
      cases x with
      | nil => exact stops_cons.2 (by decide)
      | cons d x => exact stops_cons.2 (stops_cons.1 hstops)
    obtain ⟨n', hrun', hn'⟩ := run_filterClause_whose hwhose hbalanced' (by simp) hstops' o.rest c.skipBlanks.offset
    obtain ⟨cs₁, d, cs₂, rfl, hvalue, hread'⟩ := readFilter_exchange hclause hn' hread hxeven hv hw
    have hskip : (c.extend ('"' :: (w ++ '"' :: b))).skipBlanks =
        ⟨c.skipBlanks.offset, h₁ ++ (x ++ '"' :: (w ++ '"' :: y) ++ ';' :: o.rest)⟩ := by
      rw [skipBlanks_extend_quote]
      simp [Cursor.extend, hx, hb]
    exact ⟨cs₁, d, cs₂, n', _, rfl, hvalue, accept?_of_run hskip hrun', hread'⟩

/-! ## The sentence -/

/-- The first quote of a text that has a quoted part stands before it or opens it. -/
theorem exists_first_quote {a : List Char} (ha : EvenQuotes a) (b : List Char) :
    ∃ (a₁ : List Char) (y : List Char → List Char), Unquoted a₁ ∧
      (∀ v, a ++ '"' :: (v ++ '"' :: b) = a₁ ++ '"' :: y v) ∧
      ∀ x, Unquoted x → ∃ a', EvenQuotes a' ∧ ∀ v, x ++ '"' :: y v = a' ++ '"' :: (v ++ '"' :: b) := by
  by_cases hmem : '"' ∈ a
  · obtain ⟨a₁, a₂, rfl, ha₁⟩ := List.eq_append_cons_of_mem hmem
    have ha₁ : Unquoted a₁ := ha₁
    refine ⟨a₁, fun v => a₂ ++ '"' :: (v ++ '"' :: b), ha₁, fun v => by simp, fun x hx => ?_⟩
    refine ⟨x ++ '"' :: a₂, ?_, fun v => by simp⟩
    exact (evenQuotes_append hx.evenQuotes).2 ((evenQuotes_append ha₁.evenQuotes).1 ha)
  · have ha₁ : Unquoted a := hmem
    exact ⟨a, fun v => v ++ '"' :: b, ha₁, fun v => rfl, fun x hx => ⟨x, hx.evenQuotes, fun v => rfl⟩⟩

/-- The content of a literal can be exchanged: for a sentence with a text `v` in quotes that is accepted, and a text `w` without
quotes and stars, the sentence with `w` in place of `v` is accepted, and its plan is the same but for one criterion, whose
value was `v` and is `w`. -/
theorem ofSentence_exchange {a v w b : String} {p : Plan} (h : Plan.ofSentence (a ++ "\"" ++ v ++ "\"" ++ b) = .ok p)
    (ha : a.toList.count '"' % 2 = 0) (hv : '"' ∉ v.toList) (hw : ∀ c ∈ w.toList, c ≠ '"' ∧ c ≠ '*') :
    ∃ cs₁ c cs₂, p.criteria = cs₁ ++ c :: cs₂ ∧ c.value = .text v ∧
      Plan.ofSentence (a ++ "\"" ++ w ++ "\"" ++ b) =
        .ok { p with criteria := cs₁ ++ { c with value := .text w } :: cs₂ } := by
  have htext : ∀ x : String, (a ++ "\"" ++ x ++ "\"" ++ b).toList = a.toList ++ '"' :: (x.toList ++ '"' :: b.toList) := by
    intro x
    simp
  obtain ⟨a₁, y, ha₁, hfirst, hbehind⟩ := exists_first_quote ha b.toList
  have hstart : ∀ x : String, Cursor.start (a ++ "\"" ++ x ++ "\"" ++ b).toList =
      (Cursor.start a₁).extend ('"' :: y x.toList) := by
    intro x
    rw [htext, hfirst]
    rfl
  obtain ⟨head, c, clause, c', criteria, tail, hhead, hfilter, hread, htail, rfl, hvalid⟩ := ofSentence_eq_ok.1 h
  rw [hstart] at hhead
  have hsuffix := readHead_suffix hhead
  obtain ⟨c₁, rfl, hhead'⟩ := readHead_exchange hhead
  have hc₁ : Unquoted c₁.rest := by
    obtain ⟨t, ht⟩ := hsuffix
    have hcut : t ++ c₁.rest = a₁ := List.append_cancel_right (by simpa [Cursor.extend, Cursor.start] using ht)
    intro hmem
    exact ha₁ (hcut ▸ List.mem_append_right t hmem)
  obtain ⟨a', ha', hrest⟩ := hbehind c₁.rest hc₁
  have hextend : ∀ x, c₁.extend ('"' :: y x) = (⟨c₁.offset, a'⟩ : Cursor).extend ('"' :: (x ++ '"' :: b.toList)) := by
    intro x
    simp only [Cursor.extend, hrest]
  rw [hextend] at hfilter
  obtain ⟨cs₁, d, cs₂, clause', o', rfl, hvalue, hfilter', hread'⟩ :=
    filter_exchange hfilter hread ha' (unquoted_of_readTail htail) hv hw
  rw [String.ofList_toList] at hvalue hread'
  have hnewHead := hhead' (y w.toList)
  rw [← hstart, hextend] at hnewHead
  exact ⟨cs₁, d, cs₂, rfl, hvalue, ofSentence_eq_ok.2 ⟨head, _, clause', _, _, tail, hnewHead, hfilter', hread',
    readTail_offset htail, rfl, hvalid⟩⟩

/-- A literal may hold what looks like the rest of a sentence. -/
theorem ofSentence_exchange_clauses :
    ∃ cs₁ c cs₂, [⟨"title", .text .is, .text "Intro", some .and⟩, ⟨"dept", .text .is, .text "cpsc", none⟩] =
        cs₁ ++ c :: cs₂ ∧ c.value = .text "cpsc" ∧
      Plan.ofSentence ("In courses dataset sfu, find entries whose Title is \"Intro\" and Department is " ++ "\"" ++
          "x or Title is y; show ID. " ++ "\"" ++ "; show Title.") =
        .ok ⟨.courses, "sfu", cs₁ ++ { c with value := .text "x or Title is y; show ID. " } :: cs₂, ["title"], [], [],
          .unsorted, none⟩ :=
  ofSentence_exchange
    (p := ⟨.courses, "sfu",
      [⟨"title", .text .is, .text "Intro", some .and⟩, ⟨"dept", .text .is, .text "cpsc", none⟩], ["title"], [], [],
      .unsorted, none⟩)
    (v := "cpsc") (by decide +kernel) (by decide) (by decide) (show Quotable _ by decide)

end SentenceQuery
