import SentenceQuery.Proofs.Sentence.GluedTail

/-!
# Keywords need blanks behind them

In a sentence that says a query the blanks behind a keyword cannot be left out. The keyword then makes one word with the word
behind it, which may be a name, so more may be read than was before: a list may go on with it, and a condition may reach over
the next one. But the sentence is refused for its wording, whichever keyword it is (`ofSentence_glued_keyword`).
-/

namespace SentenceQuery

open Grammar Sentence Pattern

/-! ## The clauses before the filter -/

/-- The groups are read or are not there, and the filter clause behind them is refused. -/
def RefusedBehindGroups (kind : Kind) (s : List Char) : Prop :=
  ∀ o, ∃ groups c, readOptional .groupClause ⟨o, s⟩ [] (readColumnList kind) = .ok (groups, c) ∧
    Refused (readFilterClause kind c)

/-- Where a keyword of the group clause runs into a word, no filter clause is found; otherwise the keyword without blanks
stands behind the clause. -/
theorem glued_groupPieces {kind : Kind} {tokens : List String} (htokens : ∀ token ∈ tokens, IsToken kind token)
    {ps qs : List Piece} (h : GroupPieces tokens ps) {s : List Char} (hs : Glued (ps ++ qs) s) :
    RefusedBehindGroups kind s ∨ ∃ s', s = written ps ++ s' ∧ Glued qs s' := by
  cases h with
  | absent => exact Or.inr ⟨s, rfl, hs⟩
  | @present _ u l ps hne hu hl hps =>
    have hwords : List.Forall₂ ReadsWord [text "grouped", text "by"] [.keyword "grouped", .keyword "by"] :=
      .cons (readsWord_text (by decide)) (.cons (readsWord_text (by decide)) .nil)
    have hfirst : WordFirst ps := hps.wordFirst (IsWord.startsWord (by decide))
    obtain ⟨s₁, rfl, hs₁⟩ := glued_text_cons hs
    have hword := (hfirst.append qs).startsWord_of_glued hs₁
    rcases glued_columnsClause hwords hps (columnPieces_of_tokenPieces htokens hl) hs₁ with
      hnone | ⟨names, l', t, r, hinitial, hl', ht, rfl, hr, v, y, hv, rfl⟩ | ⟨s', rfl, hs'⟩
    · refine Or.inl fun o => ⟨[], _, readOptional_of_none ?_ _ _, refused_readFilterClause ?_⟩
      · exact accept?_eq_none (skipBlanks_append hu hword.stops_isBlank o) (congrArg (Option.map _) (hnone _))
      · exact accept?_eq_none_of_startsWord rfl hu hword o
    · refine Or.inl fun o => ?_
      have hnames : ∀ token ∈ names, IsToken kind token := fun token h => htokens token (hinitial.subset h)
      obtain ⟨o', hread⟩ := readOptional_groupClause hnames hu hl' ht hr o
      have hword : StartsWord ('a' :: y) := ⟨'a', y, rfl, by decide⟩
      exact ⟨_, _, hread, refused_readFilterClause (accept?_eq_none_of_startsWord rfl hv hword o')⟩
    · exact Or.inr ⟨s', by simp, hs'⟩

theorem isAsciiWord_find_append {w : String} (h : w = "all" ∨ w = "entries") : IsAsciiWord ("find" ++ w) := by
  rcases h with rfl | rfl <;> decide

/-- Where `find` runs into a word, no filter clause is found: the two may be a further group column. -/
theorem refusedBehindGroups_of_findGlued {kind : Kind} {tokens : List String}
    (htokens : ∀ token ∈ tokens, IsToken kind token) {ps : List Piece} (h : GroupPieces tokens ps) {u s : List Char}
    (hu : Over isBlank u) (hs : FindGlued u s) : RefusedBehindGroups kind (written ps ++ s) := by
  have hnone := hs.accept?_eq_none hu
  obtain ⟨g, w, g', r, hg, hw, hne', hg', ⟨c, r', rfl, hc, hupper, ha⟩, rfl⟩ := hs
  cases h with
  | absent =>
    refine fun o => ⟨[], _, readOptional_of_none ?_ _ _, refused_readFilterClause (hnone o)⟩
    exact accept?_eq_none (skipBlanks_append hu (stops_cons.2 (by decide)) o) rfl
  | @present _ v l ps hne hv hl hps =>
    have hword : IsWord w.toList := by rcases hw with rfl | rfl <;> decide
    have hl' := columnsText_of_columnPieces (columnPieces_of_tokenPieces htokens hl)
    obtain ⟨names, l', r, hnames, htext, hr, hcases⟩ := exists_columns_glued hl' hu hg
      (isName_keyword_append (k := "find") (by decide) hword) (listEnds_word hne' hg' hc hupper ha)
    obtain ⟨front, hfront, hspaced⟩ := hps.exists_front
    rw [written_cons, hfront, chars_text, List.append_assoc, List.append_assoc, htext, ← List.append_assoc front]
    intro o
    rcases hcases with ⟨rfl, rfl⟩ | ⟨rfl, rfl⟩
    · obtain ⟨o', hread⟩ := readOptional_groupClause htokens hv hnames (hspaced l') hr o
      exact ⟨_, _, hread, refused_readFilterClause (hnone o')⟩
    · have htokens' := isToken_of_mem_concat htokens (isAsciiWord_find_append hw)
      obtain ⟨o', hread⟩ := readOptional_groupClause htokens' hv hnames (hspaced l') hr o
      have hword : StartsWord (c :: r') := ⟨c, r', rfl, hc⟩
      exact ⟨_, _, hread, refused_readFilterClause (accept?_eq_none_of_startsWord rfl (over_isBlank_of_isGap hg') hword o')⟩

/-- Behind the dataset's id no further character of a word comes. -/
theorem stops_isWordChar_of_glued {tokens : List String} {filter : Option Conditions} {group clause qs : List Piece}
    (hgroup : GroupPieces tokens group) {u : List Char} (hu : Over isBlank u) (hfilter : FilterPieces filter clause)
    {s : List Char} (hs : Glued (group ++ (.text u :: (clause ++ qs))) s) : Stops isWordChar s := by
  cases hgroup with
  | absent =>
    obtain ⟨s₁, rfl, hs₁⟩ := glued_text_cons hs
    have hmark : ∃ r, s₁ = ',' :: r := by
      cases hfilter <;>
        obtain ⟨s₂, rfl, -⟩ := glued_text_cons hs₁ <;>
        exact ⟨_, rfl⟩
    obtain ⟨r, rfl⟩ := hmark
    cases u with
    | nil => exact stops_cons.2 (by decide)
    | cons c u => exact stops_isWordChar_of_isBlank (List.cons_ne_nil c u) hu _
  | present hne hv _ _ =>
    obtain ⟨s₁, rfl, -⟩ := glued_text_cons hs
    exact stops_isWordChar_of_isBlank hne hv s₁

/-! ## The sentence -/

/-- A sentence is read part by part. -/
theorem ofSentence_eq_readers (s : String) :
    Plan.ofSentence s = readHead (Cursor.start s.toList) >>= fun head =>
      readFilterClause head.1.1 head.2 >>= fun filter =>
        readTail head.1.1 head.1.2.2 filter.2 >>= fun tail =>
          (Plan.ofParts head.1 filter.1 tail).validate >>= fun _ => .ok (Plan.ofParts head.1 filter.1 tail) := by
  simp only [Plan.ofSentence, readHead, readFilterClause, readTail, readColumnList, bind_assoc, ok_bind]
  rfl

/-- A sentence whose first clause is not read is refused. -/
theorem refused_ofSentence_of_dataset {t : List Char} (h : (Cursor.start t).accept? .datasetClause = none) :
    Refused (Plan.ofSentence (String.ofList t)) := by
  rw [ofSentence_eq_readers, String.toList_ofList]
  exact ((refused_expect .dataset h).bind _).bind _

theorem refused_ofSentence_of_filter {t : List Char} {head : Kind × String × List String} {c : Cursor}
    (hhead : readHead (Cursor.start t) = .ok (head, c)) (h : Refused (readFilterClause head.1 c)) :
    Refused (Plan.ofSentence (String.ofList t)) := by
  rw [ofSentence_eq_readers, String.toList_ofList, hhead, ok_bind]
  exact h.bind _

theorem refused_ofSentence_of_tail {t : List Char} {head : Kind × String × List String} {criteria : List Criterion}
    {c c' : Cursor} (hhead : readHead (Cursor.start t) = .ok (head, c))
    (hfilter : readFilterClause head.1 c = .ok (criteria, c')) (h : Refused (readTail head.1 head.2.2 c')) :
    Refused (Plan.ofSentence (String.ofList t)) := by
  rw [ofSentence_eq_readers, String.toList_ofList, hhead, ok_bind, hfilter, ok_bind]
  exact h.bind _

/-- Where a keyword behind the dataset clause runs into a word, the sentence is refused. -/
theorem refused_ofSentence_behind_dataset {q : Query} (hq : q.WellFormed) {t s : List Char} {o : Nat}
    (hhead : ∀ {groups c}, readOptional .groupClause ⟨o, s⟩ [] (readColumnList q.kind) = .ok (groups, c) →
      readHead (Cursor.start t) = .ok ((q.kind, q.dataset, groups), c))
    {u₂ u₃ e : List Char} {group filter l display apply sort : List Piece} (hgroup : GroupPieces q.groups group)
    (h₂ : Over isBlank u₂) (hfilter : FilterPieces q.filter filter) (h₃ : Over isBlank u₃) (hl : TokenPieces q.shown l)
    (hdisplay : SpacedPieces [.keyword "show"] l display) (happly : ApplyPieces q.derived apply)
    (hsort : SortPieces q.order sort)
    (hs : Glued (group ++ (.text u₂ :: (filter ++ (.text u₃ :: (display ++ (apply ++ (sort ++ [.text e]))))))) s) :
    Refused (Plan.ofSentence (String.ofList t)) := by
  have hgroup' := groupPart_iff_exists_pieces.2 ⟨_, hgroup, rfl⟩
  have hfilter' := filterPart_iff_exists_pieces.2 ⟨_, hfilter, rfl⟩
  rcases glued_groupPieces hq.groups hgroup hs with hrefused | ⟨s₁, rfl, hs₁⟩
  · obtain ⟨groups, c, hgroups, hrefused⟩ := hrefused o
    exact refused_ofSentence_of_filter (hhead hgroups) hrefused
  obtain ⟨s₂, rfl, hs₂⟩ := glued_text_cons hs₁
  rcases glued_filterPieces hq.filter h₂ hfilter hs₂ with hfind | ⟨hstart, hcases⟩
  · -- what the group clause reads depends on the filter clause here: it may take `find` for a column
    obtain ⟨groups, c, hgroups, hrefused⟩ := refusedBehindGroups_of_findGlued hq.groups hgroup h₂ hfind o
    exact refused_ofSentence_of_filter (hhead hgroups) hrefused
  obtain ⟨o', hgroups⟩ := readOptional_groupPart hq.groups hgroup' hstart o
  rcases hcases with hrefused | ⟨s₃, rfl, hs₃⟩
  · exact refused_ofSentence_of_filter (hhead hgroups) (hrefused o')
  obtain ⟨s₄, rfl, hs₄⟩ := glued_text_cons hs₃
  obtain ⟨clause, o'', haccept, hcriteria⟩ := accept?_filterPart hq.filter hfilter' h₂ o' (u₃ ++ s₄)
  have hread := readFilterClause_eq q.kind haccept
  rw [hcriteria, ok_bind] at hread
  exact refused_ofSentence_of_tail (hhead hgroups) hread
    (refused_readTail_of_glued hq h₃ hl hdisplay happly hsort hs₄ o'')

/-- A sentence in which a keyword runs into a word is refused for its wording. -/
theorem refused_ofSentence_of_glued {q : Query} (hq : q.WellFormed) {ps : List Piece} (h : q.Marked ps) {s : List Char}
    (hs : Glued ps s) : Refused (Plan.ofSentence (String.ofList s)) := by
  cases h with
  | @mk u₁ _ _ _ _ dataset _ _ _ _ _ _ h₁ hdataset hgroup h₂ hfilter h₃ hl hdisplay happly hsort h₄ hg =>
  have hwords : List.Forall₂ ReadsWord [text "In", Grammar.kind, text "dataset"]
      [.keyword "In", .text q.kind.name.toList, .keyword "dataset"] :=
    .cons (readsWord_text (by decide)) (.cons (readsWord_kind q.kind.isWord_name)
      (.cons (readsWord_text (by decide)) .nil))
  have hid : WordFirst [.text q.dataset.toList] := ⟨_, _, rfl, hq.dataset.isWord.startsWord⟩
  obtain ⟨s₁, rfl, hs₁⟩ := glued_text_cons hs
  rcases glued_inWords hwords hdataset hid hs₁ with hnone | ⟨s₂, hread, hs₂⟩
  · have hfirst : WordFirst dataset := hdataset.wordFirst (IsWord.startsWord (by decide))
    have hblank := ((hfirst.append _).startsWord_of_glued hs₁).stops_isBlank
    exact refused_ofSentence_of_dataset
      (accept?_eq_none (skipBlanks_append h₁ hblank 0) (congrArg (Option.map _) (hnone _ _)))
  · obtain ⟨front, -, rfl, hspaced⟩ := hread.spaced
    obtain ⟨s₃, rfl, hs₃⟩ := glued_text_cons hs₂
    obtain ⟨o, hhead⟩ :=
      exists_readHead hq h₁ (hspaced q.dataset.toList) (stops_isWordChar_of_glued hgroup h₂ hfilter hs₃)
    simp only [List.append_assoc] at hhead
    exact refused_ofSentence_behind_dataset hq hhead hgroup h₂ hfilter h₃ hl hdisplay happly hsort hs₃

/-- A marked sentence of a query that means something is accepted. -/
theorem Query.Marked.ofSentence {q : Query} (hq : q.WellFormed) {ps : List Piece} (h : q.Marked ps) :
    Plan.ofSentence (String.ofList (written ps)) = .ok q.plan := by
  generalize htext : written ps = t
  cases worded_iff_exists_marked.2 ⟨ps, h, htext⟩ with
  | mk h₁ hdataset hgroup h₂ hfilter h₃ hl hdisplay happly hsort h₄ hg =>
  obtain ⟨o, hhead⟩ := readHead_of_worded hq h₁ hdataset hgroup (startsWithKeyword_of_filterPart hfilter h₂ _)
  obtain ⟨clause, o', haccept, hread⟩ := accept?_filterPart hq.filter hfilter h₂ o _
  have htail := readTail_of_worded hq h₃ hl hdisplay happly hsort h₄ hg o'
  rw [← String.toList_ofList (l := _ ++ _)] at hhead
  exact ofSentence_eq_ok.2 ⟨_, _, clause, _, _, _, hhead, haccept, hread, htail, rfl, validate_plan hq⟩

/-- A sentence that says a query keeps its meaning only with the blanks behind its keywords: cut into pieces, with each keyword
marked, it is accepted, and without the blanks behind any one of the keywords it is refused for its wording. -/
theorem ofSentence_glued_keyword {q : Query} (hq : q.WellFormed) :
    (∀ t, q.Worded t ↔ ∃ ps, q.Marked ps ∧ written ps = t) ∧
      ∀ before k after, q.Marked (before ++ .keyword k :: after) →
        Plan.ofSentence (String.ofList (written (before ++ .keyword k :: after))) = .ok q.plan ∧
          ∃ e, Plan.ofSentence (String.ofList (written before ++ (k.toList ++ trimStart (written after)))) = .error e ∧
            e.kind = "GrammarError" := by
  refine ⟨fun t => worded_iff_exists_marked, fun before k after h => ⟨h.ofSentence hq, ?_⟩⟩
  obtain ⟨fault, hfault⟩ := refused_ofSentence_of_glued hq h (glued_of_keyword before k after)
  exact ⟨_, hfault, rfl⟩

/-- The word `where` runs into the name that it defines, and `or` into a column. -/
theorem ofSentence_glued_keyword_where_or :
    (∃ e, Plan.ofSentence ("In courses dataset sfu grouped by Department, find entries whose Average is greater than 70.5 or " ++
        "Title is \"a; b, or c.\"; show Department and top, wheretop is the MAX of Average; " ++
        "sort in descending order by top.") = .error e ∧ e.kind = "GrammarError") ∧
      ∃ e, Plan.ofSentence ("In courses dataset sfu grouped by Department, find entries whose Average is greater than 70.5 or" ++
        "Title is \"a; b, or c.\"; show Department and top, where top is the MAX of Average; " ++
        "sort in descending order by top.") = .error e ∧ e.kind = "GrammarError" := by
  have hgap : Over isGap [' '] := by decide
  have hblank : Over isBlank [' '] := by decide
  have hnumber := spaced_furtherText "Average".toList ["is greater than".toList, "70.5".toList]
  have htext := spaced_furtherText "Title".toList ["is".toList, "\"a; b, or c.\"".toList]
  have hshown : TokenPieces ["Department", "top"] _ :=
    ListPieces.more rfl (SeparatorPieces.and hgap (by decide) hgap (by decide)) (ListPieces.last rfl)
  have hmarked := Query.Marked.mk
    (q := ⟨.courses, "sfu", ["Department"],
      some ⟨⟨"Average", .number .greaterThan, .number ⟨false, "70".toList, some "5".toList⟩⟩,
        [(.or, ⟨"Title", .text .is, .text "a; b, or c."⟩)]⟩,
      ["Department", "top"], [⟨"top", .max, "Average"⟩], some (.descending, ["top"])⟩)
    over_nil (spacedPieces_blank _ _)
    (GroupPieces.present (by decide) hblank (ListPieces.last rfl) (spacedPieces_blank _ _)) over_nil
    (FilterPieces.whose hgap (spacedPieces_blank _ _) (by decide) hgap over_nil
      (JoinedPieces.more hnumber (by decide) hblank (by decide) hblank (JoinedPieces.last htext)) over_nil)
    hblank hshown (spacedPieces_blank _ _)
    (ApplyPieces.present over_nil hgap (ListPieces.last (spacedPieces_blank _ _)) (spacedPieces_blank _ _))
    (SortPieces.present over_nil hgap (ListPieces.last rfl) (spacedPieces_blank _ _)) over_nil over_nil
  have hrefused : ∀ {q : Query} {ps : List Piece}, q.WellFormed → q.Marked ps →
      ∀ (i : Nat) {k : String}, ps[i]? = some (.keyword k) → ∀ {s : String},
        s = String.ofList (written (ps.take i) ++ (k.toList ++ trimStart (written (ps.drop (i + 1))))) →
          ∃ e, Plan.ofSentence s = .error e ∧ e.kind = "GrammarError" := by
    intro q ps hq hps i k hi s hs
    obtain ⟨hlt, hkeyword⟩ := List.getElem?_eq_some_iff.1 hi
    rw [← List.take_append_drop i ps, List.drop_eq_getElem_cons hlt, hkeyword] at hps
    rw [hs]
    exact ((ofSentence_glued_keyword hq).2 _ k _ hps).2
  exact ⟨hrefused (by decide) hmarked 37 (k := "where") rfl (by decide +kernel),
    hrefused (by decide) hmarked 24 (k := "or") rfl (by decide +kernel)⟩

end SentenceQuery
