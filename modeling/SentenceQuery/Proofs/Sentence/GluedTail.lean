import SentenceQuery.Proofs.Sentence.GluedFilter

/-!
# Clauses behind the filter in which a keyword runs into a word

Where a keyword behind the filter runs into the word behind it, the display clause is not there, or no full stop is found
where the reading of the clauses ends (`refused_readTail_of_glued`): a clause that is not read is left standing, and so is what
stands behind the members of a list that breaks off.
-/

namespace SentenceQuery

open Grammar Sentence Pattern

/-! ## Where no full stop is found -/

/-- The sort clause is read or is not there, and no full stop stands behind it. -/
def NoFinish (kind : Kind) (c : Cursor) : Prop :=
  ∃ order c', readOptional .sortClause c Order.unsorted (readOrder kind) = .ok (order, c') ∧ c'.accept? .finish = none

/-- The apply clause is read or is not there, and no full stop stands behind it and the sort clause. -/
def NoFinishBehind (kind : Kind) (groupFields : List String) (c : Cursor) : Prop :=
  ∃ defs c', readOptional .applyClause c [] (readDefinitions kind groupFields) = .ok (defs, c') ∧ NoFinish kind c'

theorem refused_readTail {kind : Kind} {groupFields shown : List String} {c c' : Cursor} {clause : Node Rule}
    (hdisplay : c.accept? .displayClause = some (clause, c')) (hshown : readColumnList kind clause = .ok shown)
    (hrest : NoFinishBehind kind groupFields c') : Refused (readTail kind groupFields c) := by
  obtain ⟨defs, c₁, hdefs, order, c₂, horder, hfinish⟩ := hrest
  have hexpect : c.expect .display = .ok (clause, c') := expect_eq_ok.2 hdisplay
  rw [readTail, hexpect, ok_bind]
  simp only [hshown, hdefs, horder, ok_bind]
  exact (refused_expect .finish hfinish).bind _

theorem NoFinish.behind {kind : Kind} {c : Cursor} (h : NoFinish kind c) (happly : c.accept? .applyClause = none)
    (groupFields : List String) : NoFinishBehind kind groupFields c :=
  ⟨[], c, readOptional_of_none happly _ _, h⟩

/-- Neither the sort clause nor the full stop is there where another mark comes next. -/
theorem noFinish_of_comesNext (kind : Kind) {c : Char} {s : List Char} (h : ComesNext c s) (hblank : isBlank c = false)
    (hsort : ';' ≠ c) (hfinish : '.' ≠ c) (o : Nat) : NoFinish kind ⟨o, s⟩ :=
  ⟨_, _, readOptional_of_none (accept?_eq_none_of_mark rfl h hblank hsort o) _ _,
    accept?_eq_none_of_mark rfl h hblank hfinish o⟩

/-- None of the three is there where a word comes next. -/
theorem noFinishBehind_of_startsWord (kind : Kind) (groupFields : List String) {u s : List Char} (hu : Over isBlank u)
    (hs : StartsWord s) (o : Nat) : NoFinishBehind kind groupFields ⟨o, u ++ s⟩ := by
  refine NoFinish.behind ⟨_, _, readOptional_of_none ?_ _ _, ?_⟩ ?_ groupFields
  · exact accept?_eq_none_of_startsWord rfl hu hs o
  · exact accept?_eq_none_of_startsWord rfl hu hs o
  · exact accept?_eq_none_of_startsWord rfl hu hs o

/-! ## The order -/

/-- A clause that starts with a mark is not read where what stands behind the mark and blanks is not. -/
theorem run_mark_sp_eq_none (mark : String) {q : Pattern Rule} {g s : List Char} (hg : Over isGap g) (hs : Stops isGap s)
    (hq : ∀ offset, q.run offset s = none) (rule : Rule) (offset : Nat) :
    (node rule (seq (text mark) (seq sp q))).run offset (mark.toList ++ (g ++ s)) = none := by
  have hseq : (seq sp q).run (offset + byteSize mark.toList) (g ++ s) = none := by
    rw [run, run_sp_append hg hs]
    simp only [hq]
  rw [run, run, run_text_append]
  simp only [hseq, Option.map_none]

theorem columnPieces_of_tokenPieces {kind : Kind} {tokens : List String} (h : ∀ token ∈ tokens, IsToken kind token)
    {ps : List Piece} (hps : TokenPieces tokens ps) : ColumnPieces tokens ps :=
  hps.imp fun token htoken _ heq => ⟨fieldText_of_isToken (h token htoken), heq⟩

theorem columnsText_of_columnPieces {names : List String} {ps : List Piece} (h : ColumnPieces names ps) :
    ColumnsText names (written ps) :=
  h.listText fun name ps h => (memberPieces_column name ps h).member

/-- Where a keyword of the sort clause runs into a word, no full stop is found. -/
theorem noFinish_of_glued {kind : Kind} {order : Option (Direction × List String)}
    (horder : ∀ o ∈ order, ∀ token ∈ o.2, IsToken kind token) {ps : List Piece} (h : SortPieces order ps) {t s : List Char}
    (hs : Glued (ps ++ [.text t]) s) : ComesNext ';' s ∧ ∀ o, NoFinish kind ⟨o, s⟩ := by
  have hend : ∀ {s'}, ¬Glued [.text t] s' := by
    intro s' hs'
    obtain ⟨_, -, habsurd⟩ := glued_text_cons hs'
    exact not_glued_nil habsurd
  cases h with
  | absent => exact (hend hs).elim
  | @present direction tokens u g l ps hu hg hl hps =>
    have htokens := horder (direction, tokens) rfl
    have hwords : List.Forall₂ ReadsWord [text "sort", text "in", Grammar.direction, text "order", text "by"]
        [.keyword "sort", .keyword "in", .keyword direction.word, .keyword "order", .keyword "by"] :=
      .cons (readsWord_text (by decide)) (.cons (readsWord_text (by decide)) (.cons (readsWord_direction direction)
        (.cons (readsWord_text (by decide)) (.cons (readsWord_text (by decide)) .nil))))
    have hfirst : WordFirst ps := hps.wordFirst (IsWord.startsWord (by decide))
    obtain ⟨s₁, rfl, hs₁⟩ := glued_text_cons hs
    have hnext : ComesNext ';' (u ++ ';' :: g ++ s₁) := ⟨u, g ++ s₁, hu, by simp⟩
    refine ⟨hnext, fun o => ?_⟩
    rcases glued_columnsClause hwords hps (columnPieces_of_tokenPieces htokens hl) hs₁ with
      hnone | ⟨names, l', t', r, hinitial, hl', ht', rfl, hr, hand⟩ | ⟨s', -, hs'⟩
    · have hgap := ((hfirst.append [.text t]).startsWord_of_glued hs₁).stops_isGap
      have hskip := skipBlanks_append hu (stops_cons.2 (by decide) : Stops isBlank (';' :: (g ++ s₁))) o
      have hsort : (⟨o, u ++ ';' :: (g ++ s₁)⟩ : Cursor).accept? .sortClause = none :=
        accept?_eq_none hskip (run_mark_sp_eq_none ";" hg hgap hnone .sortClause _)
      rw [List.append_assoc, List.cons_append] at hnext ⊢
      exact ⟨_, _, readOptional_of_none hsort _ _, accept?_eq_none_of_mark rfl hnext (by decide) (by decide) o⟩
    · have htokens' : ∀ token ∈ names, IsToken kind token := fun token h => htokens token (hinitial.subset h)
      obtain ⟨o', hread⟩ := readOptional_sortClause htokens' hu hg hl' ht' hr o
      have htext : u ++ ';' :: g ++ (t' ++ r) = u ++ (';' :: (g ++ t') ++ r) := by simp
      rw [htext]
      exact ⟨_, _, hread, accept?_eq_none_of_mark rfl hand (by decide) (by decide) o'⟩
    · exact (hend hs').elim

/-! ## The definitions -/

theorem isAsciiWord_where_append {w : String} (h : IsAsciiWord w) : IsAsciiWord ("where" ++ w) := by
  have hname := isName_keyword_append (k := "where") (by decide) h.isWord
  rw [← String.toList_append] at hname
  have hkeyword := hname.2
  rw [String.ofList_toList] at hkeyword
  have hphrase : ∀ p ∈ Operator.phrases, ¬"where".toList <+: p.toList := by decide
  refine ⟨fun hempty => hname.1.1 (by rw [hempty]; rfl), ?_, hkeyword, fun hmem => ?_⟩
  · rw [String.toList_append]
    exact over_append.2 ⟨by decide, h.chars⟩
  · exact hphrase _ hmem (by simp)

/-- A word that starts with a keyword as a further token. -/
theorem isToken_of_mem_concat {kind : Kind} {tokens : List String} (htokens : ∀ token ∈ tokens, IsToken kind token)
    {k w : String} (h : IsAsciiWord (k ++ w)) :
    ∀ token ∈ tokens ++ [String.ofList (k.toList ++ w.toList)], IsToken kind token := by
  intro token htoken
  rcases List.mem_append.1 htoken with htoken | htoken
  · exact htokens token htoken
  · rw [List.mem_singleton.1 htoken, ← String.toList_append, String.ofList_toList]
    exact Or.inr h

/-- Behind the columns shown no full stop is found: the columns are perhaps one more, and where they end the other clauses
are read or are not there. -/
def ShownWithoutFinish (kind : Kind) (groupFields : List String) (s : List Char) : Prop :=
  ∃ tokens l r, (∀ token ∈ tokens, IsToken kind token) ∧ ColumnsText tokens l ∧ s = l ++ r ∧ ListEnds field r ∧
    ∀ o, NoFinishBehind kind groupFields ⟨o, r⟩

/-- Where the definitions are not read, or break off, no full stop is found. -/
theorem noFinishBehind_of_definitions {kind : Kind} {groupFields : List String} {ds : List Derivation}
    (hds : ∀ d ∈ ds, d.WellFormed kind groupFields) (hnames : (ds.map Derivation.name).Nodup) {u g g' s : List Char}
    (hu : Over isBlank u) (hg : Over isGap g) (hne : g' ≠ []) (hg' : Over isGap g')
    (hs : BreaksOff applyDef (fun s => ∀ offset, applyDef.run offset s = none) DefinitionText ds s) (o : Nat) :
    NoFinishBehind kind groupFields ⟨o, u ++ ',' :: (g ++ ("where".toList ++ (g' ++ s)))⟩ := by
  obtain ⟨ds', t, r, c, hinitial, ht, rfl, hr, hc, hmark⟩ := hs
  have hds' : ∀ d ∈ ds', d.WellFormed kind groupFields := fun d hd => hds d (hinitial.subset hd)
  have hnames' : (ds'.map Derivation.name).Nodup := hnames.sublist (hinitial.sublist.map _)
  obtain ⟨o', hread⟩ := readOptional_applyClause hds' hnames' hu hg ht (Spaced.more hne hg' (Spaced.last t)) hr o
  have htext : u ++ ',' :: (g ++ ("where".toList ++ (g' ++ (t ++ r)))) =
      u ++ (',' :: (g ++ ("where".toList ++ (g' ++ t))) ++ r) := by simp
  rw [htext]
  refine ⟨_, _, hread, ?_⟩
  rcases hmark with rfl | ⟨rfl, -⟩
  · exact noFinish_of_comesNext kind hc (by decide) (by decide) (by decide) o'
  · exact noFinish_of_comesNext kind hc (by decide) (by decide) (by decide) o'

/-- Where the apply clause is not read, no full stop is found. -/
theorem noFinishBehind_of_run_eq_none (kind : Kind) (groupFields : List String) {u s : List Char} (hu : Over isBlank u)
    (hs : ∀ offset, applyClause.run offset (',' :: s) = none) (o : Nat) :
    NoFinishBehind kind groupFields ⟨o, u ++ ',' :: s⟩ := by
  refine NoFinish.behind ?_ ?_ groupFields
  · exact noFinish_of_comesNext kind ⟨u, s, hu, rfl⟩ (by decide) (by decide) (by decide) o
  · exact accept?_eq_none (skipBlanks_append hu (stops_cons.2 (by decide)) o) (hs _)

/-- The word `where` runs into the name of the first definition: the two are a further column, or the clause is not read. -/
theorem shownWithoutFinish_where {kind : Kind} (groupFields : List String) {tokens : List String}
    (htokens : ∀ token ∈ tokens, IsToken kind token) {l u g x : List Char} (hl : ColumnsText tokens l) (hu : Over isBlank u)
    (hg : Over isGap g) {name : String} (hname : IsAsciiWord name) {g' y : List Char} (hne : g' ≠ []) (hg' : Over isGap g')
    (hx : x = g' ++ 'i' :: y) :
    ShownWithoutFinish kind groupFields (l ++ (u ++ ',' :: (g ++ ("where".toList ++ name.toList ++ x)))) := by
  have hends : ListEnds field x := by
    rw [hx]
    exact listEnds_word hne hg' (by decide) (by decide) (by decide)
  have hword : StartsWord ('i' :: y) := ⟨'i', y, rfl, by decide⟩
  obtain ⟨tokens', l', r, hl', htext, hr, hcases⟩ :=
    exists_columns_glued hl hu hg (isName_keyword_append (k := "where") (by decide) hname.isWord) hends
  rw [htext]
  rcases hcases with ⟨rfl, rfl⟩ | ⟨rfl, rfl⟩
  · refine ⟨tokens', l', _, htokens, hl', rfl, hr, noFinishBehind_of_run_eq_none kind groupFields hu ?_⟩
    have hnone : ∀ q offset, (seq (text "where") (seq ws q)).run offset ("where".toList ++ (name.toList ++ x)) = none :=
      (readsWord_text (by decide) : ReadsWord (text "where") (.keyword "where")).run_eq_none (hname.isWord.startsWord.append x)
    rw [List.append_assoc]
    exact run_mark_sp_eq_none "," hg (stops_cons.2 (by decide)) (hnone _) .applyClause
  · refine ⟨_, l', r, isToken_of_mem_concat htokens (isAsciiWord_where_append hname), hl', rfl, hr, ?_⟩
    rw [hx]
    exact noFinishBehind_of_startsWord kind groupFields (over_isBlank_of_isGap hg') hword

/-- Definitions start with a name and `is`. -/
theorem exists_name_of_derivationPieces {kind : Kind} {groupFields : List String} {ds : List Derivation}
    (hds : ∀ d ∈ ds, d.WellFormed kind groupFields) {ps : List Piece} (h : ListPieces DerivationPieces ds ps) :
    ∃ name g y, IsAsciiWord name ∧ g ≠ [] ∧ Over isGap g ∧ written ps = name.toList ++ (g ++ 'i' :: y) := by
  have hmember : ∀ d ∈ ds, ∀ ps, DerivationPieces d ps →
      ∃ g y, g ≠ [] ∧ Over isGap g ∧ written ps = d.name.toList ++ (g ++ 'i' :: y) := by
    rintro d - ps h
    cases h with
    | @more _ g _ _ ps hne hg hrest =>
      cases hrest
      exact ⟨g, _, hne, hg, by simp; rfl⟩
  cases h with
  | @last d ps h =>
    obtain ⟨g, y, hne, hg, hps⟩ := hmember d List.mem_cons_self ps h
    exact ⟨d.name, g, y, (hds d List.mem_cons_self).name, hne, hg, hps⟩
  | @more d ds ps sep rest h _ _ =>
    obtain ⟨g, y, hne, hg, hps⟩ := hmember d List.mem_cons_self ps h
    exact ⟨d.name, g, y ++ written (sep ++ rest), (hds d List.mem_cons_self).name, hne, hg, by simp [hps]⟩

theorem definitionPieces_of_derivationPieces {kind : Kind} {groupFields : List String} {d : Derivation}
    (hd : d.WellFormed kind groupFields) {ps : List Piece} (h : DerivationPieces d ps) : DefinitionPieces d ps := by
  obtain ⟨column, hmem, hdisplay, -⟩ := hd.source
  exact ⟨hd.name.isName, hdisplay ▸ fieldText_display hmem, h⟩

theorem listEnds_of_comesNext {item : Pattern Rule} {s : List Char} (h : ComesNext ';' s) : ListEnds item s := by
  obtain ⟨u, r, hu, rfl⟩ := h
  exact listEnds_mark hu (by decide) (by decide) (by decide)

/-- Where a keyword behind `where` runs into a word, no full stop is found: the definitions are not read or break off, or they
are read and the keyword stands in the sort clause. -/
theorem noFinishBehind_of_glued {kind : Kind} {groupFields : List String} {ds : List Derivation}
    (hds : ∀ d ∈ ds, d.WellFormed kind groupFields) (hnames : (ds.map Derivation.name).Nodup)
    {order : Option (Direction × List String)} (horder : ∀ o ∈ order, ∀ token ∈ o.2, IsToken kind token)
    {ps sort : List Piece} (hps : ListPieces DefinitionPieces ds ps) (hsort : SortPieces order sort) {u g g' t s : List Char}
    (hu : Over isBlank u) (hg : Over isGap g) (hne : g' ≠ []) (hg' : Over isGap g')
    (hs : Glued (ps ++ (sort ++ [.text t])) s) (o : Nat) :
    NoFinishBehind kind groupFields ⟨o, u ++ ',' :: (g ++ ("where".toList ++ (g' ++ s)))⟩ := by
  have hfirst : WordFirst ps := hps.wordFirst fun d ps h => (memberPieces_definition d ps h).first
  rcases glued_list applyDef (fun _ h => h) memberPieces_definition hps hs with hfail | hbreaks | ⟨s', rfl, hs'⟩
  · refine noFinishBehind_of_run_eq_none kind groupFields hu ?_ o
    have hgap := ((hfirst.append _).startsWord_of_glued hs).stops_isGap
    have hlist : ∀ offset, (listOf applyDef).run offset s = none := fun offset => by rw [listOf, run, hfail]
    exact run_mark_sp_eq_none "," hg (stops_cons.2 (by decide))
      (fun offset => run_seq_ws_eq_none (run_text_append "where" offset _) hne hg' hgap (hlist _)) .applyClause
  · exact noFinishBehind_of_definitions hds hnames hu hg hne hg' hbreaks o
  · obtain ⟨hmark, hnone⟩ := noFinish_of_glued horder hsort hs'
    have hl := hps.listText fun d ps h => (memberPieces_definition d ps h).member
    obtain ⟨o', hread⟩ := readOptional_applyClause hds hnames hu hg hl (Spaced.more hne hg' (Spaced.last _))
      (listEnds_of_comesNext hmark) o
    have htext : u ++ ',' :: (g ++ ("where".toList ++ (g' ++ (written ps ++ s')))) =
        u ++ (',' :: (g ++ ("where".toList ++ (g' ++ written ps))) ++ s') := by simp
    rw [htext]
    exact ⟨_, _, hread, hnone o'⟩

/-- Where a keyword behind the columns shown runs into a word, no full stop is found. -/
theorem shownWithoutFinish_of_glued {kind : Kind} {groupFields : List String} {ds : List Derivation}
    (hds : ∀ d ∈ ds, d.WellFormed kind groupFields) (hnames : (ds.map Derivation.name).Nodup)
    {order : Option (Direction × List String)} (horder : ∀ o ∈ order, ∀ token ∈ o.2, IsToken kind token)
    {tokens : List String} (htokens : ∀ token ∈ tokens, IsToken kind token) {l : List Char} (hl : ColumnsText tokens l)
    {apply sort : List Piece} (happly : ApplyPieces ds apply) (hsort : SortPieces order sort) {t s : List Char}
    (hs : Glued (apply ++ (sort ++ [.text t])) s) : ShownWithoutFinish kind groupFields (l ++ s) := by
  cases happly with
  | absent =>
    obtain ⟨hmark, hnone⟩ := noFinish_of_glued horder hsort hs
    refine ⟨tokens, l, s, htokens, hl, rfl, listEnds_of_comesNext hmark, fun o => (hnone o).behind ?_ groupFields⟩
    exact accept?_eq_none_of_mark rfl hmark (by decide) (by decide) o
  | @present ds u g m ps hu hg hm hps =>
    have hm' : ListPieces DefinitionPieces ds m := hm.imp fun d hd ps h => definitionPieces_of_derivationPieces (hds d hd) h
    have hfirst : ∀ ps', SpacedPieces [] m ps' → WordFirst ps' := by
      intro ps' h
      cases h
      exact hm'.wordFirst fun d ps h => (memberPieces_definition d ps h).first
    obtain ⟨s₁, rfl, hs₁⟩ := glued_text_cons hs
    obtain ⟨g', ps', hps', hne, hg', rfl, hcases⟩ := glued_firstKeyword hps hfirst hs₁
    cases hps'
    rcases hcases with rfl | ⟨s₂, rfl, hs₂⟩
    · -- the keyword is `where`, and the columns shown may go on with it
      obtain ⟨name, g₂, y, hname, hne₂, hg₂, hwritten⟩ := exists_name_of_derivationPieces hds hm
      have hshown := shownWithoutFinish_where groupFields htokens hl hu hg hname hne₂ hg₂
        (y := y ++ written (sort ++ [.text t])) rfl
      simpa [hwritten] using hshown
    · have hstart : StartsWithKeyword (u ++ ',' :: (g ++ ("where".toList ++ (g' ++ s₂)))) :=
        ⟨u, g, g' ++ s₂, "where", by decide, hu, hg, stops_isWordChar_of_isGap hne hg' s₂, rfl⟩
      have htext : u ++ ',' :: g ++ ("where".toList ++ (g' ++ s₂)) = u ++ ',' :: (g ++ ("where".toList ++ (g' ++ s₂))) := by
        simp
      rw [htext]
      exact ⟨tokens, l, _, htokens, hl, rfl, hstart.listEnds,
        noFinishBehind_of_glued hds hnames horder hm' hsort hu hg hne hg' hs₂⟩

/-! ## All clauses behind the filter -/

/-- Where a keyword behind the filter runs into a word, the sentence is refused there. -/
theorem refused_readTail_of_glued {q : Query} (hq : q.WellFormed) {u t : List Char} (hu : Over isBlank u)
    {l display apply sort : List Piece} (hl : TokenPieces q.shown l) (hdisplay : SpacedPieces [.keyword "show"] l display)
    (happly : ApplyPieces q.derived apply) (hsort : SortPieces q.order sort) {s : List Char}
    (hs : Glued (display ++ (apply ++ (sort ++ [.text t]))) s) (o : Nat) :
    Refused (readTail q.kind q.groupFields ⟨o, u ++ s⟩) := by
  have hwords : List.Forall₂ ReadsWord [text "show"] [.keyword "show"] := .cons (readsWord_text (by decide)) .nil
  have hcolumns := columnPieces_of_tokenPieces hq.shown hl
  have hfirst : WordFirst display := hdisplay.wordFirst (IsWord.startsWord (by decide))
  rcases glued_columnsClause hwords hdisplay hcolumns hs with
    hnone | ⟨names, l', t', r, hinitial, hl', ht', rfl, hr, v, y, hv, rfl⟩ | ⟨s', rfl, hs'⟩
  · have hblank := ((hfirst.append _).startsWord_of_glued hs).stops_isBlank
    have hmissing : (⟨o, u ++ s⟩ : Cursor).accept? .displayClause = none :=
      accept?_eq_none (skipBlanks_append hu hblank o) (congrArg (Option.map _) (hnone _))
    exact (refused_expect .display hmissing).bind _
  · have hnames : ∀ token ∈ names, IsToken q.kind token := fun token h => hq.shown token (hinitial.subset h)
    obtain ⟨clause, o', haccept, hread⟩ := accept?_displayClause hnames hu hl' ht' hr o
    exact refused_readTail haccept hread
      (noFinishBehind_of_startsWord q.kind q.groupFields hv ⟨'a', y, rfl, by decide⟩ o')
  · have horder : ∀ o ∈ q.order, ∀ token ∈ o.2, IsToken q.kind token :=
      fun o ho token htoken => (hq.order o ho token htoken).1
    obtain ⟨tokens, l', r, htokens, hl', htext, hr, hmissing⟩ :=
      shownWithoutFinish_of_glued hq.derived hq.names_nodup horder hq.shown (columnsText_of_columnPieces hcolumns) happly
        hsort hs'
    obtain ⟨front, hfront, hspaced⟩ := hdisplay.exists_front
    obtain ⟨clause, o', haccept, hread⟩ := accept?_displayClause htokens hu hl' (hspaced l') hr o
    have heq : written display ++ s' = front ++ l' ++ r := by rw [hfront, List.append_assoc, htext, List.append_assoc]
    rw [heq]
    exact refused_readTail haccept hread (hmissing o')

end SentenceQuery
