import SentenceQuery.Proofs.Grammar.Clauses
import SentenceQuery.Proofs.Sentence.Tokens

/-!
# Every wording of a query is accepted

A query that means something may be worded in many ways: with commas or `and` between the members of a list, and with any blanks
between its words. Each wording is accepted, and the plan is the one that the query means (`ofSentence_of_worded`).
-/

namespace SentenceQuery

open Grammar Sentence Pattern

/-! ## Where clauses start -/

theorem accept?_eq_none {rule : Rule} {c : Cursor} {o : Nat} {s : List Char} (hskip : c.skipBlanks = ⟨o, s⟩)
    (h : rule.pattern.run o s = none) : c.accept? rule = none := by
  unfold Cursor.accept?
  simp only [hskip, h]

/-- A clause that is not there leaves the default and the place. -/
theorem readOptional_of_none {α : Type} {rule : Rule} {c : Cursor} (h : c.accept? rule = none) (default : α)
    (read : Node Rule → Except QueryError α) : readOptional rule c default read = .ok (default, c) :=
  readOptional_eq_ok.2 (Or.inr ⟨h, rfl, rfl⟩)

/-- Words start with no blank. -/
theorem stops_isBlank_of_spaced {w t : List Char} {ws : List (List Char)} (h : Spaced (w :: ws) t) (hw : IsWord w)
    (s : List Char) : Stops isBlank (t ++ s) := by
  have hword : ∀ r, Stops isBlank (w ++ r) := fun r =>
    (stops_append hw.1).2 fun c hc => not_isBlank_of_isWordChar (hw.2 c (List.mem_of_mem_head? hc))
  obtain ⟨u, rfl⟩ := h.exists_eq_append
  rw [List.append_assoc]
  exact hword _

/-- A column's name is no keyword. -/
theorem run_field_keyword {k : String} (hk : k ∈ keywords) {s : List Char} (hs : Stops isWordChar s) (offset : Nat) :
    field.run offset (k.toList ++ s) = none := by
  cases hrun : field.run offset (k.toList ++ s) with
  | none => rfl
  | some o =>
    obtain ⟨_, r, heq, ⟨w, ws, hw, -, rfl⟩, hends, -⟩ := run_field_eq_some.1 hrun
    rw [List.append_assoc] at heq
    obtain ⟨hword, -⟩ := span_unique heq (isWord_of_mem_keywords hk).2 hs hw.1.2 (stops_furtherText_append hends.1)
    exact absurd (by rw [← hword, String.ofList_toList]; exact hk) hw.2

/-- What stands behind a list of columns before a clause that a comma starts. -/
def StartsWithKeyword (r : List Char) : Prop :=
  ∃ u g s, ∃ k ∈ keywords, Over isBlank u ∧ Over isGap g ∧ Stops isWordChar s ∧ r = u ++ ',' :: (g ++ (k.toList ++ s))

theorem StartsWithKeyword.listEnds {r : List Char} (h : StartsWithKeyword r) : ListEnds field r := by
  obtain ⟨u, g, s, k, hk, hu, hg, hs, rfl⟩ := h
  exact listEnds_comma hu hg (stops_isGap_of_isWord (isWord_of_mem_keywords hk) s) (run_field_keyword hk hs)

theorem stops_behind_keyword {k : String} {w t : List Char} {ws : List (List Char)} (h : Spaced (k.toList :: w :: ws) t)
    (r : List Char) : ∃ s, Stops isWordChar s ∧ t ++ r = k.toList ++ s := by
  obtain ⟨g, t', hne, hg, -, rfl⟩ := spaced_cons_cons.1 h
  exact ⟨g ++ (t' ++ r), stops_isWordChar_of_isGap hne hg _, by simp⟩

theorem startsWithKeyword_of_filterPart {filter : Option Conditions} {t : List Char} (h : FilterPart filter t)
    {u : List Char} (hu : Over isBlank u) (r : List Char) : StartsWithKeyword (u ++ (t ++ r)) := by
  cases h with
  | all hh =>
    obtain ⟨g, w, g', hg, hw, -, rfl⟩ := hh
    obtain ⟨s, hs, heq⟩ := stops_behind_keyword hw (g' ++ ([';'] ++ r))
    refine ⟨u, g, s, "find", by decide, hu, hg, hs, ?_⟩
    rw [← heq]
    simp
  | @whose f _ v b u' hh _ _ _ =>
    obtain ⟨g, w, g', hg, hw, -, -, rfl⟩ := hh
    obtain ⟨s, hs, heq⟩ := stops_behind_keyword hw (g' ++ (v ++ (b ++ (u' ++ ([';'] ++ r)))))
    refine ⟨u, g, s, "find", by decide, hu, hg, hs, ?_⟩
    rw [← heq]
    simp

/-! ## The clauses before the filter -/

theorem Kind.isWord_name (kind : Kind) : IsWord kind.name.toList := by
  cases kind <;> decide

theorem StartsWithKeyword.skipBlanks {r : List Char} (h : StartsWithKeyword r) (o : Nat) :
    ∃ o' s, (⟨o, r⟩ : Cursor).skipBlanks = ⟨o', ',' :: s⟩ := by
  obtain ⟨u, g, s, k, -, hu, -, -, rfl⟩ := h
  exact ⟨_, _, skipBlanks_append hu (stops_cons.2 (by decide)) o⟩

theorem StartsWithKeyword.stops_isWordChar {r : List Char} (h : StartsWithKeyword r) : Stops isWordChar r :=
  h.listEnds.1.1

theorem GroupPart.stops_isWordChar {tokens : List String} {t r : List Char} (h : GroupPart tokens t)
    (hr : StartsWithKeyword r) : Stops isWordChar (t ++ r) := by
  cases h with
  | absent => exact hr.stops_isWordChar
  | present hne hu _ _ =>
    rw [List.append_assoc]
    exact stops_isWordChar_of_isBlank hne hu _

/-- A group clause says the columns of its tokens. -/
theorem readOptional_groupClause {kind : Kind} {tokens : List String} (htokens : ∀ token ∈ tokens, IsToken kind token)
    {u l t r : List Char} (hu : Over isBlank u) (hl : ColumnsText tokens l)
    (ht : Spaced ["grouped".toList, "by".toList, l] t) (hr : ListEnds field r) (o : Nat) :
    ∃ o', readOptional .groupClause ⟨o, u ++ (t ++ r)⟩ [] (readColumnList kind) =
      .ok (tokens.map kind.fieldOf, ⟨o', r⟩) := by
  have hskip := skipBlanks_append hu (stops_isBlank_of_spaced ht (by decide) r) o
  obtain ⟨o₁, ns, hrun, hns⟩ := run_groupClause ht hl hr (o + byteSize u)
  refine ⟨_, readOptional_eq_ok.2 (Or.inl ⟨_, accept?_of_run hskip hrun, ?_⟩)⟩
  exact readColumns_of_tokens htokens hns

/-- The group clause says the columns of its tokens, or is not there. -/
theorem readOptional_groupPart {kind : Kind} {tokens : List String} (htokens : ∀ token ∈ tokens, IsToken kind token)
    {t r : List Char} (h : GroupPart tokens t) (hr : StartsWithKeyword r) (o : Nat) :
    ∃ o', readOptional .groupClause ⟨o, t ++ r⟩ [] (readColumnList kind) = .ok (tokens.map kind.fieldOf, ⟨o', r⟩) := by
  cases h with
  | absent =>
    obtain ⟨o', s, hskip⟩ := hr.skipBlanks o
    exact ⟨o, readOptional_of_none (accept?_eq_none hskip rfl) _ _⟩
  | @present _ u l t hne hu hl ht =>
    rw [List.append_assoc]
    exact readOptional_groupClause htokens hu (columnsText_of_tokensText htokens hl) ht hr.listEnds o

/-- The dataset clause says the kind and the id, and the groups are read behind it. -/
theorem exists_readHead {q : Query} (hq : q.WellFormed) {u dataset s : List Char} (hu : Over isBlank u)
    (hdataset : Spaced ["In".toList, q.kind.name.toList, "dataset".toList, q.dataset.toList] dataset)
    (hs : Stops isWordChar s) :
    ∃ o, ∀ {groups c}, readOptional .groupClause ⟨o, s⟩ [] (readColumnList q.kind) = .ok (groups, c) →
      readHead (Cursor.start (u ++ (dataset ++ s))) = .ok ((q.kind, q.dataset, groups), c) := by
  have hskip := skipBlanks_append hu (stops_isBlank_of_spaced hdataset (by decide) s) 0
  obtain ⟨o₁, o₂, hrun⟩ := run_datasetClause hdataset q.kind.isWord_name hq.dataset.isWord hs (0 + byteSize u)
  have hplain := isPlainWord_iff.1 hq.dataset.isPlainWord
  refine ⟨_, fun hread => readHead_eq_ok.2
    ⟨_, _, accept?_of_run hskip hrun, (readDataset_eq_ok rfl).2 ⟨?_, ?_, ?_, ?_⟩, hread⟩⟩
  · rw [Node.string, String.ofList_toList]
    exact q.kind.ofName?_name
  · exact String.ofList_toList.symm
  · exact hq.dataset.isPlainWord.no_underscore
  · rw [Node.string, String.ofList_toList]
    exact hplain.2

/-- The clauses before the filter say the kind, the id and the group fields. -/
theorem readHead_of_worded {q : Query} (hq : q.WellFormed) {u dataset group r : List Char} (hu : Over isBlank u)
    (hdataset : Spaced ["In".toList, q.kind.name.toList, "dataset".toList, q.dataset.toList] dataset)
    (hgroup : GroupPart q.groups group) (hr : StartsWithKeyword r) :
    ∃ o, readHead (Cursor.start (u ++ (dataset ++ (group ++ r)))) =
      .ok ((q.kind, q.dataset, q.groupFields), ⟨o, r⟩) := by
  obtain ⟨o, hhead⟩ := exists_readHead hq hu hdataset (hgroup.stops_isWordChar hr)
  obtain ⟨o', hread⟩ := readOptional_groupPart hq.groups hgroup hr o
  exact ⟨o', hhead hread⟩

/-! ## The clauses behind the filter -/

/-- Behind the last clause but the order stands a semicolon or a full stop. -/
theorem exists_mark_of_sortPart {order : Option (Direction × List String)} {t u : List Char} (h : SortPart order t)
    (hu : Over isBlank u) (g : List Char) :
    ∃ u' c s, Over isBlank u' ∧ (c = ';' ∨ c = '.') ∧ t ++ (u ++ '.' :: g) = u' ++ c :: s := by
  cases h with
  | absent => exact ⟨u, '.', g, hu, Or.inr rfl, rfl⟩
  | @present _ _ u' g' _ t hu' _ _ _ =>
    refine ⟨u', ';', g' ++ t ++ (u ++ '.' :: g), hu', Or.inl rfl, ?_⟩
    rw [List.append_assoc, List.cons_append]

/-- A list ends before the order and the full stop. -/
theorem listEnds_of_sortPart {item : Pattern Rule} {order : Option (Direction × List String)} {t u : List Char}
    (h : SortPart order t) (hu : Over isBlank u) (g : List Char) : ListEnds item (t ++ (u ++ '.' :: g)) := by
  obtain ⟨u', c, s, hu', hc, heq⟩ := exists_mark_of_sortPart h hu g
  rw [heq]
  rcases hc with rfl | rfl
  · exact listEnds_mark hu' (by decide) (by decide) (by decide)
  · exact listEnds_mark hu' (by decide) (by decide) (by decide)

/-- The columns shown end before the derived ones. -/
theorem listEnds_of_applyPart {ds : List Derivation} {t r : List Char} (h : ApplyPart ds t) (hr : ListEnds field r) :
    ListEnds field (t ++ r) := by
  cases h with
  | absent => exact hr
  | @present _ u g l t hu hg _ ht =>
    obtain ⟨s, hs, heq⟩ := stops_behind_keyword ht r
    have hstart : StartsWithKeyword (u ++ ',' :: (g ++ t) ++ r) := by
      refine ⟨u, g, s, "where", by decide, hu, hg, hs, ?_⟩
      rw [← heq]
      simp
    exact hstart.listEnds

/-- A display clause says the columns of its tokens. -/
theorem accept?_displayClause {kind : Kind} {tokens : List String} (htokens : ∀ token ∈ tokens, IsToken kind token)
    {u l t r : List Char} (hu : Over isBlank u) (hl : ColumnsText tokens l) (ht : Spaced ["show".toList, l] t)
    (hr : ListEnds field r) (o : Nat) :
    ∃ clause o', (⟨o, u ++ (t ++ r)⟩ : Cursor).accept? .displayClause = some (clause, ⟨o', r⟩) ∧
      readColumnList kind clause = .ok (tokens.map kind.fieldOf) := by
  have hskip := skipBlanks_append hu (stops_isBlank_of_spaced ht (by decide) r) o
  obtain ⟨o₁, ns, hrun, hns⟩ := run_displayClause ht hl hr (o + byteSize u)
  exact ⟨_, _, accept?_of_run hskip hrun, readColumns_of_tokens htokens hns⟩

/-- An apply clause says its definitions. -/
theorem readOptional_applyClause {kind : Kind} {groupFields : List String} {ds : List Derivation}
    (hds : ∀ d ∈ ds, d.WellFormed kind groupFields) (hnames : (ds.map Derivation.name).Nodup) {u g l t r : List Char}
    (hu : Over isBlank u) (hg : Over isGap g) (hl : ListText DefinitionText ds l) (ht : Spaced ["where".toList, l] t)
    (hr : ListEnds applyDef r) (o : Nat) :
    ∃ o', readOptional .applyClause ⟨o, u ++ (',' :: (g ++ t) ++ r)⟩ [] (readDefinitions kind groupFields) =
      .ok (ds.map (Derivation.definition kind), ⟨o', r⟩) := by
  obtain ⟨ns, hrun, hns⟩ := run_applyClause hg ht hl hr (o + byteSize u)
  have hskip := skipBlanks_append hu (stops_cons.2 (by decide) : Stops isBlank (',' :: (g ++ t) ++ r)) o
  exact ⟨_, readOptional_eq_ok.2 (Or.inl ⟨_, accept?_of_run hskip hrun, readDefinitions_of_derived hns hds hnames⟩)⟩

/-- The apply clause says its definitions, or is not there. -/
theorem readOptional_applyPart {kind : Kind} {groupFields : List String} {ds : List Derivation}
    (hds : ∀ d ∈ ds, d.WellFormed kind groupFields) (hnames : (ds.map Derivation.name).Nodup) {t r : List Char}
    (h : ApplyPart ds t) (hr : ListEnds applyDef r) (hmark : ∃ u c s, Over isBlank u ∧ (c = ';' ∨ c = '.') ∧ r = u ++ c :: s)
    (o : Nat) :
    ∃ o', readOptional .applyClause ⟨o, t ++ r⟩ [] (readDefinitions kind groupFields) =
      .ok (ds.map (Derivation.definition kind), ⟨o', r⟩) := by
  cases h with
  | absent =>
    obtain ⟨u, c, s, hu, hc, rfl⟩ := hmark
    have hblank : isBlank c = false := by rcases hc with rfl | rfl <;> decide
    have hskip := skipBlanks_append hu (stops_cons.2 hblank : Stops isBlank (c :: s)) o
    refine ⟨o, readOptional_of_none (accept?_eq_none hskip ?_) _ _⟩
    rcases hc with rfl | rfl <;> rfl
  | @present _ u g l t hu hg hl ht =>
    have hl' : ListText DefinitionText ds l := hl.imp fun d hd _ h => definitionText_of_derivationText (hds d hd) h
    rw [List.append_assoc]
    exact readOptional_applyClause hds hnames hu hg hl' ht hr o

/-- A sort clause says the order. -/
theorem readOptional_sortClause {kind : Kind} {direction : Direction} {tokens : List String}
    (htokens : ∀ token ∈ tokens, IsToken kind token) {u g l t r : List Char} (hu : Over isBlank u) (hg : Over isGap g)
    (hl : ColumnsText tokens l)
    (ht : Spaced ["sort".toList, "in".toList, direction.word.toList, "order".toList, "by".toList, l] t)
    (hr : ListEnds field r) (o : Nat) :
    ∃ o', readOptional .sortClause ⟨o, u ++ (';' :: (g ++ t) ++ r)⟩ Order.unsorted (readOrder kind) =
      .ok (⟨direction, tokens.map kind.fieldOf⟩, ⟨o', r⟩) := by
  obtain ⟨o₁, o₂, ns, hrun, hns⟩ := run_sortClause hg ht hl hr (o + byteSize u)
  have hskip := skipBlanks_append hu (stops_cons.2 (by decide) : Stops isBlank (';' :: (g ++ t) ++ r)) o
  refine ⟨_, readOptional_eq_ok.2 (Or.inl ⟨_, accept?_of_run hskip hrun, ?_⟩)⟩
  have hread : readColumns kind ⟨.fieldList, o₂, l, ns⟩ = .ok (tokens.map kind.fieldOf) :=
    readColumns_of_tokens htokens hns
  simp only [readOrder, Node.string, String.ofList_toList, Direction.ofWord?_word, hread]
  rfl

/-- The sort clause says the order, or is not there. -/
theorem readOptional_sortPart {kind : Kind} {order : Option (Direction × List String)}
    (horder : ∀ o ∈ order, ∀ token ∈ o.2, IsToken kind token)
    {t u g : List Char} (h : SortPart order t) (hu : Over isBlank u) (o : Nat) :
    ∃ o', readOptional .sortClause ⟨o, t ++ (u ++ '.' :: g)⟩ Order.unsorted (readOrder kind) =
      .ok (Query.sorted kind order, ⟨o', u ++ '.' :: g⟩) := by
  cases h with
  | absent =>
    have hskip := skipBlanks_append hu (stops_cons.2 (by decide) : Stops isBlank ('.' :: g)) o
    exact ⟨o, readOptional_of_none (accept?_eq_none hskip rfl) _ _⟩
  | @present direction tokens u' g' l t hu' hg' hl ht =>
    have htokens := horder (direction, tokens) rfl
    have hr : ListEnds field (u ++ '.' :: g) := listEnds_mark hu (by decide) (by decide) (by decide)
    rw [List.append_assoc]
    exact readOptional_sortClause htokens hu' hg' (columnsText_of_tokensText htokens hl) ht hr o

/-- The clauses behind the filter say what is shown and derived, and the order. -/
theorem readTail_of_worded {q : Query} (hq : q.WellFormed) {u l display apply sort u' g : List Char} (hu : Over isBlank u)
    (hl : TokensText q.shown l) (hdisplay : Spaced ["show".toList, l] display) (happly : ApplyPart q.derived apply)
    (hsort : SortPart q.order sort) (hu' : Over isBlank u') (hg : Over isGap g) (o : Nat) :
    readTail q.kind q.groupFields ⟨o, u ++ (display ++ (apply ++ (sort ++ (u' ++ '.' :: g))))⟩ =
      .ok (q.shownFields, q.definitions, Query.sorted q.kind q.order) := by
  have hends : ListEnds field (apply ++ (sort ++ (u' ++ '.' :: g))) :=
    listEnds_of_applyPart happly (listEnds_of_sortPart hsort hu' g)
  obtain ⟨clause, o₁, haccept, hshown⟩ :=
    accept?_displayClause hq.shown hu (columnsText_of_tokensText hq.shown hl) hdisplay hends o
  obtain ⟨o₂, hdefs⟩ := readOptional_applyPart hq.derived hq.names_nodup happly (listEnds_of_sortPart hsort hu' g)
    (exists_mark_of_sortPart hsort hu' g) o₁
  obtain ⟨o₃, horder⟩ := readOptional_sortPart (fun o ho token htoken => (hq.order o ho token htoken).1) hsort hu' o₂
  obtain ⟨ms, hfinish⟩ := run_finish hg (o₃ + byteSize u')
  have hskip' := skipBlanks_append hu' (stops_cons.2 (by decide) : Stops isBlank ('.' :: g)) o₃
  exact readTail_eq_ok.2 ⟨_, _, _, _, _, _, haccept, hshown, hdefs, horder, accept?_of_run hskip' hfinish⟩

/-! ## The sentence -/

/-- What concerns several clauses is in order in the plan of a query. -/
theorem validate_plan {q : Query} (hq : q.WellFormed) : q.plan.validate = .ok () := by
  refine validate_eq_ok.2 ⟨fun hdefs => ?_, fun allowed hallowed f hf => ?_, fun f hf => ?_⟩
  · have hderived : q.derived ≠ [] := fun hnil => hdefs (by simp [Query.plan, Query.definitions, hnil])
    have hgroups := hq.derived_grouped hderived
    simpa [Query.plan, Query.groupFields] using hgroups
  · have hgroups : q.groups ≠ [] := by
      intro hnil
      have hnone : q.plan.allowedDisplayFields = none := allowedColumns_eq_none.2 (by simp [Query.groupFields, hnil])
      rw [hnone] at hallowed
      cases hallowed
    rw [contains_of_allowedColumns hallowed]
    have hnames : q.definitions.map ApplyDefinition.name = q.derived.map Derivation.name := by
      simp [Query.definitions, Derivation.definition]
    rw [hnames]
    exact hq.shown_allowed hgroups f (List.mem_eraseDups.1 hf)
  · simp only [Query.plan, List.mem_eraseDups] at hf ⊢
    cases horder : q.order with
    | none =>
      rw [horder] at hf
      cases hf
    | some o =>
      rw [horder] at hf
      obtain ⟨token, htoken, rfl⟩ := List.mem_map.1 hf
      exact (hq.order o horder token htoken).2

/-- Every wording of a query that means something is accepted, and its plan is the one that the query means. -/
theorem ofSentence_of_worded {q : Query} (hq : q.WellFormed) {s : String} (hs : q.Worded s.toList) :
    Plan.ofSentence s = .ok q.plan := by
  generalize htext : s.toList = t at hs
  cases hs with
  | mk h₁ hdataset hgroup h₂ hfilter h₃ hl hdisplay happly hsort h₄ hg =>
    obtain ⟨o, hhead⟩ := readHead_of_worded hq h₁ hdataset hgroup (startsWithKeyword_of_filterPart hfilter h₂ _)
    obtain ⟨clause, o', haccept, hread⟩ := accept?_filterPart hq.filter hfilter h₂ o _
    have htail := readTail_of_worded hq h₃ hl hdisplay happly hsort h₄ hg o'
    rw [← htext] at hhead
    exact ofSentence_eq_ok.2
      ⟨(q.kind, q.dataset, q.groupFields), _, clause, _, Conditions.criteria q.kind q.filter,
        (q.shownFields, q.definitions, Query.sorted q.kind q.order), hhead, haccept, hread, htail, rfl, validate_plan hq⟩

/-- A query with every clause, where a literal holds what could end a filter. -/
theorem ofSentence_of_worded_every_clause :
    Plan.ofSentence ("In courses dataset sfu grouped by Department, find entries whose Average is greater than 70.5 or " ++
        "Title is \"a; b, or c.\"; show Department and top, where top is the MAX of Average; " ++
        "sort in descending order by top.") =
      .ok ⟨.courses, "sfu",
        [⟨"avg", .number .greaterThan, .number (Numeral.value ⟨false, "70".toList, some "5".toList⟩), some .or⟩,
          ⟨"title", .text .is, .text "a; b, or c.", none⟩],
        ["dept", "top"], ["dept"], [⟨"top", .max, "avg"⟩], ⟨.descending, ["top"]⟩,
        some (NameSet.ofNames ["dept", "top"])⟩ := by
  have hgap : Over isGap [' '] := by decide
  have hblank : Over isBlank [' '] := by decide
  have hwhose : WhoseText _ :=
    ⟨_, _, _, hgap, spaced_furtherText "find".toList ["entries".toList, "whose".toList], by decide, hgap, rfl⟩
  have hnumber := spaced_furtherText "Average".toList ["is greater than".toList, "70.5".toList]
  have htext := spaced_furtherText "Title".toList ["is".toList, "\"a; b, or c.\"".toList]
  have hshown : TokensText ["Department", "top"] _ :=
    ListText.more rfl (Separator.and hgap (by decide) hgap (by decide)) (ListText.last rfl)
  have hderived : ListText DerivationText [⟨"top", .max, "Average"⟩] _ := ListText.last (spaced_furtherText _ _)
  have hworded := Query.Worded.mk
    (q := ⟨.courses, "sfu", ["Department"],
      some ⟨⟨"Average", .number .greaterThan, .number ⟨false, "70".toList, some "5".toList⟩⟩,
        [(.or, ⟨"Title", .text .is, .text "a; b, or c."⟩)]⟩,
      ["Department", "top"], [⟨"top", .max, "Average"⟩], some (.descending, ["top"])⟩)
    over_nil (spaced_furtherText _ _)
    (GroupPart.present (by decide) hblank (ListText.last rfl) (spaced_furtherText _ _)) over_nil
    (FilterPart.whose hwhose over_nil (JoinedText.more hnumber (by decide) hblank (by decide) hblank (JoinedText.last htext))
      over_nil) hblank hshown (spaced_furtherText _ _)
    (ApplyPart.present over_nil hgap hderived (spaced_furtherText _ _))
    (SortPart.present over_nil hgap (ListText.last rfl) (spaced_furtherText _ _)) over_nil over_nil
  have hsame : ∀ {t t' : List Char} {q : Query}, q.Worded t → t' = t → q.Worded t' := fun h heq => heq ▸ h
  have haccepted := fun (s : String) hs => ofSentence_of_worded (by decide) (s := s) (hsame hworded hs)
  exact haccepted _ (by decide +kernel)

end SentenceQuery
