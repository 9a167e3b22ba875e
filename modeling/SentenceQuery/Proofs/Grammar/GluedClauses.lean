import SentenceQuery.Proofs.Grammar.Glued

/-!
# Clauses in which a keyword runs into a word

What is read of a clause of columns whose pieces have a keyword without blanks behind it (`glued_columnsClause`): nothing, the
words and the first columns, or all of it, if the keyword stands behind the clause. Where the keyword is the first of a clause
behind a list of columns, it makes a name with the word behind it, and the list may take this name as a further column
(`exists_columns_glued`).
-/

namespace SentenceQuery

namespace Grammar

open Pattern

/-! ## Lists of columns and of definitions -/

/-- A list of columns, each one piece. -/
def ColumnPieces (names : List String) (ps : List Piece) : Prop :=
  ListPieces (fun name ps => FieldText name.toList ∧ ps = [.text name.toList]) names ps

theorem memberPieces_column (name : String) (ps : List Piece) (h : FieldText name.toList ∧ ps = [.text name.toList]) :
    MemberPieces (fun _ => False) (fun t => t = name.toList ∧ FieldText t) ps := by
  obtain ⟨hname, rfl⟩ := h
  refine ⟨?_, by simpa using hname, fun hs => Or.inr ?_⟩
  · obtain ⟨w, vs, hw, -, heq⟩ := hname
    exact ⟨_, [], rfl, by rw [chars_text, heq]; exact hw.1.startsWord.append _⟩
  · obtain ⟨s', rfl, hs'⟩ := glued_text_cons hs
    exact ⟨s', by simp, hs'⟩

/-- How a definition is cut into pieces. -/
def DefinitionPieces (d : Derivation) (ps : List Piece) : Prop :=
  IsName d.name.toList ∧ FieldText d.source.toList ∧
    SpacedPieces [.text d.name.toList, .keyword "is", .keyword "the", .keyword d.op.name, .keyword "of"]
      [.text d.source.toList] ps

theorem memberPieces_definition (d : Derivation) (ps : List Piece) (h : DefinitionPieces d ps) :
    MemberPieces (fun s => ∀ offset, applyDef.run offset s = none) (DefinitionText d) ps := by
  obtain ⟨hname, hsource, hps⟩ := h
  have hwords : List.Forall₂ ReadsWord [ident, text "is", text "the", aggregate, text "of"]
      [.text d.name.toList, .keyword "is", .keyword "the", .keyword d.op.name, .keyword "of"] :=
    .cons (readsWord_ident hname) (.cons (readsWord_text (by decide)) (.cons (readsWord_text (by decide))
      (.cons (readsWord_aggregate d.op) (.cons (readsWord_text (by decide)) .nil))))
  have hlast := memberPieces_column d.source _ ⟨hsource, rfl⟩
  refine ⟨hps.wordFirst hname.1.startsWord, ⟨hname, hsource, by simpa using hps.spaced⟩, fun {qs s} hs => ?_⟩
  rcases glued_inWords hwords hps hlast.first hs with hnone | ⟨s₁, hread, hs₁⟩
  · refine Or.inl fun offset => ?_
    have hrun := hnone field offset
    exact congrArg (Option.map _) hrun
  · obtain ⟨front, hps', rfl, -⟩ := hread.spaced
    rcases hlast.glued hs₁ with habsurd | ⟨s', rfl, hs'⟩
    · exact habsurd.elim
    · exact Or.inr ⟨s', by rw [hps', List.append_assoc], hs'⟩

/-! ## Clauses that end with a list of columns -/

/-- Of a clause of words and columns only the first columns are read, and an `and` comes next. -/
def ColumnsBreakOff (ws : List Piece) (names : List String) (s : List Char) : Prop :=
  ∃ names' l t r, names' <+: names ∧ ColumnsText names' l ∧ Spaced (ws.map Piece.chars ++ [l]) t ∧ s = t ++ r ∧
    ListEnds field r ∧ ComesNext 'a' r

/-- A clause of words and columns in which a keyword runs into a word is not read, or it breaks off in its list; otherwise the
keyword without blanks stands behind the clause. -/
theorem glued_columnsClause {words : List (Pattern Rule)} {ws l ps qs : List Piece} {names : List String} {s : List Char}
    (hwords : List.Forall₂ ReadsWord words ws) (h : SpacedPieces ws l ps) (hl : ColumnPieces names l)
    (hs : Glued (ps ++ qs) s) :
    (∀ offset, (inWords words fieldList).run offset s = none) ∨ ColumnsBreakOff ws names s ∨
      ∃ s', s = written ps ++ s' ∧ Glued qs s' := by
  have hfirst : WordFirst l := hl.wordFirst fun name ps h => (memberPieces_column name ps h).first
  rcases glued_inWords hwords h hfirst hs with hnone | ⟨s₁, hread, hs₁⟩
  · exact Or.inl (hnone fieldList)
  obtain ⟨front, hps, rfl, hspaced⟩ := hread.spaced
  rcases glued_list field (fun _ h => h.elim) memberPieces_column hl hs₁ with
    hfail | ⟨names', t, r, c, hnames, ht, rfl, hr, hc, hmark⟩ | ⟨s', rfl, hs'⟩
  · exact hfail.elim
  · obtain rfl : c = 'a' := hmark.resolve_right fun ⟨_, _, habsurd⟩ => habsurd
    exact Or.inr (Or.inl ⟨names', t, front ++ t, r, hnames, ht, hspaced t, by simp, hr, hc⟩)
  · exact Or.inr (Or.inr ⟨s', by rw [hps, List.append_assoc], hs'⟩)

/-! ## A keyword that begins a clause -/

/-- A keyword with more of a word behind it is a name. -/
theorem isName_keyword_append {k : String} (hk : k ∈ keywords) {w : List Char} (hw : IsWord w) : IsName (k.toList ++ w) := by
  have hword := isWord_of_mem_keywords hk
  refine ⟨⟨by simp [hw.1], over_append.2 ⟨hword.2, hw.2⟩⟩, fun hmem => hw.1 ?_⟩
  have hprefix : k.toList <+: (String.ofList (k.toList ++ w)).toList := by
    rw [String.toList_ofList]
    exact List.prefix_append _ _
  have hsame := congrArg String.toList (isVocabulary_keywords.2 k hk _ hmem hprefix)
  rw [String.toList_ofList] at hsame
  simpa using hsame.symm

/-- The first keyword of a clause runs into the next word, or it stands as a whole word. -/
theorem glued_firstKeyword {k : String} {ws l ps qs : List Piece} {s : List Char}
    (h : SpacedPieces (.keyword k :: ws) l ps) (hfirst : ∀ ps', SpacedPieces ws l ps' → WordFirst ps')
    (hs : Glued (ps ++ qs) s) :
    ∃ g ps', SpacedPieces ws l ps' ∧ g ≠ [] ∧ Over isGap g ∧ ps = .keyword k :: .text g :: ps' ∧
      (s = k.toList ++ (written ps' ++ written qs) ∨ ∃ s', s = k.toList ++ (g ++ s') ∧ Glued (ps' ++ qs) s') := by
  cases h with
  | @more _ g _ _ ps' hne hg h =>
    refine ⟨g, ps', h, hne, hg, rfl, ?_⟩
    simp only [List.cons_append] at hs
    rcases glued_keyword_cons hs with rfl | ⟨s₁, rfl, hs₁⟩
    · rw [trimStart_written (over_isBlank_of_isGap hg) ((hfirst ps' h).append qs), written_append]
      exact Or.inl rfl
    · obtain ⟨s', rfl, hs'⟩ := glued_text_cons hs₁
      exact Or.inr ⟨s', rfl, hs'⟩

/-- A list ends behind blanks before a word in small letters that is not `and`. -/
theorem listEnds_word {item : Pattern Rule} {g s : List Char} {c : Char} (hne : g ≠ []) (hg : Over isGap g)
    (hc : isWordChar c = true) (hupper : c.isUpper = false) (ha : c ≠ 'a') : ListEnds item (g ++ c :: s) := by
  have hu := over_isBlank_of_isGap hg
  refine ⟨fieldEnds_blank_append hu (stops_cons.2 hupper) fun hnil => absurd hnil hne, fun offset => ?_⟩
  cases hrun : (seq listSep item).run offset (g ++ c :: s) with
  | none => rfl
  | some o =>
    obtain ⟨one, _, hone, -, -⟩ := run_seq_eq_some.1 hrun
    obtain ⟨sep, r, heq, hsep, -, -⟩ := run_listSep_eq_some.1 hone
    rcases hsep.first hu (not_isBlank_of_isWordChar hc) heq with ⟨rfl, -⟩ | rfl
    · exact absurd hc (by decide)
    · exact absurd rfl ha

/-- A list ends before a comma with other blanks than those of the grammar in front of it. -/
theorem listEnds_of_not_isGap {item : Pattern Rule} {u s : List Char} (hu : Over isBlank u) (hgap : ¬Over isGap u) :
    ListEnds item (u ++ ',' :: s) := by
  refine ⟨fieldEnds_blank_append hu (stops_cons.2 (by decide))
    fun _ => ⟨stops_cons.2 (by decide), stops_cons.2 (by decide)⟩, fun offset => ?_⟩
  cases hrun : (seq listSep item).run offset (u ++ ',' :: s) with
  | none => rfl
  | some o =>
    obtain ⟨one, _, hone, -, -⟩ := run_seq_eq_some.1 hrun
    obtain ⟨sep, r, heq, hsep, -, -⟩ := run_listSep_eq_some.1 hone
    have hcomma : Stops isBlank (',' :: s) := stops_cons.2 (by decide)
    cases hsep with
    | comma hg _ =>
      rw [List.append_assoc] at heq
      obtain ⟨rfl, -⟩ := span_unique heq hu hcomma (over_isBlank_of_isGap hg) (stops_cons.2 (by decide))
      exact absurd hg hgap
    | and hg _ _ _ =>
      rw [List.append_assoc, List.append_assoc] at heq
      obtain ⟨-, habsurd⟩ := span_unique heq hu hcomma (over_isBlank_of_isGap hg) (stops_cons.2 (by decide))
      cases habsurd

/-- Behind columns and a comma a name is read as a further column, if the blanks before the comma are those of the grammar. -/
theorem exists_columns_glued {names : List String} {l u g w x : List Char} (hl : ColumnsText names l) (hu : Over isBlank u)
    (hg : Over isGap g) (hw : IsName w) (hx : ListEnds field x) :
    ∃ names' l' r, ColumnsText names' l' ∧ l ++ (u ++ ',' :: (g ++ (w ++ x))) = l' ++ r ∧ ListEnds field r ∧
      (names' = names ∧ r = u ++ ',' :: (g ++ (w ++ x)) ∨ names' = names ++ [String.ofList w] ∧ r = x) := by
  by_cases hgap : Over isGap u
  · have hname : ColumnsText [String.ofList w] w :=
      ListText.last ⟨by simp, w, [], hw, by simp, by simp [furtherText]⟩
    exact ⟨_, _, x, hl.append (Separator.comma hgap hg) hname, by simp, hx, Or.inr ⟨rfl, rfl⟩⟩
  · exact ⟨names, l, _, hl, rfl, listEnds_of_not_isGap hu hgap, Or.inl ⟨rfl, rfl⟩⟩

end Grammar

end SentenceQuery
