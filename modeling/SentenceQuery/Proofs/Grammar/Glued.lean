import SentenceQuery.Proofs.Grammar.Pieces

/-!
# Keywords without blanks behind them

What is left of a text where the blanks behind one of its keywords are left out (`Glued`). The keyword then runs into the word
behind it, so the words of a clause are either not read at all, or read up to the part where the keyword stands
(`glued_inWords`). A list ends in front of a member that is not read and of an `and` that is none any more (`glued_list`).
-/

namespace SentenceQuery

namespace Grammar

open Pattern

/-! ## Where a word starts -/

/-- A character of a word comes first. -/
def StartsWord (s : List Char) : Prop := ∃ c r, s = c :: r ∧ isWordChar c = true

theorem StartsWord.append {s : List Char} (h : StartsWord s) (t : List Char) : StartsWord (s ++ t) := by
  obtain ⟨c, r, rfl, hc⟩ := h
  exact ⟨c, r ++ t, rfl, hc⟩

theorem IsWord.startsWord {w : List Char} (h : IsWord w) : StartsWord w := by
  obtain ⟨hne, hchars⟩ := h
  cases w with
  | nil => exact absurd rfl hne
  | cons c w => exact ⟨c, w, rfl, hchars c List.mem_cons_self⟩

theorem StartsWord.not_stops {s : List Char} (h : StartsWord s) : ¬Stops isWordChar s := by
  obtain ⟨c, r, rfl, hc⟩ := h
  rw [stops_cons, hc]
  decide

theorem StartsWord.stops_isBlank {s : List Char} (h : StartsWord s) : Stops isBlank s := by
  obtain ⟨c, r, rfl, hc⟩ := h
  exact stops_cons.2 (not_isBlank_of_isWordChar hc)

theorem StartsWord.stops_isGap {s : List Char} (h : StartsWord s) : Stops isGap s :=
  fun c hc => not_isGap_of_not_isBlank (h.stops_isBlank c hc)

/-- Blanks must follow a word before the next one is read. -/
theorem StartsWord.run_ws {s : List Char} (h : StartsWord s) (offset : Nat) : ws.run offset s = none := by
  cases hrun : ws.run offset s with
  | none => rfl
  | some o =>
    obtain ⟨g, r, rfl, hne, hg, -, -⟩ := run_ws_eq_some.1 hrun
    exact absurd (stops_isWordChar_of_isGap hne hg r) h.not_stops

/-! ## Texts with a keyword that runs into what follows -/

/-- The text of pieces where the blanks behind one keyword are left out. -/
inductive Glued : List Piece → List Char → Prop where
  | here (k : String) (ps : List Piece) : Glued (.keyword k :: ps) (k.toList ++ trimStart (written ps))
  | later (p : Piece) {ps : List Piece} {s : List Char} (h : Glued ps s) : Glued (p :: ps) (p.chars ++ s)

theorem glued_of_keyword (before : List Piece) (k : String) (after : List Piece) :
    Glued (before ++ .keyword k :: after) (written before ++ (k.toList ++ trimStart (written after))) := by
  induction before with
  | nil => exact Glued.here k after
  | cons p before ih => simpa using Glued.later p ih

theorem not_glued_nil {s : List Char} : ¬Glued [] s := nofun

theorem glued_text_cons {t s : List Char} {ps : List Piece} (h : Glued (.text t :: ps) s) :
    ∃ s', s = t ++ s' ∧ Glued ps s' := by
  cases h with
  | later _ h => exact ⟨_, rfl, h⟩

theorem glued_keyword_cons {k : String} {s : List Char} {ps : List Piece} (h : Glued (.keyword k :: ps) s) :
    s = k.toList ++ trimStart (written ps) ∨ ∃ s', s = k.toList ++ s' ∧ Glued ps s' := by
  cases h with
  | here => exact Or.inl rfl
  | later _ h => exact Or.inr ⟨_, rfl, h⟩

/-- The first piece starts with a character of a word. -/
def WordFirst (ps : List Piece) : Prop := ∃ p qs, ps = p :: qs ∧ StartsWord p.chars

theorem WordFirst.append {ps : List Piece} (h : WordFirst ps) (qs : List Piece) : WordFirst (ps ++ qs) := by
  obtain ⟨p, rs, rfl, hp⟩ := h
  exact ⟨p, rs ++ qs, rfl, hp⟩

theorem WordFirst.startsWord {ps : List Piece} (h : WordFirst ps) : StartsWord (written ps) := by
  obtain ⟨p, qs, rfl, hp⟩ := h
  rw [written_cons]
  exact hp.append _

theorem WordFirst.startsWord_of_glued {ps : List Piece} (h : WordFirst ps) {s : List Char} (hs : Glued ps s) :
    StartsWord s := by
  obtain ⟨p, qs, rfl, hp⟩ := h
  cases hs <;> exact hp.append _

theorem SpacedPieces.wordFirst {w : Piece} {ws l ps : List Piece} (h : SpacedPieces (w :: ws) l ps)
    (hw : StartsWord w.chars) : WordFirst ps := by
  cases h
  exact ⟨_, _, rfl, hw⟩

/-- Where blanks are left out, the word behind them comes next. -/
theorem trimStart_written {u : List Char} (hu : Over isBlank u) {ps : List Piece} (hps : WordFirst ps) :
    trimStart (written (.text u :: ps)) = written ps := by
  rw [written_cons]
  exact dropWhile_append_of_stops hu hps.startsWord.stops_isBlank

/-! ## The words of a clause -/

/-- The pattern reads the piece as a word. A keyword that runs into a word is not read, or no blanks are found behind it. -/
structure ReadsWord (p : Pattern Rule) (w : Piece) : Prop where
  isWord : IsWord w.chars
  reads : ∀ {s : List Char} (offset : Nat), Stops isWordChar s →
    ∃ ns, p.run offset (w.chars ++ s) = some ⟨w.chars, ns, s⟩
  glued : ∀ {k : String} {s : List Char} (offset : Nat), w = .keyword k → StartsWord s →
    ∀ o, p.run offset (w.chars ++ s) = some o → o.rest = s

theorem ReadsWord.wordFirst {p : Pattern Rule} {w : Piece} (h : ReadsWord p w) (ps : List Piece) : WordFirst (w :: ps) :=
  ⟨w, ps, rfl, h.isWord.startsWord⟩

theorem ReadsWord.run_eq_none {p : Pattern Rule} {k : String} (h : ReadsWord p (.keyword k)) {s : List Char}
    (hs : StartsWord s) (q : Pattern Rule) (offset : Nat) : (seq p (seq ws q)).run offset (k.toList ++ s) = none := by
  cases hrun : (seq p (seq ws q)).run offset (k.toList ++ s) with
  | none => rfl
  | some o =>
    obtain ⟨one, two, hone, htwo, -⟩ := run_seq_eq_some.1 hrun
    obtain ⟨three, _, hthree, -, -⟩ := run_seq_eq_some.1 htwo
    rw [h.glued offset rfl hs one hone, hs.run_ws] at hthree
    cases hthree

theorem readsWord_text {k : String} (hk : IsWord k.toList) : ReadsWord (text k) (.keyword k) where
  isWord := hk
  reads _ _ := ⟨_, run_text_append k _ _⟩
  glued _ _ _ o ho := by
    rw [chars_keyword, run_text_append, Option.some.injEq] at ho
    rw [← ho]

theorem readsWord_kind {w : List Char} (hw : IsWord w) : ReadsWord kind (.text w) where
  isWord := hw
  reads offset hs := ⟨_, run_token_eq_some.2 ⟨_, run_word_append hw hs offset, rfl⟩⟩
  glued _ h := nomatch h

theorem readsWord_ident {w : List Char} (hw : IsName w) : ReadsWord ident (.text w) where
  isWord := hw.1
  reads offset hs := ⟨_, run_ident_append hw hs offset⟩
  glued _ h := nomatch h

/-- A word of a list that goes on is none of the list. -/
theorem run_oneOf_startsWord {words : List String} (hwords : IsVocabulary words) {w : String} (hw : w ∈ words)
    {s : List Char} (hs : StartsWord s) (offset : Nat) : (oneOf words).run offset (w.toList ++ s) = none := by
  cases hrun : (oneOf words).run offset (w.toList ++ s) with
  | none => rfl
  | some o =>
    obtain ⟨v, hv, r, heq, hr, -⟩ := (run_oneOf_eq_some hwords).1 hrun
    have hsame : v = w := by
      rcases List.prefix_or_prefix_of_prefix ⟨r, heq.symm⟩ (List.prefix_append w.toList s) with h | h
      · exact hwords.2 v hv w hw h
      · exact (hwords.2 w hw v hv h).symm
    subst hsame
    rw [List.append_cancel_left_eq] at heq
    exact absurd (heq ▸ hr) hs.not_stops

theorem readsWord_aggregate (op : Aggregate) : ReadsWord aggregate (.keyword op.name) where
  isWord := by cases op <;> decide
  reads offset hs := ⟨_, run_aggregate_append op hs offset⟩
  glued offset _ hs o ho := by
    have hmem : op.name ∈ Aggregate.all.map Aggregate.name := by cases op <;> decide
    obtain ⟨_, hone, -⟩ := run_token_eq_some.1 ho
    rw [chars_keyword, run_oneOf_startsWord isVocabulary_aggregates hmem hs] at hone
    cases hone

theorem readsWord_direction (d : Direction) : ReadsWord direction (.keyword d.word) where
  isWord := by cases d <;> decide
  reads offset hs := ⟨_, run_direction_append d hs offset⟩
  glued offset _ hs o ho := by
    have hmem : d.word ∈ Direction.all.map Direction.word := by cases d <;> decide
    obtain ⟨_, hone, -⟩ := run_token_eq_some.1 ho
    rw [chars_keyword, run_oneOf_startsWord isVocabulary_directions hmem hs] at hone
    cases hone

/-- Words with blanks behind each, and what follows them. -/
def inWords (words : List (Pattern Rule)) (last : Pattern Rule) : Pattern Rule :=
  words.foldr (fun p q => seq p (seq ws q)) last

/-- The words of a clause are read up to the last part. -/
structure ReadUpTo (words : List (Pattern Rule)) (ws l ps : List Piece) (s s' : List Char) : Prop where
  /-- before the last part the text is as it is written, whatever the last part is -/
  spaced : ∃ front, written ps = front ++ written l ∧ s = front ++ s' ∧
    ∀ x, Spaced (ws.map Piece.chars ++ [x]) (front ++ x)
  /-- where the last part is not read, the clause is not -/
  fails : ∀ last : Pattern Rule, (∀ offset, last.run offset s' = none) → ∀ offset, (inWords words last).run offset s = none

/-- If one of the words of a clause runs into the next one, the clause is not read; otherwise the words are read, and the
keyword without blanks stands behind them. -/
theorem glued_inWords {words : List (Pattern Rule)} {ws l ps qs : List Piece} {s : List Char}
    (hwords : List.Forall₂ ReadsWord words ws) (h : SpacedPieces ws l ps) (hl : WordFirst l) (hs : Glued (ps ++ qs) s) :
    (∀ last offset, (inWords words last).run offset s = none) ∨
      ∃ s', ReadUpTo words ws l ps s s' ∧ Glued (l ++ qs) s' := by
  induction h generalizing words s with
  | last l =>
    cases hwords
    exact Or.inr ⟨s, ⟨⟨[], rfl, rfl, fun x => Spaced.last x⟩, fun last hlast => hlast⟩, hs⟩
  | @more w g ws l ps hne hg h ih =>
    cases hwords with
    | @cons p _ words _ hw hwords =>
    have hfirst : WordFirst (ps ++ qs) := by
      cases h with
      | last => exact hl.append qs
      | more =>
        cases hwords with
        | cons hv _ => exact (hv.wordFirst _).append qs
    have hread : ∀ (s₁ : List Char) offset, ∃ ns, p.run offset (w.chars ++ (g ++ s₁)) = some ⟨w.chars, ns, g ++ s₁⟩ :=
      fun s₁ offset => hw.reads offset (stops_isWordChar_of_isGap hne hg s₁)
    rw [List.cons_append, List.cons_append] at hs
    cases hs with
    | here k =>
      -- this word is the keyword: it makes a longer word with the next one, or no blanks are found behind it
      have htrim : trimStart (written (.text g :: (ps ++ qs))) = written (ps ++ qs) :=
        trimStart_written (over_isBlank_of_isGap hg) hfirst
      refine Or.inl fun last offset => ?_
      rw [htrim]
      exact hw.run_eq_none hfirst.startsWord _ offset
    | later _ hs =>
      obtain ⟨s₁, rfl, hs₁⟩ := glued_text_cons hs
      have hgap := (hfirst.startsWord_of_glued hs₁).stops_isGap
      rcases ih hwords hl hs₁ with hnone | ⟨s', ⟨⟨front, hps, rfl, hspaced⟩, hfails⟩, hs'⟩
      · refine Or.inl fun last offset => ?_
        obtain ⟨ns, hrun⟩ := hread s₁ offset
        exact run_seq_ws_eq_none hrun hne hg hgap (hnone last _)
      · refine Or.inr ⟨s', ⟨⟨w.chars ++ (g ++ front), by simp [hps], by simp, fun x => ?_⟩, fun last hlast offset => ?_⟩, hs'⟩
        · simpa using Spaced.more (w := w.chars) hne hg (hspaced x)
        · obtain ⟨ns, hrun⟩ := hread (front ++ s') offset
          exact run_seq_ws_eq_none hrun hne hg hgap (hfails last hlast _)

/-! ## Lists -/

/-- Behind blanks this character comes next. -/
def ComesNext (c : Char) (s : List Char) : Prop := ∃ u r, Over isBlank u ∧ s = u ++ c :: r

theorem Separator.comesNext {sep : List Char} (h : Separator sep) (s : List Char) :
    ComesNext 'a' (sep ++ s) ∨ ComesNext ',' (sep ++ s) := by
  cases h with
  | @comma g h hg hh => exact Or.inr ⟨g, h ++ s, over_isBlank_of_isGap hg, by simp⟩
  | @and g h hg _ _ _ => exact Or.inl ⟨g, "nd".toList ++ (h ++ s), over_isBlank_of_isGap hg, by simp⟩

/-- A list ends before a separator that no member follows. -/
theorem listEnds_separator {item : Pattern Rule} {sep s : List Char} (hsep : Separator sep) (hs : Stops isGap s)
    (hitem : ∀ offset, item.run offset s = none) : ListEnds item (sep ++ s) := by
  refine ⟨hsep.fieldEnds_append s, fun offset => ?_⟩
  cases hrun : (seq listSep item).run offset (sep ++ s) with
  | none => rfl
  | some o =>
    obtain ⟨one, two, hone, htwo, -⟩ := run_seq_eq_some.1 hrun
    rw [run_listSep_append hsep hs, Option.some.injEq] at hone
    subst hone
    rw [hitem] at htwo
    cases htwo

/-- A list ends before an `and` that runs into a word. -/
theorem listEnds_glued {item : Pattern Rule} {g s : List Char} (hne : g ≠ []) (hg : Over isGap g) (hs : StartsWord s) :
    ListEnds item (g ++ ("and".toList ++ s)) := by
  refine ⟨fieldEnds_blank_append (over_isBlank_of_isGap hg) (stops_cons.2 (by decide)) fun hnil => absurd hnil hne, ?_⟩
  intro offset
  cases hrun : (seq listSep item).run offset (g ++ ("and".toList ++ s)) with
  | none => rfl
  | some o =>
    obtain ⟨one, _, hone, -, -⟩ := run_seq_eq_some.1 hrun
    obtain ⟨sep, r, heq, hsep, -, -⟩ := run_listSep_eq_some.1 hone
    have hand : Stops isGap ("and".toList ++ s) := stops_cons.2 (by decide)
    cases hsep with
    | comma hg' _ =>
      rw [List.append_assoc] at heq
      obtain ⟨-, habsurd⟩ := span_unique heq hg hand hg' (stops_cons.2 (by decide))
      cases habsurd
    | and hg' _ hh hne' =>
      rw [List.append_assoc, List.append_assoc] at heq
      obtain ⟨-, heq⟩ := span_unique heq hg hand hg' (stops_cons.2 (by decide))
      rw [List.append_cancel_left_eq] at heq
      rw [heq] at hs
      exact absurd (stops_isWordChar_of_isGap hne' hh r) hs.not_stops

theorem ListText.append {α : Type} {member : α → List Char → Prop} {as bs : List α} {t sep t' : List Char}
    (h : ListText member as t) (hsep : Separator sep) (h' : ListText member bs t') :
    ListText member (as ++ bs) (t ++ (sep ++ t')) := by
  induction h with
  | last h => exact ListText.more h hsep h'
  | more h hsep' _ ih => simpa using ListText.more h hsep' ih

section

variable {α : Type} {item : Pattern Rule} {Fails : List Char → Prop} {pieces : α → List Piece → Prop}
  {member : α → List Char → Prop}

/-- The pieces of a member of a list. Where a keyword in them runs into a word, reading the member fails; otherwise the
keyword without blanks stands behind the member. -/
structure MemberPieces (Fails : List Char → Prop) (member : List Char → Prop) (ps : List Piece) : Prop where
  first : WordFirst ps
  member : member (written ps)
  glued : ∀ {qs : List Piece} {s : List Char}, Glued (ps ++ qs) s → Fails s ∨ ∃ s', s = written ps ++ s' ∧ Glued qs s'

/-- Only the first members of a list are read: it ends before a comma with a member behind it that fails, or before an `and`. -/
def BreaksOff (item : Pattern Rule) (Fails : List Char → Prop) (member : α → List Char → Prop) (as : List α)
    (s : List Char) : Prop :=
  ∃ as' t r c, as' <+: as ∧ ListText member as' t ∧ s = t ++ r ∧ ListEnds item r ∧ ComesNext c r ∧
    (c = 'a' ∨ c = ',' ∧ ∃ s', Fails s')

theorem BreaksOff.single {a : α} {t r : List Char} {c : Char} (h : member a t) (hr : ListEnds item r) (hc : ComesNext c r)
    (hmark : c = 'a' ∨ c = ',' ∧ ∃ s', Fails s') (as : List α) : BreaksOff item Fails member (a :: as) (t ++ r) :=
  ⟨[a], t, r, c, List.prefix_append [a] as, ListText.last h, rfl, hr, hc, hmark⟩

theorem BreaksOff.cons {a : α} {as : List α} {t sep s : List Char} (h : member a t) (hsep : Separator sep)
    (hs : BreaksOff item Fails member as s) : BreaksOff item Fails member (a :: as) (t ++ (sep ++ s)) := by
  obtain ⟨as', t', r, c, hinitial, ht', rfl, hr, hc, hmark⟩ := hs
  exact ⟨a :: as', t ++ (sep ++ t'), r, c, List.cons_prefix_cons.2 ⟨rfl, hinitial⟩, ListText.more h hsep ht', by simp, hr, hc,
    hmark⟩

theorem ListPieces.wordFirst (hpieces : ∀ a ps, pieces a ps → WordFirst ps) {as : List α} {ps : List Piece}
    (h : ListPieces pieces as ps) : WordFirst ps := by
  cases h with
  | last h => exact hpieces _ _ h
  | more h _ _ => exact (hpieces _ _ h).append _

/-- An `and` between members runs into the next one, or the keyword without blanks stands behind the separator. -/
theorem glued_separator {sep qs : List Piece} {s : List Char} (hsep : SeparatorPieces sep) (hqs : WordFirst qs)
    (hs : Glued (sep ++ qs) s) :
    (∃ g, g ≠ [] ∧ Over isGap g ∧ s = g ++ ("and".toList ++ written qs)) ∨ ∃ s', s = written sep ++ s' ∧ Glued qs s' := by
  cases hsep with
  | comma hg hh =>
    obtain ⟨s', rfl, hs'⟩ := glued_text_cons hs
    exact Or.inr ⟨s', by simp, hs'⟩
  | @and g h hg hne hh hne' =>
    simp only [List.cons_append, List.nil_append] at hs
    obtain ⟨s₁, rfl, hs₁⟩ := glued_text_cons hs
    rcases glued_keyword_cons hs₁ with rfl | ⟨s₂, rfl, hs₂⟩
    · exact Or.inl ⟨g, hne, hg, by rw [trimStart_written (over_isBlank_of_isGap hh) hqs]⟩
    · obtain ⟨s', rfl, hs'⟩ := glued_text_cons hs₂
      exact Or.inr ⟨s', by simp, hs'⟩

variable (item) in
/-- A list in which a keyword runs into a word fails at its first member or breaks off before a later one; otherwise the
keyword without blanks stands behind the list. -/
theorem glued_list (hfails : ∀ s, Fails s → ∀ offset, item.run offset s = none)
    (hpieces : ∀ a ps, pieces a ps → MemberPieces Fails (member a) ps) {as : List α} {ps qs : List Piece} {s : List Char}
    (h : ListPieces pieces as ps) (hs : Glued (ps ++ qs) s) :
    Fails s ∨ BreaksOff item Fails member as s ∨ ∃ s', s = written ps ++ s' ∧ Glued qs s' := by
  induction h generalizing s with
  | last h =>
    rcases (hpieces _ _ h).glued hs with hfail | hbehind
    · exact Or.inl hfail
    · exact Or.inr (Or.inr hbehind)
  | @more a as ps sep rest h hsep hrest ih =>
    have hmember := hpieces a ps h
    have hfirst : WordFirst (rest ++ qs) := (hrest.wordFirst fun a ps h => (hpieces a ps h).first).append qs
    rw [List.append_assoc, List.append_assoc] at hs
    rcases hmember.glued hs with hfail | ⟨s₁, rfl, hs₁⟩
    · exact Or.inl hfail
    refine Or.inr ?_
    rcases glued_separator hsep hfirst hs₁ with ⟨g, hne, hg, rfl⟩ | ⟨s₂, rfl, hs₂⟩
    · have hends : ListEnds item (g ++ ("and".toList ++ written (rest ++ qs))) := listEnds_glued hne hg hfirst.startsWord
      have hnext : ComesNext 'a' (g ++ ("and".toList ++ written (rest ++ qs))) := ⟨g, _, over_isBlank_of_isGap hg, rfl⟩
      exact Or.inl (BreaksOff.single hmember.member hends hnext (Or.inl rfl) as)
    have hsep' : Separator (written sep) := separator_iff_exists_pieces.2 ⟨sep, hsep, rfl⟩
    rcases ih hs₂ with hfail | hbreaks | ⟨s', rfl, hs'⟩
    · -- the next member is not read, so the list ends before the separator
      have hgap := (hfirst.startsWord_of_glued hs₂).stops_isGap
      have hends := listEnds_separator hsep' hgap (hfails s₂ hfail)
      rcases hsep'.comesNext s₂ with hnext | hnext
      · exact Or.inl (BreaksOff.single hmember.member hends hnext (Or.inl rfl) as)
      · exact Or.inl (BreaksOff.single hmember.member hends hnext (Or.inr ⟨rfl, s₂, hfail⟩) as)
    · exact Or.inl (BreaksOff.cons hmember.member hsep' hbreaks)
    · exact Or.inr ⟨s', by simp, hs'⟩

end

end Grammar

end SentenceQuery
