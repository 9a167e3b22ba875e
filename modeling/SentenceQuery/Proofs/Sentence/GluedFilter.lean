import SentenceQuery.Proofs.Sentence.Completeness
import SentenceQuery.Proofs.Sentence.GluedBody

/-!
# Filter clauses in which a keyword runs into a word

Where `find` runs into the word behind it, the two make a name, so the columns before the clause may go on with it
(`FindGlued`). Where another keyword of the clause does, the clause is not there or its body is refused; otherwise the keyword
without blanks stands behind the clause (`glued_filterPieces`).
-/

namespace SentenceQuery

open Grammar Sentence Pattern

/-! ## Clauses that are not there -/

theorem refused_expect (clause : RequiredClause) {c : Cursor} (h : c.accept? clause.rule = none) :
    Refused (c.expect clause) := by
  unfold Cursor.expect
  rw [h]
  exact ⟨_, rfl⟩

/-- The mark that a clause starts with, if it starts with one. -/
def clauseMark? : Rule → Option Char
  | .filterClause => some ','
  | .applyClause => some ','
  | .sortClause => some ';'
  | .finish => some '.'
  | _ => none

theorem run_mark_eq_none {mark : String} {k c : Char} (hmark : mark.toList = [k]) (hc : k ≠ c) (rule : Rule)
    (q : Pattern Rule) (offset : Nat) (s : List Char) : (node rule (seq (text mark) q)).run offset (c :: s) = none := by
  simp [Pattern.text, run, hmark, dropLiteral?, hc]

/-- A clause is not there where another mark comes next, or a word. -/
theorem accept?_eq_none_of_mark {rule : Rule} {k c : Char} (hrule : clauseMark? rule = some k) {s : List Char}
    (h : ComesNext c s) (hblank : isBlank c = false) (hc : k ≠ c) (o : Nat) : (⟨o, s⟩ : Cursor).accept? rule = none := by
  obtain ⟨u, r, hu, rfl⟩ := h
  refine accept?_eq_none (skipBlanks_append hu (stops_cons.2 hblank) o) ?_
  cases rule <;> cases hrule <;> exact run_mark_eq_none rfl hc _ _ _ _

theorem accept?_eq_none_of_startsWord {rule : Rule} {k : Char} (hrule : clauseMark? rule = some k) {u s : List Char}
    (hu : Over isBlank u) (hs : StartsWord s) (o : Nat) : (⟨o, u ++ s⟩ : Cursor).accept? rule = none := by
  obtain ⟨c, r, rfl, hc⟩ := hs
  refine accept?_eq_none_of_mark hrule ⟨u, r, hu, rfl⟩ (not_isBlank_of_isWordChar hc) ?_ o
  rintro rfl
  cases rule <;> cases hrule <;> exact absurd hc (by decide)

/-! ## Reading the clause -/

/-- The filter clause: its criteria, and the place behind it. -/
def readFilterClause (kind : Kind) (c : Cursor) : Except QueryError (List Criterion × Cursor) := do
  let (clause, c) ← c.expect .filter
  .ok (← readFilter kind clause, c)

theorem refused_readFilterClause {kind : Kind} {c : Cursor} (h : c.accept? .filterClause = none) :
    Refused (readFilterClause kind c) :=
  (refused_expect .filter h).bind _

theorem readFilterClause_eq (kind : Kind) {c c' : Cursor} {clause : Node Rule}
    (h : c.accept? .filterClause = some (clause, c')) :
    readFilterClause kind c = readFilter kind clause >>= fun criteria => .ok (criteria, c') := by
  have hexpect : c.expect .filter = .ok (clause, c') := expect_eq_ok.2 h
  rw [readFilterClause, hexpect, ok_bind]

/-- A filter clause is not there where none of its two forms is. -/
theorem run_filterClause_eq_none {g s : List Char} (hg : Over isGap g) (hs : Stops isGap s)
    (hall : ∀ offset, findAll.run offset s = none) (hwhose : ∀ offset, findWhose.run offset s = none) (offset : Nat) :
    filterClause.run offset (',' :: (g ++ s)) = none := by
  cases hrun : filterClause.run offset (',' :: (g ++ s)) with
  | none => rfl
  | some o =>
    simp only [filterClause, Pattern.all, run_node_eq_some, run_seq_eq_some] at hrun
    obtain ⟨_, ⟨_, _, hmark, ⟨_, _, hsp, ⟨_, _, hchoice, -, -⟩, -⟩, -⟩, -⟩ := hrun
    obtain ⟨r, hr, rfl⟩ := run_text_eq_some.1 hmark
    obtain ⟨-, rfl⟩ := List.cons.inj hr
    rw [run_sp_append hg hs, Option.some.injEq] at hsp
    subst hsp
    rcases run_choice_eq_some.1 hchoice with h | ⟨-, h⟩
    · rw [hall] at h
      cases h
    · rw [hwhose] at h
      cases h

theorem accept?_filter_eq_none {u g s : List Char} (hu : Over isBlank u) (hg : Over isGap g) (hs : Stops isGap s)
    (hall : ∀ offset, findAll.run offset s = none) (hwhose : ∀ offset, findWhose.run offset s = none) (o : Nat) :
    (⟨o, u ++ ',' :: (g ++ s)⟩ : Cursor).accept? .filterClause = none :=
  accept?_eq_none (skipBlanks_append hu (stops_cons.2 (by decide)) o) (run_filterClause_eq_none hg hs hall hwhose _)

/-! ## The words of the clause -/

/-- The word `find` behind a comma runs into the next word of the clause, and blanks and a further word follow. -/
def FindGlued (u s : List Char) : Prop :=
  ∃ g w g' r, Over isGap g ∧ (w = "all" ∨ w = "entries") ∧ g' ≠ [] ∧ Over isGap g' ∧
    (∃ c r', r = c :: r' ∧ isWordChar c = true ∧ c.isUpper = false ∧ c ≠ 'a') ∧
    s = u ++ ',' :: (g ++ ("find".toList ++ w.toList ++ (g' ++ r)))

/-- The clause is not there where `find` runs into the next word. -/
theorem FindGlued.accept?_eq_none {u s : List Char} (hu : Over isBlank u) (h : FindGlued u s) (o : Nat) :
    (⟨o, s⟩ : Cursor).accept? .filterClause = none := by
  obtain ⟨g, w, g', r, hg, hw, -, -, -, rfl⟩ := h
  have hword : StartsWord (w.toList ++ (g' ++ r)) := by
    rcases hw with rfl | rfl <;> exact ⟨_, _, rfl, by decide⟩
  have hfind : ReadsWord (text "find") (.keyword "find") := readsWord_text (by decide)
  have hnone : ∀ q offset, (seq (text "find") (seq ws q)).run offset ("find".toList ++ (w.toList ++ (g' ++ r))) = none :=
    hfind.run_eq_none hword
  have hgap : Stops isGap ("find".toList ++ (w.toList ++ (g' ++ r))) := stops_cons.2 (by decide)
  rw [List.append_assoc]
  refine accept?_filter_eq_none hu hg hgap (fun offset => ?_) (fun offset => ?_) o
  · exact congrArg (Option.map _) (hnone _ offset)
  · exact congrArg (Option.map _) (hnone _ offset)

/-- A form of the clause is not there where its second word is not. -/
theorem run_find_eq_none {q : Pattern Rule} {g s : List Char} (hne : g ≠ []) (hg : Over isGap g) (hs : Stops isGap s)
    (hq : ∀ offset, q.run offset s = none) (rule : Rule) (offset : Nat) :
    (node rule (seq (text "find") (seq ws q))).run offset ("find".toList ++ (g ++ s)) = none :=
  congrArg (Option.map _) (run_seq_ws_eq_none (run_text_append "find" offset _) hne hg hs (hq _))

/-- The first word of the clause runs into the second, or the two stand apart. -/
theorem glued_findWords {u g : List Char} {w : String} {l ps qs : List Piece} (hu : Over isBlank u) (hg : Over isGap g)
    (hw : w = "all" ∨ w = "entries") (hps : SpacedPieces [.keyword "find", .keyword w] l ps)
    (hl : ∃ c r, written l = c :: r ∧ isWordChar c = true ∧ c.isUpper = false ∧ c ≠ 'a') {s : List Char}
    (hs : Glued (ps ++ qs) s) :
    FindGlued u (u ++ ',' :: (g ++ s)) ∨ StartsWithKeyword (u ++ ',' :: (g ++ s)) ∧
      ∃ g₁ x, s = "find".toList ++ (g₁ ++ (w.toList ++ x)) ∧ g₁ ≠ [] ∧ Over isGap g₁ := by
  have hword : StartsWord w.toList := by
    rcases hw with rfl | rfl <;> exact ⟨_, _, rfl, by decide⟩
  have hfirst : ∀ ps', SpacedPieces [.keyword w] l ps' → WordFirst ps' := fun _ h => h.wordFirst hword
  obtain ⟨g₁, ps', hps', hne₁, hg₁, rfl, rfl | ⟨s₁, rfl, hs₁⟩⟩ := glued_firstKeyword hps hfirst hs
  · cases hps' with
    | @more _ g₂ _ _ _ hne₂ hg₂ hlast =>
    cases hlast with
    | last =>
      obtain ⟨c, r, hwritten, hc⟩ := hl
      exact Or.inl ⟨g, w, g₂, c :: (r ++ written qs), hg, hw, hne₂, hg₂, ⟨c, _, rfl, hc⟩, by simp [hwritten]⟩
  · obtain ⟨x, rfl⟩ : ∃ x, s₁ = w.toList ++ x := by
      cases hps'
      cases hs₁ <;> exact ⟨_, rfl⟩
    exact Or.inr ⟨⟨u, g, g₁ ++ (w.toList ++ x), "find", by decide, hu, hg, stops_isWordChar_of_isGap hne₁ hg₁ _, rfl⟩,
      g₁, x, rfl, hne₁, hg₁⟩

/-- A filter that selects every record. -/
theorem glued_allPieces (kind : Kind) {u g g' : List Char} {ps qs : List Piece} (hu : Over isBlank u) (hg : Over isGap g)
    (hps : SpacedPieces [.keyword "find", .keyword "all"] [.text "entries".toList] ps) {s : List Char}
    (hs : Glued (ps ++ .text (g' ++ [';']) :: qs) s) :
    FindGlued u (u ++ ',' :: (g ++ s)) ∨ StartsWithKeyword (u ++ ',' :: (g ++ s)) ∧
      ((∀ o, Refused (readFilterClause kind ⟨o, u ++ ',' :: (g ++ s)⟩)) ∨
        ∃ s', s = written ps ++ (g' ++ ';' :: s') ∧ Glued qs s') := by
  have hwords : List.Forall₂ ReadsWord [text "find", text "all"] [.keyword "find", .keyword "all"] :=
    .cons (readsWord_text (by decide)) (.cons (readsWord_text (by decide)) .nil)
  have hlast : WordFirst [.text "entries".toList] := ⟨_, _, rfl, _, _, rfl, by decide⟩
  rcases glued_findWords hu hg (Or.inl rfl) hps ⟨_, _, rfl, by decide, by decide, by decide⟩ hs with
    hfind | ⟨hstart, g₁, x, rfl, hne₁, hg₁⟩
  · exact Or.inl hfind
  refine Or.inr ⟨hstart, ?_⟩
  rcases glued_inWords hwords hps hlast hs with hnone | ⟨s₂, hread, hs₂⟩
  · -- the other form is not there either: `all` comes next, and not `entries`
    refine Or.inl fun o => refused_readFilterClause ?_
    refine accept?_filter_eq_none hu hg (stops_cons.2 (by decide)) (fun offset => ?_) (fun offset => ?_) o
    · exact congrArg (Option.map _) (hnone _ offset)
    · exact run_find_eq_none hne₁ hg₁ (stops_cons.2 (by decide)) (fun _ => rfl) _ offset
  · obtain ⟨front, hfront, heq, -⟩ := hread.spaced
    obtain ⟨s₃, rfl, hs₃⟩ := glued_text_cons hs₂
    obtain ⟨s', rfl, hs'⟩ := glued_text_cons hs₃
    refine Or.inr ⟨s', ?_, hs'⟩
    rw [heq, hfront]
    simp

/-- A filter clause is refused with its body. -/
theorem BodyRefused.refused {kind : Kind} {h u v b u' : List Char} (hb : BodyRefused kind b) (hu : Over isBlank u)
    (hh : WhoseText h) (hv : Over isBlank v) (hu' : Over isBlank u') (o : Nat) (r : List Char) :
    Refused (readFilterClause kind ⟨o, u ++ (h ++ (v ++ (b ++ (u' ++ ';' :: r))))⟩) := by
  obtain ⟨first, rest, hjoined, hrefused⟩ := hb
  obtain ⟨clause, o', texts, haccept, htexts, hread⟩ :=
    accept?_whose (fun _ _ ht => ht.2) hu hh hv hjoined hu' kind o r
  have hsame : List.Forall₂ (· = ·) (first :: rest.map Prod.snd) texts := htexts.imp fun _ _ h => h.1
  rw [List.forall₂_eq_eq_eq] at hsame
  rw [readFilterClause_eq kind haccept, hread, ← hsame]
  exact hrefused.bind _

/-- A filter with a body. -/
theorem glued_whosePieces {kind : Kind} {f : Conditions} (hf : ∀ c ∈ f.all, c.WellFormed kind)
    {u g g' v u' : List Char} {ps body qs : List Piece} (hu : Over isBlank u) (hg : Over isGap g)
    (hps : SpacedPieces [.keyword "find", .keyword "entries"] [.keyword "whose"] ps) (hne : g' ≠ []) (hg' : Over isGap g')
    (hv : Over isBlank v) (hbody : JoinedPieces f.first f.more body) (hu' : Over isBlank u') {s : List Char}
    (hs : Glued (ps ++ .text (g' ++ v) :: (body ++ .text (u' ++ [';']) :: qs)) s) :
    FindGlued u (u ++ ',' :: (g ++ s)) ∨ StartsWithKeyword (u ++ ',' :: (g ++ s)) ∧
      ((∀ o, Refused (readFilterClause kind ⟨o, u ++ ',' :: (g ++ s)⟩)) ∨
        ∃ s', s = written ps ++ (g' ++ (v ++ (written body ++ (u' ++ ';' :: s')))) ∧ Glued qs s') := by
  have hwords : List.Forall₂ ReadsWord [text "find", text "entries"] [.keyword "find", .keyword "entries"] :=
    .cons (readsWord_text (by decide)) (.cons (readsWord_text (by decide)) .nil)
  have hwhose : ReadsWord (text "whose") (.keyword "whose") := readsWord_text (by decide)
  rcases glued_findWords hu hg (Or.inr rfl) hps ⟨_, _, rfl, by decide, by decide, by decide⟩ hs with
    hfind | ⟨hstart, g₁, x, rfl, hne₁, hg₁⟩
  · exact Or.inl hfind
  refine Or.inr ⟨hstart, ?_⟩
  -- without the form with a body there is no clause: `entries` comes next, and not `all`
  have hmissing : (∀ offset, (inWords [text "find", text "entries"] (seq (text "whose") (seq ws criteriaText))).run offset
      ("find".toList ++ (g₁ ++ ("entries".toList ++ x))) = none) →
      ∀ o, Refused (readFilterClause kind ⟨o, u ++ ',' :: (g ++ ("find".toList ++ (g₁ ++ ("entries".toList ++ x))))⟩) := by
    refine fun hnone o => refused_readFilterClause ?_
    refine accept?_filter_eq_none hu hg (stops_cons.2 (by decide)) (fun offset => ?_) (fun offset => ?_) o
    · exact run_find_eq_none hne₁ hg₁ (stops_cons.2 (by decide)) (fun _ => rfl) _ offset
    · exact congrArg (Option.map _) (hnone offset)
  rcases glued_inWords hwords hps (hwhose.wordFirst []) hs with hnone | ⟨s₂, hread, hs₂⟩
  · exact Or.inl (hmissing (hnone _))
  obtain ⟨front, hfront, heq, hspaced⟩ := hread.spaced
  have hfirst : WordFirst (body ++ .text (u' ++ [';']) :: qs) :=
    (hbody.wordFirst (hf _ List.mem_cons_self)).append _
  have hblank : Over isBlank (g' ++ v) := over_append.2 ⟨over_isBlank_of_isGap hg', hv⟩
  rw [List.singleton_append] at hs₂
  rcases glued_keyword_cons hs₂ with rfl | ⟨s₃, rfl, hs₃⟩
  · rw [trimStart_written hblank hfirst] at hread
    exact Or.inl (hmissing (hread.fails _ (hwhose.run_eq_none hfirst.startsWord _)))
  obtain ⟨s₄, rfl, hs₄⟩ := glued_text_cons hs₃
  rw [heq]
  rcases glued_joinedPieces hf hbody hs₄ with ⟨b, rfl, hb⟩ | ⟨s₅, rfl, hs₅⟩
  · refine Or.inl fun o => ?_
    have hh : WhoseText (',' :: (g ++ (front ++ "whose".toList ++ g'))) :=
      ⟨g, _, g', hg, hspaced "whose".toList, hne, hg', rfl⟩
    simpa using hb.refused hu hh hv hu' o (written qs)
  · obtain ⟨s', rfl, hs'⟩ := glued_text_cons hs₅
    refine Or.inr ⟨s', ?_, hs'⟩
    rw [hfront]
    simp

/-- Where a keyword of the filter clause runs into a word, the clause is refused, or `find` does; otherwise the keyword without
blanks stands behind the clause. -/
theorem glued_filterPieces {kind : Kind} {filter : Option Conditions} (hfilter : ∀ f ∈ filter, ∀ c ∈ f.all, c.WellFormed kind)
    {u : List Char} {ps qs : List Piece} (hu : Over isBlank u) (h : FilterPieces filter ps) {s : List Char}
    (hs : Glued (ps ++ qs) s) :
    FindGlued u (u ++ s) ∨ StartsWithKeyword (u ++ s) ∧
      ((∀ o, Refused (readFilterClause kind ⟨o, u ++ s⟩)) ∨ ∃ s', s = written ps ++ s' ∧ Glued qs s') := by
  cases h with
  | @all g g' ps hg hps hg' =>
    simp only [List.cons_append, List.append_assoc, List.nil_append] at hs
    obtain ⟨s₁, rfl, hs₁⟩ := glued_text_cons hs
    rcases glued_allPieces kind hu hg hps hs₁ with hfind | ⟨hstart, hrefused | ⟨s', rfl, hs'⟩⟩
    · exact Or.inl hfind
    · exact Or.inr ⟨hstart, Or.inl hrefused⟩
    · exact Or.inr ⟨hstart, Or.inr ⟨s', by simp, hs'⟩⟩
  | @whose f g g' v u' ps body hg hps hne hg' hv hbody hu' =>
    simp only [List.cons_append, List.append_assoc, List.nil_append] at hs
    obtain ⟨s₁, rfl, hs₁⟩ := glued_text_cons hs
    rcases glued_whosePieces (hfilter f rfl) hu hg hps hne hg' hv hbody hu' hs₁ with
      hfind | ⟨hstart, hrefused | ⟨s', rfl, hs'⟩⟩
    · exact Or.inl hfind
    · exact Or.inr ⟨hstart, Or.inl hrefused⟩
    · exact Or.inr ⟨hstart, Or.inr ⟨s', by simp, hs'⟩⟩

end SentenceQuery
