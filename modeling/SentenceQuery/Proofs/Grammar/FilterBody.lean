import SentenceQuery.Proofs.Grammar.Clauses
import SentenceQuery.Proofs.Text.Quoting

/-!
# The filter clause

The body of a filter reaches to the first semicolon that is not in quotes. A text in which every quote is closed and no
semicolon stands outside quotes (`Balanced`) is therefore read whole, up to the semicolon behind it, whatever its quoted parts
hold; and a body that was read is such a text, if its quotes are even in number.
-/

namespace SentenceQuery

namespace Grammar

open Pattern

/-! ## Quoted texts -/

/-- Any character but those that a pattern starts with: a class. -/
theorem run_absent_anyChar {p : Pattern Rule} {rejects : Char → Bool}
    (hp : ∀ offset c s, (p.run offset (c :: s)).isSome = rejects c) :
    (seq (absent p) anyChar).run = (char fun c => !rejects c : Pattern Rule).run := by
  funext offset s
  cases s with
  | nil => cases h : p.run offset [] <;> simp [run, anyChar, h]
  | cons c s =>
    have hc := hp offset c s
    cases h : rejects c <;> simp [run, anyChar, hc, h]

theorem run_many_notChar {p : Pattern Rule} {rejects : Char → Bool}
    (hp : ∀ offset c s, (p.run offset (c :: s)).isSome = rejects c) (offset : Nat) (s : List Char) :
    (many (seq (absent p) anyChar)).run offset s =
      some ⟨s.takeWhile fun c => !rejects c, [], s.dropWhile fun c => !rejects c⟩ := by
  have hover : Over (fun c => !rejects c) (s.takeWhile fun c => !rejects c) := over_takeWhile s
  have h := repeated_char offset hover (stops_dropWhile s)
  rw [List.takeWhile_append_dropWhile, ← run_absent_anyChar hp] at h
  exact run_many_eq_some.2 h

theorem isSome_run_mark (mark : String) (k : Char) (hmark : mark.toList = [k]) (offset : Nat) (c : Char)
    (s : List Char) : ((text mark : Pattern Rule).run offset (c :: s)).isSome = decide (k = c) := by
  by_cases h : k = c <;> simp [Pattern.text, run, hmark, dropLiteral?, h]

/-- A text in quotes reaches to the next quote. -/
theorem run_quoted_eq_some {offset : Nat} {s : List Char} {o : Outcome Rule} :
    quoted.run offset s = some o ↔
      ∃ q r, s = '"' :: (q ++ '"' :: r) ∧ Unquoted q ∧ o = ⟨'"' :: (q ++ ['"']), [], r⟩ := by
  simp only [quoted, Pattern.all, run_seq_eq_some, run_text_eq_some,
    run_many_notChar (isSome_run_mark "\"" '"' rfl), Option.some.injEq]
  constructor
  · rintro ⟨_, _, ⟨s, rfl, rfl⟩, ⟨_, _, rfl, ⟨r, hr, rfl⟩, rfl⟩, rfl⟩
    simp only at hr
    have hsplit : s.takeWhile (fun c => !decide ('"' = c)) ++ s.dropWhile (fun c => !decide ('"' = c)) = s :=
      List.takeWhile_append_dropWhile
    rw [hr] at hsplit
    exact ⟨_, r, congrArg ('"' :: ·) hsplit.symm, over_notQuote_iff.1 (over_takeWhile s), rfl⟩
  · rintro ⟨q, r, rfl, hq, rfl⟩
    have hover := over_notQuote_iff.2 hq
    have hstops : Stops (fun c => !decide ('"' = c)) ('"' :: r) := stops_cons.2 (by decide)
    refine ⟨_, _, ⟨q ++ '"' :: r, rfl, rfl⟩, ⟨_, _, rfl, ⟨r, ?_, rfl⟩, rfl⟩, ?_⟩
    · simp only [dropWhile_append_of_stops hover hstops]
      rfl
    · simp only [takeWhile_append_of_stops hover hstops]
      rfl

/-! ## The body -/

/-- Every quote is closed and no semicolon stands outside quotes. -/
abbrev Balanced (t : List Char) : Prop := Closed (fun c => !decide (c = ';')) t

/-- A step over the body of a filter: a text in quotes, or a character that is no semicolon. -/
def bodyItem : Pattern Rule := choice quoted (seq (absent (text ";")) anyChar)

theorem run_bodyItem_eq_some {offset : Nat} {s : List Char} {o : Outcome Rule} :
    bodyItem.run offset s = some o ↔
      (∃ q r, s = '"' :: (q ++ '"' :: r) ∧ Unquoted q ∧ o = ⟨'"' :: (q ++ ['"']), [], r⟩) ∨
        ∃ c r, s = c :: r ∧ c ≠ ';' ∧ (c = '"' → Unquoted r) ∧ o = ⟨[c], [], r⟩ := by
  rw [bodyItem, run_choice_eq_some, run_quoted_eq_some, run_absent_anyChar (isSome_run_mark ";" ';' rfl),
    run_char_eq_some]
  refine or_congr_right ?_
  simp only [Bool.not_eq_true', decide_eq_false_iff_not]
  constructor
  · rintro ⟨hnone, c, r, rfl, hc, rfl⟩
    refine ⟨c, r, rfl, Ne.symm hc, ?_, rfl⟩
    rintro rfl hmem
    obtain ⟨q, x, rfl, hq⟩ := List.eq_append_cons_of_mem hmem
    rw [run_quoted_eq_some.2 ⟨q, x, rfl, hq, rfl⟩] at hnone
    cases hnone
  · rintro ⟨c, r, rfl, hc, hquote, rfl⟩
    refine ⟨?_, c, r, rfl, Ne.symm hc, rfl⟩
    cases h : quoted.run offset (c :: r) with
    | none => rfl
    | some o =>
      obtain ⟨q, x, hs, -, -⟩ := run_quoted_eq_some.1 h
      obtain ⟨rfl, rfl⟩ := List.cons.inj hs
      exact absurd (by simp) (hquote rfl)

/-- A balanced text is taken whole, up to a semicolon. -/
theorem repeated_of_balanced {t : List Char} (h : Balanced t) (r : List Char) (offset : Nat) :
    Repeated bodyItem.run offset (t ++ ';' :: r) ⟨t, [], ';' :: r⟩ := by
  induction h generalizing offset with
  | nil =>
    refine Repeated.stop fun one hone => ?_
    rcases run_bodyItem_eq_some.1 hone with ⟨q, x, hs, -, -⟩ | ⟨c, x, hs, hc, -, -⟩
    · cases hs
    · cases hs
      exact absurd rfl hc
  | @char c t hquote hmark _ ih =>
    have hne : c ≠ ';' := by simpa using hmark
    have hstep : bodyItem.run offset (c :: t ++ ';' :: r) = some ⟨[c], [], t ++ ';' :: r⟩ :=
      run_bodyItem_eq_some.2 (Or.inr ⟨c, t ++ ';' :: r, rfl, hne, fun hc => absurd hc hquote, rfl⟩)
    exact Repeated.more hstep (by simp) (ih _)
  | @quoted q t hq _ ih =>
    have hstep : bodyItem.run offset ('"' :: (q ++ '"' :: t) ++ ';' :: r) =
        some ⟨'"' :: (q ++ ['"']), [], t ++ ';' :: r⟩ :=
      run_bodyItem_eq_some.2 (Or.inl ⟨q, t ++ ';' :: r, by simp, hq, rfl⟩)
    have hmore := Repeated.more hstep (by simp) (ih _)
    simpa using hmore

/-- What was taken as a body is balanced if its quotes are even in number: only behind the last quote can one be taken as a
character. -/
theorem balanced_of_repeated {offset : Nat} {s : List Char} {o : Outcome Rule} (h : Repeated bodyItem.run offset s o)
    (heven : EvenQuotes o.text) : Balanced o.text := by
  induction h with
  | stop => exact Closed.nil
  | @more offset s one more h _ hmore ih =>
    rcases run_bodyItem_eq_some.1 h with ⟨q, r, rfl, hq, rfl⟩ | ⟨c, r, rfl, hc, hlone, rfl⟩
    · simp only [List.cons_append, List.append_assoc, List.nil_append] at heven ⊢
      exact Closed.quoted hq (ih ((evenQuotes_quoted hq).1 heven))
    · by_cases hquote : c = '"'
      · -- a lone quote has no other behind it, so it would be the only one
        subst hquote
        have hsplit : r = more.text ++ more.rest := hmore.splits fun _ _ _ => run_splits
        obtain ⟨q, r', htext, -, -⟩ := exists_close heven
        refine absurd ?_ (hlone rfl)
        have htext' : more.text = q ++ '"' :: r' := htext
        have hmem : '"' ∈ more.text := by simp [htext']
        rw [hsplit]
        exact List.mem_append_left _ hmem
      · exact Closed.char hquote (by simpa using hc) (ih ((evenQuotes_cons hquote).1 heven))

/-! ## The clause -/

/-- The words of a filter that selects every record. -/
def AllWords (t : List Char) : Prop := Spaced ["find".toList, "all".toList, "entries".toList] t

/-- The words before the criteria of a filter. -/
def WhoseWords (t : List Char) : Prop := Spaced ["find".toList, "entries".toList, "whose".toList] t

theorem run_findAll_eq_some {offset : Nat} {s : List Char} {o : Outcome Rule} :
    findAll.run offset s = some o ↔
      ∃ t r, s = t ++ r ∧ AllWords t ∧ o = ⟨t, [⟨.findAll, offset, t, []⟩], r⟩ := by
  constructor
  · intro h
    simp only [findAll, Pattern.all, run_node_eq_some, run_seq_eq_some, run_text_eq_some, run_ws_eq_some] at h
    obtain ⟨_, ⟨_, _, ⟨_, rfl, rfl⟩, ⟨_, _, ⟨g, _, hs₁, hne, hg, -, rfl⟩, ⟨_, _, ⟨_, hs₂, rfl⟩,
      ⟨_, _, ⟨g', _, hs₃, hne', hg', -, rfl⟩, ⟨r, hs₄, rfl⟩, rfl⟩, rfl⟩, rfl⟩, rfl⟩, rfl⟩ := h
    simp only at hs₁ hs₂ hs₃ hs₄
    subst hs₁ hs₂ hs₃ hs₄
    exact ⟨_, r, by simp, Spaced.more hne hg (Spaced.more hne' hg' (Spaced.last "entries".toList)), by simp⟩
  · rintro ⟨t, r, rfl, ht, rfl⟩
    simp only [AllWords, spaced_cons_cons, spaced_singleton] at ht
    obtain ⟨g₁, _, hne₁, hg₁, ⟨g₂, _, hne₂, hg₂, rfl, rfl⟩, rfl⟩ := ht
    simp only [List.append_assoc]
    have hwords := run_seq_ws (run_text_append "find" offset _) hne₁ hg₁ (stops_isGap_of_isWord (by decide) _)
      (run_seq_ws (run_text_append "all" _ _) hne₂ hg₂ (stops_isGap_of_isWord (by decide) _)
        (run_text_append "entries" _ r))
    exact run_node_eq_some.2 ⟨_, hwords, rfl⟩

/-- The body of a filter: what the steps over it take, at least one character. -/
theorem run_criteriaText_eq_some {offset : Nat} {s : List Char} {o : Outcome Rule} :
    criteriaText.run offset s = some o ↔
      ∃ one, Repeated bodyItem.run offset s one ∧ one.text ≠ [] ∧
        o = ⟨one.text, [⟨.criteriaText, offset, one.text, []⟩], one.rest⟩ := by
  have hstep : ∀ offset s one, bodyItem.run offset s = some one → one.text ≠ [] := by
    intro offset s one h
    rcases run_bodyItem_eq_some.1 h with ⟨q, r, -, -, rfl⟩ | ⟨c, r, -, -, -, rfl⟩ <;> simp
  rw [criteriaText, run_token_eq_some]
  refine exists_congr fun one => ?_
  rw [← and_assoc]
  refine and_congr_left fun _ => ?_
  rw [atLeastOne, run_seq_eq_some]
  constructor
  · rintro ⟨first, more, hfirst, hmore, rfl⟩
    exact ⟨Repeated.more hfirst (hstep _ _ _ hfirst) (run_many_eq_some.1 hmore), by simp [hstep _ _ _ hfirst]⟩
  · rintro ⟨h, hne⟩
    cases h with
    | stop _ => exact absurd rfl hne
    | more h _ hmore => exact ⟨_, _, h, run_many_eq_some.2 hmore, rfl⟩

theorem run_findWhose_eq_some {offset : Nat} {s : List Char} {o : Outcome Rule} :
    findWhose.run offset s = some o ↔
      ∃ t g b r o₁, s = t ++ (g ++ (b ++ r)) ∧ WhoseWords t ∧ g ≠ [] ∧ Over isGap g ∧ Stops isGap (b ++ r) ∧
        o₁ = offset + byteSize (t ++ g) ∧ criteriaText.run o₁ (b ++ r) = some ⟨b, [⟨.criteriaText, o₁, b, []⟩], r⟩ ∧
        o = ⟨t ++ (g ++ b), [⟨.findWhose, offset, t ++ (g ++ b), [⟨.criteriaText, o₁, b, []⟩]⟩], r⟩ := by
  constructor
  · intro h
    simp only [findWhose, Pattern.all, run_node_eq_some, run_seq_eq_some, run_text_eq_some, run_ws_eq_some] at h
    obtain ⟨_, ⟨_, _, ⟨_, rfl, rfl⟩, ⟨_, _, ⟨g₁, _, hs₁, hne₁, hg₁, -, rfl⟩, ⟨_, _, ⟨_, hs₂, rfl⟩,
      ⟨_, _, ⟨g₂, _, hs₃, hne₂, hg₂, -, rfl⟩, ⟨_, _, ⟨_, hs₄, rfl⟩,
        ⟨_, two, ⟨g, s₁, hs₅, hne, hg, hstops, rfl⟩, hbody, rfl⟩, rfl⟩, rfl⟩, rfl⟩, rfl⟩, rfl⟩, rfl⟩ := h
    simp only at hs₁ hs₂ hs₃ hs₄ hs₅ hbody
    subst hs₁ hs₂ hs₃ hs₄ hs₅
    have hsplit := run_splits hbody
    obtain ⟨one, hone, hnil, rfl⟩ := run_criteriaText_eq_some.1 hbody
    simp only at hsplit
    subst hsplit
    refine ⟨_, g, one.text, one.rest, _, by simp,
      Spaced.more hne₁ hg₁ (Spaced.more hne₂ hg₂ (Spaced.last "whose".toList)), hne, hg, hstops, rfl, ?_, ?_⟩
    · simpa [Nat.add_assoc] using hbody
    · simp [Nat.add_assoc]
  · rintro ⟨t, g, b, r, o₁, rfl, ht, hne, hg, hstops, rfl, hbody, rfl⟩
    simp only [WhoseWords, spaced_cons_cons, spaced_singleton] at ht
    obtain ⟨g₁, _, hne₁, hg₁, ⟨g₂, _, hne₂, hg₂, rfl, rfl⟩, rfl⟩ := ht
    simp only [List.append_assoc, byteSize_append, ← Nat.add_assoc] at hbody ⊢
    have hwords := run_seq_ws (run_text_append "find" offset _) hne₁ hg₁ (stops_isGap_of_isWord (by decide) _)
      (run_seq_ws (run_text_append "entries" _ _) hne₂ hg₂ (stops_isGap_of_isWord (by decide) _)
        (run_seq_ws (run_text_append "whose" _ _) hne hg hstops hbody))
    exact run_node_eq_some.2 ⟨_, hwords, rfl⟩

/-- A filter that selects every record, up to its semicolon. -/
def AllText (h : List Char) : Prop :=
  ∃ g t g', Over isGap g ∧ AllWords t ∧ Over isGap g' ∧ h = ',' :: (g ++ (t ++ g'))

/-- What stands before the body of a filter. -/
def WhoseText (h : List Char) : Prop :=
  ∃ g t g', Over isGap g ∧ WhoseWords t ∧ g' ≠ [] ∧ Over isGap g' ∧ h = ',' :: (g ++ (t ++ g'))

/-- The node of a filter clause that selects every record. -/
def IsAllNode (n : Node Rule) : Prop := ∃ body, n.inner = [body] ∧ body.rule = .findAll

/-- The node of a filter clause with a body. -/
def IsWhoseNode (b : List Char) (n : Node Rule) : Prop :=
  ∃ body t, n.inner = [body] ∧ body.rule = .findWhose ∧ body.inner = [t] ∧ t.text = b

/-- Behind the body of a filter stands a semicolon, or nothing. -/
theorem rest_of_repeated_bodyItem {offset : Nat} {s : List Char} {o : Outcome Rule}
    (h : Repeated bodyItem.run offset s o) : o.rest = [] ∨ ∃ r, o.rest = ';' :: r := by
  obtain ⟨offset', hstop⟩ := h.stops
  cases hrest : o.rest with
  | nil => exact Or.inl rfl
  | cons c r =>
    rw [hrest] at hstop
    by_cases hc : c = ';'
    · exact Or.inr ⟨r, by rw [hc]⟩
    · exfalso
      by_cases hmem : c = '"' ∧ '"' ∈ r
      · obtain ⟨rfl, hmem⟩ := hmem
        obtain ⟨q, x, rfl, hq⟩ := List.eq_append_cons_of_mem hmem
        have hnil := hstop _ (run_bodyItem_eq_some.2 (Or.inl ⟨q, x, rfl, hq, rfl⟩))
        cases hnil
      · have hlone : c = '"' → Unquoted r := fun hquote hin => hmem ⟨hquote, hin⟩
        have hnil := hstop _ (run_bodyItem_eq_some.2 (Or.inr ⟨c, r, rfl, hc, hlone, rfl⟩))
        cases hnil

/-- What a filter clause takes: a filter without criteria, or the words before a body, a body, and the semicolon. -/
theorem filterClause_cases {offset : Nat} {s : List Char} {o : Outcome Rule} (h : filterClause.run offset s = some o) :
    ∃ n, o.nodes = [n] ∧
      ((∃ h, AllText h ∧ s = h ++ ';' :: o.rest ∧ IsAllNode n) ∨
        ∃ h b o₁ one, WhoseText h ∧ s = h ++ (b ++ ';' :: o.rest) ∧ b ≠ [] ∧ Stops isGap b ∧
          Repeated bodyItem.run o₁ (b ++ ';' :: o.rest) one ∧ one.text = b ∧ IsWhoseNode b n) := by
  simp only [filterClause, Pattern.all, run_node_eq_some, run_seq_eq_some, run_text_eq_some, run_sp, run_choice_eq_some,
    run_findAll_eq_some, run_findWhose_eq_some, Option.some.injEq] at h
  obtain ⟨_, ⟨_, _, ⟨s, rfl, rfl⟩, ⟨_, _, rfl, ⟨_, _, hchoice, ⟨_, _, rfl, ⟨r, hend, rfl⟩, rfl⟩, rfl⟩, rfl⟩, rfl⟩,
    rfl⟩ := h
  refine ⟨_, rfl, ?_⟩
  have hs : s.takeWhile isGap ++ s.dropWhile isGap = s := List.takeWhile_append_dropWhile
  rcases hchoice with ⟨t, s', ht, hall, rfl⟩ | ⟨-, t, g, b, s', o₁, ht, hwhose, hne, hg, hstops, -, hbody, rfl⟩
  · simp only at ht hend ⊢
    have hs' : s'.takeWhile isGap ++ s'.dropWhile isGap = s' := List.takeWhile_append_dropWhile
    rw [ht] at hs
    rw [hend] at hs'
    refine Or.inl ⟨',' :: (s.takeWhile isGap ++ (t ++ s'.takeWhile isGap)),
      ⟨_, t, _, over_takeWhile s, hall, over_takeWhile s', rfl⟩, ?_, ⟨_, rfl, rfl⟩⟩
    calc ",".toList ++ s = ",".toList ++ (s.takeWhile isGap ++ (t ++ (s'.takeWhile isGap ++ (";".toList ++ r)))) := by
          rw [hs', hs]
      _ = _ := by simp
  · simp only at ht hend ⊢
    obtain ⟨one, hone, hne', heq⟩ := run_criteriaText_eq_some.1 hbody
    simp only [Outcome.mk.injEq] at heq
    obtain ⟨hb, -, hrest⟩ := heq
    -- the steps over the body leave no blanks before the semicolon
    have hs' : s' = ';' :: r := by
      rcases rest_of_repeated_bodyItem hone with hnil | ⟨x, hx⟩
      · rw [hrest, hnil] at hend
        cases hend
      · rw [hrest, hx, List.dropWhile_cons_of_neg (by decide)] at hend
        rw [hrest, hx, hend]
        rfl
    subst hs'
    rw [ht] at hs
    refine Or.inr ⟨',' :: (s.takeWhile isGap ++ (t ++ g)), b, o₁, one,
      ⟨_, t, g, over_takeWhile s, hwhose, hne, hg, rfl⟩, ?_, hb ▸ hne', ?_, hone, hb.symm, ⟨_, _, rfl, rfl, rfl, rfl⟩⟩
    · calc ",".toList ++ s = ",".toList ++ (s.takeWhile isGap ++ (t ++ (g ++ (b ++ ';' :: r)))) := by rw [hs]
        _ = _ := by simp
    · exact (stops_append (hb ▸ hne')).1 hstops

/-- The end of a filter clause: blanks that may stand there, and the semicolon. -/
theorem run_filterEnd {g : List Char} (hg : Over isGap g) (r : List Char) (offset : Nat) :
    (seq sp (text ";")).run offset (g ++ ';' :: r) = some ⟨g ++ [';'], [], r⟩ :=
  run_seq_eq_some.2 ⟨_, _, run_sp_append hg (stops_cons.2 (by decide)) _, run_text_append ";" _ r, rfl⟩

theorem run_filterClause_all {h : List Char} (hh : AllText h) (r : List Char) (offset : Nat) :
    ∃ n, filterClause.run offset (h ++ ';' :: r) = some ⟨h ++ [';'], [n], r⟩ ∧ IsAllNode n := by
  obtain ⟨g, t, g', hg, ht, hg', rfl⟩ := hh
  have hchoice : ∀ offset, (choice findAll findWhose).run offset (t ++ (g' ++ ';' :: r)) =
      some ⟨t, [⟨.findAll, offset, t, []⟩], g' ++ ';' :: r⟩ :=
    fun offset => run_choice_eq_some.2 (Or.inl (run_findAll_eq_some.2 ⟨t, _, rfl, ht, rfl⟩))
  have hrun := run_mark_sp "," hg (Spaced.stops_isGap ht (by decide) _)
    (run_seq_eq_some.2 ⟨_, _, hchoice (offset + byteSize ",".toList + byteSize g), run_filterEnd hg' r _, rfl⟩)
  have hclause : filterClause.run offset (",".toList ++ (g ++ (t ++ (g' ++ ';' :: r)))) = _ :=
    run_node_eq_some.2 ⟨_, hrun, rfl⟩
  have hs : ',' :: (g ++ (t ++ g')) ++ ';' :: r = ",".toList ++ (g ++ (t ++ (g' ++ ';' :: r))) := by simp
  have htext : ',' :: (g ++ (t ++ g')) ++ [';'] = ",".toList ++ (g ++ (t ++ (g' ++ [';']))) := by simp
  rw [hs, htext]
  exact ⟨_, hclause, ⟨_, rfl, rfl⟩⟩

/-- The words before a body are not those of a filter without criteria. -/
theorem not_allWords_of_whoseWords {t s t' s' : List Char} (ht : WhoseWords t) (ht' : AllWords t')
    (h : t ++ s = t' ++ s') : False := by
  obtain ⟨g, u, -, hg, hu, rfl⟩ := spaced_cons_cons.1 ht
  obtain ⟨g', u', -, hg', hu', rfl⟩ := spaced_cons_cons.1 ht'
  simp only [List.append_assoc, List.append_cancel_left_eq] at h
  obtain ⟨-, hwords⟩ := span_unique h hg (hu.stops_isGap (by decide) s) hg' (hu'.stops_isGap (by decide) s')
  obtain ⟨x, rfl⟩ := hu.exists_eq_append
  obtain ⟨x', rfl⟩ := hu'.exists_eq_append
  simp at hwords

theorem run_filterClause_whose {h b : List Char} (hh : WhoseText h) (hb : Balanced b) (hne : b ≠ [])
    (hstops : Stops isGap b) (r : List Char) (offset : Nat) :
    ∃ n, filterClause.run offset (h ++ (b ++ ';' :: r)) = some ⟨h ++ (b ++ [';']), [n], r⟩ ∧ IsWhoseNode b n := by
  obtain ⟨g, t, g', hg, ht, hne', hg', rfl⟩ := hh
  have hchoice : ∀ offset, ∃ o₁, (choice findAll findWhose).run offset (t ++ (g' ++ (b ++ ';' :: r))) =
      some ⟨t ++ (g' ++ b), [⟨.findWhose, offset, t ++ (g' ++ b), [⟨.criteriaText, o₁, b, []⟩]⟩], ';' :: r⟩ := by
    intro offset
    have hbody : ∀ o₁, criteriaText.run o₁ (b ++ ';' :: r) = some ⟨b, [⟨.criteriaText, o₁, b, []⟩], ';' :: r⟩ :=
      fun o₁ => run_criteriaText_eq_some.2 ⟨_, repeated_of_balanced hb r o₁, hne, rfl⟩
    refine ⟨_, run_choice_eq_some.2 (Or.inr ⟨?_, run_findWhose_eq_some.2
      ⟨t, g', b, _, _, rfl, ht, hne', hg', (stops_append hne).2 hstops, rfl, hbody _, rfl⟩⟩)⟩
    cases hrun : findAll.run offset (t ++ (g' ++ (b ++ ';' :: r))) with
    | none => rfl
    | some o =>
      obtain ⟨t', s', hs, hall, -⟩ := run_findAll_eq_some.1 hrun
      exact (not_allWords_of_whoseWords ht hall hs).elim
  obtain ⟨o₁, hwords⟩ := hchoice (offset + byteSize ",".toList + byteSize g)
  have hend := run_filterEnd over_nil r (offset + byteSize ",".toList + byteSize g + byteSize (t ++ (g' ++ b)))
  have hrun := run_mark_sp "," hg (Spaced.stops_isGap ht (by decide) _) (run_seq_eq_some.2 ⟨_, _, hwords, hend, rfl⟩)
  have hclause : filterClause.run offset (",".toList ++ (g ++ (t ++ (g' ++ (b ++ ';' :: r))))) = _ :=
    run_node_eq_some.2 ⟨_, hrun, rfl⟩
  have hs : ',' :: (g ++ (t ++ g')) ++ (b ++ ';' :: r) = ",".toList ++ (g ++ (t ++ (g' ++ (b ++ ';' :: r)))) := by
    simp
  have htext : ',' :: (g ++ (t ++ g')) ++ (b ++ [';']) = ",".toList ++ (g ++ (t ++ (g' ++ b) ++ [';'])) := by simp
  rw [hs, htext]
  exact ⟨_, hclause, ⟨_, _, rfl, rfl, rfl, rfl⟩⟩

end Grammar

end SentenceQuery
