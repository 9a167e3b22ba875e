import SentenceQuery.Proofs.Text.Quoting
import SentenceQuery.Sentence.Criteria

/-!
# The words of a filter

A word is solid: no blank stands outside its quotes, and every quote is closed. A text of solid words with blanks between
them is cut into these words (`spacedWords_wordsText`), and what a text is cut into makes up the text
(`exists_wordsText_spacedWords`). So a quoted part lies within one word, whatever it holds (`exists_word_of_quoted`).
-/

namespace SentenceQuery

/-- No blank stands outside quotes, and every quote is closed. -/
abbrev Solid (t : List Char) : Prop := Closed (fun c => !isBlank c) t

/-- A word ends here: with the text, or before a blank. -/
abbrev WordEnds (r : List Char) : Prop := Stops (fun c => !isBlank c) r

/-! ## One word -/

theorem readWord_of_wordEnds {r : List Char} (h : WordEnds r) : readWord false r = ([], r) := by
  cases r with
  | nil => rfl
  | cons c r =>
    have hc : isBlank c = true := by simpa using stops_cons.1 h
    simp [readWord, hc]

theorem readWord_quoted {q : List Char} (hq : Unquoted q) (s : List Char) :
    readWord true (q ++ '"' :: s) = (q ++ '"' :: (readWord false s).1, (readWord false s).2) := by
  induction q with
  | nil => simp [readWord]
  | cons c q ih =>
    simp only [Unquoted, List.mem_cons, not_or] at hq
    simp [readWord, Ne.symm hq.1, ih hq.2]

/-- A solid text is read on over. -/
theorem readWord_solid {t : List Char} (h : Solid t) (s : List Char) :
    readWord false (t ++ s) = (t ++ (readWord false s).1, (readWord false s).2) := by
  induction h with
  | nil => rfl
  | char hquote hc _ ih => simp_all [readWord]
  | @quoted q t hq _ ih =>
    have hblank : isBlank '"' = false := by decide
    have hquoted := readWord_quoted hq (t ++ s)
    simp only [List.cons_append, List.append_assoc, readWord, hblank, Bool.false_and, Bool.false_eq_true, if_false, if_true,
      Bool.not_false, hquoted, ih]

/-- Behind a word that was read a word ends. -/
theorem wordEnds_readWord (quoted : Bool) (s : List Char) : WordEnds (readWord quoted s).2 := by
  induction s generalizing quoted with
  | nil => exact stops_nil
  | cons c s ih =>
    rw [readWord]
    split
    · rename_i h
      simp only [Bool.and_eq_true] at h
      exact stops_cons.2 (by simp [h.1])
    · exact ih _

/-- A word that was read is solid, or a quote was left open and the word reaches to the end. If a quote is open before it, the
same holds behind the next quote. -/
theorem closed_readWord (s : List Char) :
    (Solid (readWord false s).1 ∨ ¬EvenQuotes (readWord false s).1 ∧ (readWord false s).2 = []) ∧
      ((∃ q t, (readWord true s).1 = q ++ '"' :: t ∧ Unquoted q ∧ Solid t) ∨
        ¬EvenQuotes ('"' :: (readWord true s).1) ∧ (readWord true s).2 = []) := by
  induction s with
  | nil => exact ⟨Or.inl Closed.nil, Or.inr ⟨by decide, rfl⟩⟩
  | cons c s ih =>
    obtain ⟨hclosed, hopen⟩ := ih
    by_cases hquote : c = '"'
    · subst hquote
      have hblank : isBlank '"' = false := by decide
      simp only [readWord, hblank, Bool.false_and, Bool.false_eq_true, if_false, if_true, Bool.not_false, Bool.not_true]
      constructor
      · rcases hopen with ⟨q, t, hword, hq, ht⟩ | hend
        · rw [hword]
          exact Or.inl (Closed.quoted hq ht)
        · exact Or.inr hend
      · rcases hclosed with hsolid | ⟨hodd, hend⟩
        · exact Or.inl ⟨[], _, rfl, List.not_mem_nil, hsolid⟩
        · exact Or.inr ⟨fun h => hodd ((evenQuotes_quoted List.not_mem_nil).1 h), hend⟩
    · simp only [readWord, hquote, if_false, Bool.not_true, Bool.and_false, Bool.false_eq_true, Bool.not_false, Bool.and_true]
      constructor
      · split
        · exact Or.inl Closed.nil
        · rename_i hblank
          have hc : isBlank c = false := by simpa using hblank
          rcases hclosed with hsolid | ⟨hodd, hend⟩
          · exact Or.inl (Closed.char hquote (by simp [hc]) hsolid)
          · exact Or.inr ⟨fun h => hodd ((evenQuotes_cons hquote).1 h), hend⟩
      · rcases hopen with ⟨q, t, hword, hq, ht⟩ | ⟨hodd, hend⟩
        · refine Or.inl ⟨c :: q, t, by rw [hword]; rfl, ?_, ht⟩
          simp only [Unquoted, List.mem_cons, not_or]
          exact ⟨Ne.symm hquote, hq⟩
        · refine Or.inr ⟨fun h => hodd ?_, hend⟩
          simpa [EvenQuotes, List.count_cons, hquote] using h

/-! ## All words -/

/-- The text of words with the blanks before them. -/
def wordsText (ws : List SpacedWord) : List Char := ws.flatMap fun w => w.gap ++ w.text

@[simp] theorem wordsText_nil : wordsText [] = [] := rfl

@[simp] theorem wordsText_cons (w : SpacedWord) (ws : List SpacedWord) :
    wordsText (w :: ws) = w.gap ++ (w.text ++ wordsText ws) := by
  simp [wordsText]

@[simp] theorem wordsText_append (ws ws' : List SpacedWord) : wordsText (ws ++ ws') = wordsText ws ++ wordsText ws' := by
  simp [wordsText]

/-- Blanks and a solid word. -/
structure SpacedWord.IsSolid (w : SpacedWord) : Prop where
  gap : Over isBlank w.gap
  text : Solid w.text
  ne_nil : w.text ≠ []

/-- Blanks stand before every word but the first. -/
def Apart (ws : List SpacedWord) : Prop := ∀ w ∈ ws.tail, w.gap ≠ []

theorem Apart.append {ws ws' : List SpacedWord} (h : Apart ws) (h' : ∀ w ∈ ws', w.gap ≠ []) : Apart (ws ++ ws') := by
  intro w hw
  cases ws with
  | nil => exact h' w (List.mem_of_mem_tail hw)
  | cons v ws =>
    rcases List.mem_append.1 hw with hw | hw
    · exact h w hw
    · exact h' w hw

/-- If blanks stand before the first word too, they stand before every word. -/
theorem Apart.gap_ne_nil {ws : List SpacedWord} (h : Apart ws) (hfirst : ∀ w ∈ ws.head?, w.gap ≠ []) :
    ∀ w ∈ ws, w.gap ≠ [] := by
  intro w hw
  cases ws with
  | nil => cases hw
  | cons v ws =>
    rcases List.mem_cons.1 hw with rfl | hw
    · exact hfirst w rfl
    · exact h w hw

/-- A solid word does not start with a blank. -/
theorem stops_isBlank_of_solid {t : List Char} (h : Solid t) (hne : t ≠ []) (s : List Char) :
    Stops isBlank (t ++ s) := by
  cases h with
  | nil => exact absurd rfl hne
  | char _ hc _ => exact stops_cons.2 (by simpa using hc)
  | quoted _ _ => exact stops_cons.2 (by decide)

/-- The first word of a text is a solid word behind blanks, if a word ends behind it. -/
theorem spacedWords_append {g t r : List Char} (hg : Over isBlank g) (ht : Solid t) (hne : t ≠ []) (hr : WordEnds r) :
    spacedWords (g ++ (t ++ r)) = ⟨g, t⟩ :: spacedWords r := by
  have hstops := stops_isBlank_of_solid ht hne r
  have htake : (g ++ (t ++ r)).takeWhile isBlank = g := takeWhile_append_of_stops hg hstops
  have hdrop : (g ++ (t ++ r)).dropWhile isBlank = t ++ r := dropWhile_append_of_stops hg hstops
  have hread : readWord false (t ++ r) = (t, r) := by
    rw [readWord_solid ht, readWord_of_wordEnds hr, List.append_nil]
  rw [spacedWords, htake]
  split
  · rename_i h
    rw [hdrop, List.append_eq_nil_iff] at h
    exact absurd h.1 hne
  · rename_i c rest h
    rw [hdrop] at h
    rw [← h, hread]

theorem spacedWords_blank {u : List Char} (hu : Over isBlank u) : spacedWords u = [] := by
  have hdrop : u.dropWhile isBlank = [] := by
    have h := dropWhile_append_of_stops hu stops_nil
    rwa [List.append_nil] at h
  rw [spacedWords]
  split
  · rfl
  · rename_i h
    rw [hdrop] at h
    cases h

/-- A text of solid words with blanks between them is cut into these words. -/
theorem spacedWords_wordsText {ws : List SpacedWord} (hws : ∀ w ∈ ws, w.IsSolid) (hapart : Apart ws) {u : List Char}
    (hu : Over isBlank u) : spacedWords (wordsText ws ++ u) = ws := by
  induction ws with
  | nil => exact spacedWords_blank hu
  | cons w ws ih =>
    obtain ⟨hw, hws⟩ := List.forall_mem_cons.1 hws
    have hends : WordEnds (wordsText ws ++ u) := by
      cases ws with
      | nil =>
        intro c hc
        simp [hu c (List.mem_of_mem_head? hc)]
      | cons v ws =>
        have hgap : v.gap ≠ [] := hapart v List.mem_cons_self
        rw [wordsText_cons, List.append_assoc]
        refine (stops_append hgap).2 fun c hc => ?_
        have hblank := (List.forall_mem_cons.1 hws).1.gap c (List.mem_of_mem_head? hc)
        simp [hblank]
    have hapart' : Apart ws := fun v hv => hapart v (List.mem_of_mem_tail hv)
    rw [wordsText_cons, List.append_assoc, List.append_assoc, spacedWords_append hw.gap hw.text hw.ne_nil hends,
      ih hws hapart']

/-- Where a word ends, blanks stand before the next one. -/
theorem gap_ne_nil_of_wordEnds {s : List Char} (hs : WordEnds s) : ∀ w ∈ (spacedWords s).head?, w.gap ≠ [] := by
  intro w hw
  cases s with
  | nil =>
    rw [spacedWords_blank over_nil] at hw
    cases hw
  | cons c s =>
    have hc : isBlank c = true := by simpa using stops_cons.1 hs
    rw [spacedWords] at hw
    split at hw
    · cases hw
    · cases hw
      simp [hc]

/-- Blanks stand between the words of a text. -/
theorem apart_spacedWords (s : List Char) : Apart (spacedWords s) := by
  fun_induction spacedWords s with
  | case1 s h => simp [Apart]
  | case2 s c rest h split ih => exact ih.gap_ne_nil (gap_ne_nil_of_wordEnds (wordEnds_readWord false (c :: rest)))

theorem over_gap_spacedWords (s : List Char) : ∀ w ∈ spacedWords s, Over isBlank w.gap := by
  fun_induction spacedWords s with
  | case1 s h => simp
  | case2 s c rest h split ih => exact List.forall_mem_cons.2 ⟨over_takeWhile s, ih⟩

/-- What a text is cut into makes up the text, but for blanks behind the last word. -/
theorem exists_wordsText_spacedWords (s : List Char) : ∃ u, Over isBlank u ∧ s = wordsText (spacedWords s) ++ u := by
  fun_induction spacedWords s with
  | case1 s h =>
    have hsplit : s.takeWhile isBlank ++ s.dropWhile isBlank = s := List.takeWhile_append_dropWhile
    rw [h, List.append_nil] at hsplit
    have hover : Over isBlank (s.takeWhile isBlank) := over_takeWhile s
    rw [hsplit] at hover
    exact ⟨s, hover, rfl⟩
  | case2 s c rest h split ih =>
    obtain ⟨u, hu, hrest⟩ := ih
    have hsplit : s.takeWhile isBlank ++ s.dropWhile isBlank = s := List.takeWhile_append_dropWhile
    have hword : split.1 ++ split.2 = c :: rest := readWord_append false (c :: rest)
    refine ⟨u, hu, ?_⟩
    calc s = s.takeWhile isBlank ++ (split.1 ++ split.2) := by rw [hword, ← h, hsplit]
      _ = _ := by rw [wordsText_cons, List.append_assoc, List.append_assoc, ← hrest]

/-- Blanks have no quote. -/
theorem unquoted_of_over_isBlank {g : List Char} (h : Over isBlank g) : Unquoted g := by
  intro hmem
  have hblank := h _ hmem
  exact absurd hblank (by decide)

/-- The words of a text are solid, if its quotes are even in number. -/
theorem isSolid_of_mem_spacedWords {s : List Char} (h : EvenQuotes s) {w : SpacedWord} (hw : w ∈ spacedWords s) :
    w.IsSolid := by
  fun_induction spacedWords s with
  | case1 s _ => cases hw
  | case2 s c rest hdrop split ih =>
    have hover : Over isBlank (s.takeWhile isBlank) := over_takeWhile s
    have hblank : isBlank c = false := by
      have hstops : Stops isBlank (s.dropWhile isBlank) := stops_dropWhile s
      rw [hdrop] at hstops
      exact stops_cons.1 hstops
    have hword : split.1 ++ split.2 = c :: rest := readWord_append false (c :: rest)
    have heven : EvenQuotes (split.1 ++ split.2) := by
      have hsplit : s.takeWhile isBlank ++ s.dropWhile isBlank = s := List.takeWhile_append_dropWhile
      rw [← hsplit, hdrop, evenQuotes_append (unquoted_of_over_isBlank hover).evenQuotes] at h
      rw [hword]
      exact h
    have hsolid : Solid split.1 := by
      rcases (closed_readWord (c :: rest)).1 with hsolid | ⟨hodd, hend⟩
      · exact hsolid
      · have hend' : split.2 = [] := hend
        rw [hend', List.append_nil] at heven
        exact absurd heven hodd
    rcases List.mem_cons.1 hw with rfl | hw
    · refine ⟨hover, hsolid, ?_⟩
      intro hnil
      have hfirst : (readWord false (c :: rest)).1 = [] := hnil
      rw [readWord] at hfirst
      simp [hblank] at hfirst
    · exact ih ((evenQuotes_append hsolid.evenQuotes).1 heven) hw

end SentenceQuery
