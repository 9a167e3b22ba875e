import SentenceQuery.Proofs.Sentence.Words
import SentenceQuery.Proofs.Text.Runs

/-!
# The words of a text by their places

A text is cut into words by reading it from the left. Said of its places alone, a word is a longest run of places at which no
blank stands outside quotes, and a place is outside quotes if an even number of quotes stand before it (`wordSpans_eq`).
-/

namespace SentenceQuery

/-- A blank stands at the place, outside quotes. A quote opens or closes quoting, and one that is left open reaches to the
end. -/
def Separates (s : List Char) (i : Nat) : Prop := (∃ c ∈ s[i]?, isBlank c = true) ∧ EvenQuotes (s.take i)

instance (s : List Char) (i : Nat) : Decidable (Separates s i) :=
  @instDecidableAnd _ _ (Option.decidableExistsMem s[i]?) inferInstance

/-- The places of the words of a text. -/
def wordSpans (s : List Char) : List Span := longestRuns (fun i => ¬Separates s i) s.length

/-- The words of a text. -/
def wordTexts (s : List Char) : List (List Char) := (wordSpans s).map fun word => word.slice s

/-! ## Where blanks separate -/

variable {s t u : List Char} {i : Nat}

theorem separates_append (hu : EvenQuotes u) : Separates (u ++ t) (u.length + i) ↔ Separates t i := by
  rw [Separates, Separates, List.getElem?_append_right (Nat.le_add_right _ _), Nat.add_sub_cancel_left,
    List.take_length_add_append, evenQuotes_append hu]

theorem separates_append_left (hi : i < u.length) : Separates (u ++ t) i ↔ Separates u i := by
  rw [Separates, Separates, List.getElem?_append_left hi, List.take_append_of_le_length (Nat.le_of_lt hi)]

theorem separates_of_over (hu : Over isBlank u) (hi : i < u.length) : Separates u i := by
  refine ⟨⟨u[i], List.getElem?_eq_getElem hi, hu _ (List.getElem_mem hi)⟩, Unquoted.evenQuotes fun hmem => ?_⟩
  exact unquoted_of_over_isBlank hu (List.mem_of_mem_take hmem)

theorem evenQuotes_concat (u : List Char) (c : Char) :
    EvenQuotes (u ++ [c]) ↔ if c = '"' then ¬EvenQuotes u else EvenQuotes u := by
  unfold EvenQuotes
  rw [List.count_append]
  split
  · rename_i h
    rw [h, List.count_singleton_self]
    omega
  · rename_i h
    rw [List.count_singleton, if_neg (by simpa using h)]
    omega

/-- Behind what stands before it, a word is read up to the first blank outside quotes. -/
theorem separates_readWord (s u : List Char) : ∀ quoted, (quoted = true ↔ ¬EvenQuotes u) →
    (∀ i < (readWord quoted s).1.length, ¬Separates (u ++ s) (u.length + i)) ∧
      ((readWord quoted s).2 ≠ [] → Separates (u ++ s) (u.length + (readWord quoted s).1.length)) := by
  induction s generalizing u with
  | nil =>
    intro quoted _
    exact ⟨fun i hi => absurd hi (Nat.not_lt_zero i), fun hne => absurd rfl hne⟩
  | cons c s ih =>
    intro quoted hquoted
    have hhere : Separates (u ++ c :: s) u.length ↔ (isBlank c && !quoted) = true := by
      cases quoted <;> simp_all [Separates]
    rw [readWord]
    split
    · rename_i h
      exact ⟨fun i hi => absurd hi (Nat.not_lt_zero i), fun _ => hhere.2 h⟩
    · rename_i h
      obtain ⟨hword, hrest⟩ := ih (u ++ [c]) (if c = '"' then !quoted else quoted) (by
        rw [evenQuotes_concat]
        split <;> cases quoted <;> simp_all)
      have hmove : ∀ i, u.length + (i + 1) = (u ++ [c]).length + i := by
        intro i
        rw [List.length_append, List.length_singleton]
        omega
      refine ⟨fun i hi => ?_, fun hne => ?_⟩
      · cases i with
        | zero => exact mt hhere.1 h
        | succ i =>
          rw [hmove, List.append_cons]
          exact hword i (Nat.lt_of_succ_lt_succ hi)
      · rw [List.length_cons, hmove, List.append_cons]
        exact hrest hne

/-! ## The places of words -/

/-- The places of words that stand one behind the other from a place on. -/
def placesFrom : Nat → List SpacedWord → List Span
  | _, [] => []
  | d, w :: ws =>
    ⟨d + w.gap.length, d + w.gap.length + w.text.length⟩ :: placesFrom (d + w.gap.length + w.text.length) ws

theorem placesFrom_shift (d e : Nat) (ws : List SpacedWord) :
    (placesFrom e ws).map (Span.shift d) = placesFrom (d + e) ws := by
  induction ws generalizing e with
  | nil => rfl
  | cons w ws ih => simp only [placesFrom, List.map_cons, Span.shift_mk, ih, Nat.add_assoc]

@[simp] theorem length_placesFrom (d : Nat) (ws : List SpacedWord) : (placesFrom d ws).length = ws.length := by
  induction ws generalizing d with
  | nil => rfl
  | cons w ws ih => rw [placesFrom, List.length_cons, List.length_cons, ih]

theorem placesFrom_append (d : Nat) (ws ws' : List SpacedWord) :
    placesFrom d (ws ++ ws') = placesFrom d ws ++ placesFrom (d + (wordsText ws).length) ws' := by
  induction ws generalizing d with
  | nil => rfl
  | cons w ws ih =>
    simp only [List.cons_append, placesFrom, ih, wordsText_cons, List.length_append, Nat.add_assoc]

/-- Blanks in front only move the words. -/
theorem wordSpans_blank_append (hu : Over isBlank u) (t : List Char) :
    wordSpans (u ++ t) = (wordSpans t).map (Span.shift u.length) := by
  have hblank : ∀ i < u.length, ¬¬Separates (u ++ t) i := by
    intro i hi
    exact not_not.2 ((separates_append_left hi).2 (separates_of_over hu hi))
  have hedge : u.length = 0 ∨ t.length = 0 ∨ ¬¬Separates (u ++ t) (u.length - 1) ∨ ¬¬Separates (u ++ t) u.length := by
    rcases Nat.eq_zero_or_pos u.length with hzero | hpos
    · exact Or.inl hzero
    · exact Or.inr (Or.inr (Or.inl (hblank _ (by omega))))
  have hrest : longestRuns (fun i => ¬Separates (u ++ t) (u.length + i)) t.length = wordSpans t :=
    longestRuns_congr fun i _ => not_congr (separates_append (unquoted_of_over_isBlank hu).evenQuotes)
  rw [wordSpans, List.length_append, longestRuns_append hedge, longestRuns_eq_nil hblank, List.nil_append, hrest]

/-- A word that is read is the first longest run. -/
theorem wordSpans_word_append {w r : List Char} (hne : w ≠ []) (hw : ∀ i < w.length, ¬Separates (w ++ r) i)
    (hr : r ≠ [] → Separates (w ++ r) w.length) :
    wordSpans (w ++ r) = ⟨0, w.length⟩ :: (wordSpans r).map (Span.shift w.length) := by
  have hedge : w.length = 0 ∨ r.length = 0 ∨ ¬¬Separates (w ++ r) (w.length - 1) ∨ ¬¬Separates (w ++ r) w.length := by
    cases r with
    | nil => exact Or.inr (Or.inl rfl)
    | cons c r => exact Or.inr (Or.inr (Or.inr (not_not.2 (hr (by simp)))))
  have hrest : longestRuns (fun i => ¬Separates (w ++ r) (w.length + i)) r.length = wordSpans r := by
    refine longestRuns_congr fun i hi => not_congr (separates_append ?_)
    have heven := (hr (List.ne_nil_of_length_pos (by omega))).2
    rwa [List.take_left] at heven
  rw [wordSpans, List.length_append, longestRuns_append hedge, longestRuns_of_forall (List.length_pos_iff.2 hne) hw, hrest]
  rfl

/-- The words that a text is cut into are its longest runs of places at which no blank stands outside quotes. -/
theorem wordSpans_eq (s : List Char) : wordSpans s = placesFrom 0 (spacedWords s) := by
  fun_induction spacedWords s with
  | case1 s h =>
    have hsplit : s.takeWhile isBlank ++ s.dropWhile isBlank = s := List.takeWhile_append_dropWhile
    have hover : Over isBlank (s.takeWhile isBlank) := over_takeWhile s
    rw [h, List.append_nil] at hsplit
    rw [hsplit] at hover
    exact longestRuns_eq_nil fun i hi => not_not.2 (separates_of_over hover hi)
  | case2 s c rest h split ih =>
    have hsplit : s.takeWhile isBlank ++ s.dropWhile isBlank = s := List.takeWhile_append_dropWhile
    have hover : Over isBlank (s.takeWhile isBlank) := over_takeWhile s
    have hblank : isBlank c = false := by
      have hstops : Stops isBlank (s.dropWhile isBlank) := stops_dropWhile s
      rw [h] at hstops
      exact stops_cons.1 hstops
    have hword : split.1 ++ split.2 = c :: rest := readWord_append false (c :: rest)
    have hne : split.1 ≠ [] := by
      have hfirst : split.1 = c :: (readWord (if c = '"' then !false else false) rest).1 := by
        simp [split, readWord, hblank]
      simp [hfirst]
    obtain ⟨hinside, hbehind⟩ := separates_readWord (c :: rest) [] false (by decide)
    simp only [List.nil_append, List.length_nil, Nat.zero_add] at hinside hbehind
    have hspans := wordSpans_word_append (r := split.2) hne (by rw [hword]; exact hinside) (by rw [hword]; exact hbehind)
    calc wordSpans s = wordSpans (s.takeWhile isBlank ++ (split.1 ++ split.2)) := by rw [hword, ← h, hsplit]
      _ = _ := by
        rw [wordSpans_blank_append hover, hspans, ih, placesFrom_shift, List.map_cons, placesFrom_shift]
        simp [placesFrom]

/-! ## The texts of words -/

theorem slice_placesFrom (ws : List SpacedWord) (u v : List Char) :
    (placesFrom u.length ws).map (fun word => word.slice (u ++ (wordsText ws ++ v))) = ws.map SpacedWord.text := by
  induction ws generalizing u with
  | nil => rfl
  | cons w ws ih =>
    have hfirst := Span.slice_append (u ++ w.gap) w.text (wordsText ws ++ v)
    have hrest := ih (u ++ (w.gap ++ w.text))
    simp only [List.append_assoc, List.length_append] at hfirst hrest
    simp only [placesFrom, List.map_cons, wordsText_cons, List.append_assoc, Nat.add_assoc]
    rw [← hrest]
    simp only [← Nat.add_assoc] at hfirst ⊢
    rw [hfirst]

/-- The words by their places are those that the text is cut into. -/
theorem wordTexts_eq (s : List Char) : wordTexts s = (spacedWords s).map SpacedWord.text := by
  obtain ⟨v, -, hs⟩ := exists_wordsText_spacedWords s
  have hslice := slice_placesFrom (spacedWords s) [] v
  rw [List.nil_append, ← hs] at hslice
  rw [wordTexts, wordSpans_eq]
  exact hslice

end SentenceQuery
