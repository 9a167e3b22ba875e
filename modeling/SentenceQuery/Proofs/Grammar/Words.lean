import SentenceQuery.Grammar.Rule
import SentenceQuery.Proofs.Pattern.Run
import SentenceQuery.Proofs.Text.Span

/-!
# Blanks, words and names

What the rules for blanks, words, keywords and names take, each said exactly: the rule matches in this way and in no other. A
run of blanks and a word are as long as they can be. A keyword counts only as a whole word, so a name is a word that is not
one. A column's name goes on over single spaces as long as a further name with a capital letter follows (`FieldText`,
`FieldEnds`).
-/

namespace SentenceQuery

namespace Grammar

open Pattern

/-! ## Blanks -/

/-- A blank of the grammar: a space, a tab or a character of a line end. -/
def isGap (c : Char) : Bool := c = ' ' || c = '\t' || c = '\n' || c = '\r'

/-- A blank of the grammar is a blank. -/
theorem isBlank_of_isGap {c : Char} (h : isGap c = true) : isBlank c = true := by
  simp only [isGap, Bool.or_eq_true, decide_eq_true_eq] at h
  rcases h with ((rfl | rfl) | rfl) | rfl <;> decide

theorem not_isGap_of_not_isBlank {c : Char} (h : isBlank c = false) : isGap c = false :=
  Bool.eq_false_iff.2 fun hgap => by rw [isBlank_of_isGap hgap] at h; cases h

theorem over_isBlank_of_isGap {g : List Char} (h : Over isGap g) : Over isBlank g :=
  h.mono fun _ => isBlank_of_isGap

/-- One step over blanks: a line end of two characters is taken at once. -/
theorem run_blank_cons (offset : Nat) (c : Char) (s : List Char) :
    blank.run offset (c :: s) =
      if isGap c then
        if c = '\r' ∧ s.head? = some '\n' then some ⟨['\r', '\n'], [], s.tail⟩ else some ⟨[c], [], s⟩
      else none := by
  by_cases h₁ : ' ' = c
  · subst h₁
    simp [blank, firstOf, Pattern.text, run, dropLiteral?, isGap]
  by_cases h₂ : '\t' = c
  · subst h₂
    simp [blank, firstOf, Pattern.text, run, dropLiteral?, isGap]
  by_cases h₃ : '\n' = c
  · subst h₃
    simp [blank, firstOf, Pattern.text, run, dropLiteral?, isGap]
  by_cases h₄ : '\r' = c
  · subst h₄
    cases s with
    | nil => simp [blank, firstOf, Pattern.text, run, dropLiteral?, isGap]
    | cons d s =>
      by_cases hd : d = '\n'
      · simp [blank, firstOf, Pattern.text, run, dropLiteral?, isGap, hd]
      · simp [blank, firstOf, Pattern.text, run, dropLiteral?, isGap, hd, Ne.symm hd]
  · simp [blank, firstOf, Pattern.text, run, dropLiteral?, isGap, h₁, h₂, h₃, h₄, Ne.symm h₁, Ne.symm h₂, Ne.symm h₃,
      Ne.symm h₄]

theorem run_blank_of_stops {s : List Char} (h : Stops isGap s) (offset : Nat) : blank.run offset s = none := by
  cases s with
  | nil => simp [blank, firstOf, Pattern.text, run, dropLiteral?]
  | cons c s => simp [run_blank_cons, stops_cons.1 h]

/-- The steps over a run of blanks take all of it. -/
theorem repeated_blank (n offset : Nat) {g r : List Char} (hn : g.length ≤ n) (hg : Over isGap g) (hr : Stops isGap r) :
    Repeated blank.run offset (g ++ r) ⟨g, [], r⟩ := by
  induction n generalizing offset g with
  | zero =>
    obtain rfl : g = [] := List.length_eq_zero_iff.1 (by omega)
    exact Repeated.stop fun one h => by rw [List.nil_append, run_blank_of_stops hr] at h; cases h
  | succ n ih =>
    cases g with
    | nil => exact Repeated.stop fun one h => by rw [List.nil_append, run_blank_of_stops hr] at h; cases h
    | cons c g =>
      obtain ⟨hc, hg'⟩ := over_cons.1 hg
      by_cases hend : c = '\r' ∧ (g ++ r).head? = some '\n'
      · -- the second character of a line end is a blank, so it is not that of the rest
        obtain ⟨rfl, hhead⟩ := hend
        cases g with
        | nil => exact absurd (hr '\n' hhead) (by decide)
        | cons d g =>
          obtain rfl : d = '\n' := by simpa using hhead
          have hstep : blank.run offset ('\r' :: '\n' :: g ++ r) = some ⟨['\r', '\n'], [], g ++ r⟩ := by
            simp [run_blank_cons, hc]
          have hlen : g.length ≤ n := by simp only [List.length_cons] at hn; omega
          exact Repeated.more hstep (by simp) (ih _ hlen (over_cons.1 hg').2)
      · have hstep : blank.run offset (c :: g ++ r) = some ⟨[c], [], g ++ r⟩ := by
          rw [List.cons_append, run_blank_cons, if_pos hc, if_neg hend]
        have hlen : g.length ≤ n := by simp only [List.length_cons] at hn; omega
        exact Repeated.more hstep (by simp) (ih _ hlen hg')

theorem run_sp (offset : Nat) (s : List Char) :
    sp.run offset s = some ⟨s.takeWhile isGap, [], s.dropWhile isGap⟩ := by
  have hg : Over isGap (s.takeWhile isGap) := over_takeWhile s
  have h := repeated_blank _ offset (Nat.le_refl _) hg (stops_dropWhile s)
  rw [List.takeWhile_append_dropWhile] at h
  exact run_many_eq_some.2 h

/-- Optional blanks: all that stand there. -/
theorem run_sp_append {g r : List Char} (hg : Over isGap g) (hr : Stops isGap r) (offset : Nat) :
    sp.run offset (g ++ r) = some ⟨g, [], r⟩ := by
  rw [run_sp, takeWhile_append_of_stops hg hr, dropWhile_append_of_stops hg hr]

/-- Blanks that must be there: all that stand there, at least one. -/
theorem run_ws_eq_some {offset : Nat} {s : List Char} {o : Outcome Rule} :
    ws.run offset s = some o ↔
      ∃ g r, s = g ++ r ∧ g ≠ [] ∧ Over isGap g ∧ Stops isGap r ∧ o = ⟨g, [], r⟩ := by
  have hsp := run_sp offset s
  rw [ws, atLeastOne, run_seq_eq_some]
  constructor
  · rintro ⟨one, two, h₁, h₂, rfl⟩
    cases s with
    | nil => simp [run_blank_of_stops] at h₁
    | cons c s =>
      have hc : isGap c = true := by
        cases hc : isGap c with
        | true => rfl
        | false =>
          rw [run_blank_of_stops (stops_cons.2 hc)] at h₁
          cases h₁
      have hne : one.text ≠ [] := by
        rw [run_blank_cons, if_pos hc] at h₁
        split at h₁ <;> cases h₁ <;> simp
      have hsp' := run_many_eq_some.2 (Repeated.more h₁ hne (run_many_eq_some.1 h₂))
      rw [← sp, hsp, Option.some.injEq] at hsp'
      rw [← hsp']
      exact ⟨_, _, List.takeWhile_append_dropWhile.symm, by simp [hc], over_takeWhile _, stops_dropWhile _, rfl⟩
  · rintro ⟨g, r, rfl, hne, hg, hr, rfl⟩
    have h := repeated_blank _ offset (Nat.le_refl _) hg hr
    generalize ho : (⟨g, [], r⟩ : Outcome Rule) = o at h
    cases h with
    | stop => cases ho; exact absurd rfl hne
    | more h₁ _ h₂ => exact ⟨_, _, h₁, run_many_eq_some.2 h₂, rfl⟩

theorem run_ws_append {g r : List Char} (hne : g ≠ []) (hg : Over isGap g) (hr : Stops isGap r) (offset : Nat) :
    ws.run offset (g ++ r) = some ⟨g, [], r⟩ :=
  run_ws_eq_some.2 ⟨g, r, rfl, hne, hg, hr, rfl⟩

/-! ## Runs of one class, words -/

theorem repeated_char {accepts : Char → Bool} (offset : Nat) {t r : List Char} (ht : Over accepts t)
    (hr : Stops accepts r) : Repeated (char accepts : Pattern Rule).run offset (t ++ r) ⟨t, [], r⟩ := by
  induction t generalizing offset with
  | nil =>
    refine Repeated.stop fun one h => ?_
    obtain ⟨c, rest, hs, hc, rfl⟩ := run_char_eq_some.1 h
    rw [List.nil_append] at hs
    rw [hs, stops_cons, hc] at hr
    cases hr
  | cons c t ih =>
    obtain ⟨hc, ht⟩ := over_cons.1 ht
    have hstep : (char accepts : Pattern Rule).run offset (c :: t ++ r) = some ⟨[c], [], t ++ r⟩ := by
      simp [run, hc]
    exact Repeated.more hstep (by simp) (ih _ ht)

/-- At least one character of a class: all that stand there. -/
theorem run_atLeastOne_char_eq_some {accepts : Char → Bool} {offset : Nat} {s : List Char} {o : Outcome Rule} :
    (atLeastOne (char accepts)).run offset s = some o ↔
      ∃ t r, s = t ++ r ∧ t ≠ [] ∧ Over accepts t ∧ Stops accepts r ∧ o = ⟨t, [], r⟩ := by
  rw [atLeastOne, run_seq_eq_some]
  constructor
  · rintro ⟨one, two, h₁, h₂, rfl⟩
    obtain ⟨c, rest, rfl, hc, rfl⟩ := run_char_eq_some.1 h₁
    have hover : Over accepts (rest.takeWhile accepts) := over_takeWhile rest
    have hrest := repeated_char (offset + byteSize [c]) hover (stops_dropWhile rest)
    rw [List.takeWhile_append_dropWhile] at hrest
    rw [(run_many_eq_some.1 h₂).unique hrest]
    exact ⟨c :: rest.takeWhile accepts, rest.dropWhile accepts, by simp, by simp, by simp [hc, over_takeWhile],
      stops_dropWhile _, rfl⟩
  · rintro ⟨t, r, rfl, hne, ht, hr, rfl⟩
    cases t with
    | nil => exact absurd rfl hne
    | cons c t =>
      obtain ⟨hc, ht⟩ := over_cons.1 ht
      exact ⟨_, _, run_char_eq_some.2 ⟨c, t ++ r, rfl, hc, rfl⟩, run_many_eq_some.2 (repeated_char _ ht hr), rfl⟩

/-- The characters of words by their code points. -/
theorem isWordChar_iff {c : Char} : isWordChar c = true ↔
    (65 ≤ c.toNat ∧ c.toNat ≤ 90) ∨ (97 ≤ c.toNat ∧ c.toNat ≤ 122) ∨ (48 ≤ c.toNat ∧ c.toNat ≤ 57) ∨ c.toNat = 95 ∨
      c.toNat = 45 := by
  have hline : c = '_' ↔ c.toNat = 95 := by
    rw [← Char.toNat_inj]
    rfl
  have hdash : c = '-' ↔ c.toNat = 45 := by
    rw [← Char.toNat_inj]
    rfl
  unfold isWordChar Char.isAlphanum Char.isAlpha Char.isUpper Char.isLower Char.isDigit
  simp only [Bool.or_eq_true, Bool.and_eq_true, decide_eq_true_eq, UInt32.le_iff_toNat_le, ge_iff_le, Char.toNat_val,
    hline, hdash]
  simp only [or_assoc]
  rfl

/-- No blank is a character of a word. -/
theorem not_isBlank_of_isWordChar {c : Char} (h : isWordChar c = true) : isBlank c = false := by
  have hcode := isWordChar_iff.1 h
  cases hblank : isBlank c with
  | false => rfl
  | true =>
    simp only [isBlank, Bool.or_eq_true, Bool.and_eq_true, decide_eq_true_eq, beq_iff_eq] at hblank
    omega

theorem not_isWordChar_of_isBlank {c : Char} (h : isBlank c = true) : isWordChar c = false :=
  Bool.eq_false_iff.2 fun hword => by rw [not_isBlank_of_isWordChar hword] at h; cases h

theorem not_isGap_of_isWordChar {c : Char} (h : isWordChar c = true) : isGap c = false :=
  not_isGap_of_not_isBlank (not_isBlank_of_isWordChar h)

/-- A capital letter is a character of a word. -/
theorem isWordChar_of_isUpper {c : Char} (h : c.isUpper = true) : isWordChar c = true := by
  unfold isWordChar Char.isAlphanum Char.isAlpha
  simp [h]

theorem not_isUpper_of_not_isWordChar {c : Char} (h : isWordChar c = false) : c.isUpper = false :=
  Bool.eq_false_iff.2 fun hupper => by rw [isWordChar_of_isUpper hupper] at h; cases h

theorem isWordChar_of_isDigit {c : Char} (h : c.isDigit = true) : isWordChar c = true := by
  unfold isWordChar Char.isAlphanum
  simp [h]

/-- A word: letters, digits, `_` and `-`. -/
def IsWord (w : List Char) : Prop := w ≠ [] ∧ Over isWordChar w

theorem run_word_eq_some {offset : Nat} {s : List Char} {o : Outcome Rule} :
    word.run offset s = some o ↔ ∃ w r, s = w ++ r ∧ IsWord w ∧ Stops isWordChar r ∧ o = ⟨w, [], r⟩ := by
  simp only [IsWord, and_assoc]
  exact run_atLeastOne_char_eq_some

theorem run_word_append {w r : List Char} (hw : IsWord w) (hr : Stops isWordChar r) (offset : Nat) :
    word.run offset (w ++ r) = some ⟨w, [], r⟩ :=
  run_word_eq_some.2 ⟨w, r, rfl, hw, hr, rfl⟩

/-- No character of a word comes next. -/
theorem run_absent_wordChar_eq_some {offset : Nat} {s : List Char} {o : Outcome Rule} :
    (absent wordChar).run offset s = some o ↔ Stops isWordChar s ∧ o = ⟨[], [], s⟩ := by
  rw [run_absent_eq_some]
  refine and_congr_left fun _ => ?_
  cases s with
  | nil => simp [wordChar, run]
  | cons c s => simp [wordChar, run]

end Grammar

end SentenceQuery
