import SentenceQuery.Proofs.Grammar.Words

/-!
# Keywords and names

A rule for words of a fixed list takes the first that stands there, if no further character of a word follows; where no word
of the list begins another, this is the word that stands there (`run_oneOf_eq_some`). A name is a word that is no keyword, and
the name of a column may have several words.
-/

namespace SentenceQuery

namespace Grammar

open Pattern

/-! ## Fixed lists of words -/

theorem run_firstOf_cons (p : Pattern Rule) (ps : List (Pattern Rule)) (offset : Nat) (s : List Char) :
    (firstOf (p :: ps)).run offset s = (p.run offset s).or ((firstOf ps).run offset s) := by
  cases ps with
  | nil => cases h : p.run offset s <;> simp [firstOf, run, dropLiteral?, h]
  | cons q qs => cases h : p.run offset s <;> simp [firstOf, run, h]

/-- Of several texts the first that stands there is taken. -/
theorem run_firstOf_text_eq_some {words : List String} {offset : Nat} {s : List Char} {o : Outcome Rule} :
    (firstOf (words.map text)).run offset s = some o ↔
      ∃ pre w post r, words = pre ++ w :: post ∧ (∀ v ∈ pre, ¬v.toList <+: s) ∧ s = w.toList ++ r ∧
        o = ⟨w.toList, [], r⟩ := by
  induction words with
  | nil => simp [firstOf, run, dropLiteral?]
  | cons v words ih =>
    rw [List.map_cons, run_firstOf_cons, Option.or_eq_some_iff, ih, run_text_eq_some]
    constructor
    · rintro (⟨r, rfl, rfl⟩ | ⟨hnone, pre, w, post, r, rfl, hpre, rfl, rfl⟩)
      · exact ⟨[], v, words, r, rfl, by simp, rfl, rfl⟩
      · refine ⟨v :: pre, w, post, r, rfl, ?_, rfl, rfl⟩
        intro u hu hprefix
        rcases List.mem_cons.1 hu with rfl | hu
        · obtain ⟨x, hx⟩ := hprefix
          have hsome : (text u : Pattern Rule).run offset (w.toList ++ r) = some ⟨u.toList, [], x⟩ :=
            run_text_eq_some.2 ⟨x, hx.symm, rfl⟩
          rw [hnone] at hsome
          cases hsome
        · exact hpre u hu hprefix
    · rintro ⟨pre, w, post, r, hwords, hpre, rfl, rfl⟩
      cases pre with
      | nil =>
        cases hwords
        exact Or.inl ⟨r, rfl, rfl⟩
      | cons u pre =>
        cases hwords
        refine Or.inr ⟨?_, pre, w, post, r, rfl, fun x hx => hpre x (List.mem_cons_of_mem _ hx), rfl, rfl⟩
        cases hrun : (text v : Pattern Rule).run offset (w.toList ++ r) with
        | none => rfl
        | some one =>
          obtain ⟨x, hx, -⟩ := run_text_eq_some.1 hrun
          exact absurd ⟨x, hx.symm⟩ (hpre v List.mem_cons_self)

/-- One of a list of phrases: the first that stands there, where no character of a word follows it. -/
theorem run_oneOf_eq_some_first {phrases : List String} {offset : Nat} {s : List Char} {o : Outcome Rule} :
    (oneOf phrases).run offset s = some o ↔
      ∃ pre w post r, phrases = pre ++ w :: post ∧ (∀ v ∈ pre, ¬v.toList <+: s) ∧ s = w.toList ++ r ∧
        Stops isWordChar r ∧ o = ⟨w.toList, [], r⟩ := by
  rw [oneOf, run_seq_eq_some]
  constructor
  · rintro ⟨one, two, h₁, h₂, rfl⟩
    obtain ⟨pre, w, post, r, hphrases, hpre, rfl, rfl⟩ := run_firstOf_text_eq_some.1 h₁
    obtain ⟨hr, rfl⟩ := run_absent_wordChar_eq_some.1 h₂
    exact ⟨pre, w, post, r, hphrases, hpre, rfl, hr, by simp⟩
  · rintro ⟨pre, w, post, r, hphrases, hpre, rfl, hr, rfl⟩
    exact ⟨_, _, run_firstOf_text_eq_some.2 ⟨pre, w, post, r, hphrases, hpre, rfl, rfl⟩,
      run_absent_wordChar_eq_some.2 ⟨hr, rfl⟩, by simp⟩

/-- Only the first phrase that stands somewhere is tried: where a word goes on behind it, no later one counts. -/
theorem run_oneOf_eq_none {pre post : List String} {w : String} {r : List Char}
    (hpre : ∀ v ∈ pre, ¬v.toList <+: w.toList ++ r) (hr : ¬Stops isWordChar r) (offset : Nat) :
    (oneOf (pre ++ w :: post)).run offset (w.toList ++ r) = none := by
  have hfirst : (firstOf ((pre ++ w :: post).map text)).run offset (w.toList ++ r) = some ⟨w.toList, [], r⟩ :=
    run_firstOf_text_eq_some.2 ⟨pre, w, post, r, rfl, hpre, rfl, rfl⟩
  cases hrun : (oneOf (pre ++ w :: post)).run offset (w.toList ++ r) with
  | none => rfl
  | some o =>
    obtain ⟨one, two, h₁, h₂, -⟩ := run_seq_eq_some.1 hrun
    rw [hfirst, Option.some.injEq] at h₁
    subst h₁
    exact absurd (run_absent_wordChar_eq_some.1 h₂).1 hr

/-- Of several phrases that stand somewhere the longest is taken, if longer ones come before their beginnings. -/
theorem run_oneOf_append {phrases : List String} (horder : phrases.Pairwise fun v w => ¬v.toList <+: w.toList)
    {w : String} (hw : w ∈ phrases) {r : List Char} (hr : Stops isWordChar r)
    (hlongest : ∀ v ∈ phrases, v.toList <+: w.toList ++ r → v.toList <+: w.toList) (offset : Nat) :
    (oneOf phrases).run offset (w.toList ++ r) = some ⟨w.toList, [], r⟩ := by
  obtain ⟨pre, post, rfl⟩ := List.append_of_mem hw
  refine run_oneOf_eq_some_first.2 ⟨pre, w, post, r, rfl, ?_, rfl, hr, rfl⟩
  intro v hv hprefix
  have hbegin := hlongest v (List.mem_append_left _ hv) hprefix
  exact (List.pairwise_append.1 horder).2.2 v hv w List.mem_cons_self hbegin

/-- No word of the list begins another one. -/
def IsVocabulary (words : List String) : Prop :=
  (words.Pairwise fun v w => ¬v.toList <+: w.toList) ∧ ∀ v ∈ words, ∀ w ∈ words, v.toList <+: w.toList → v = w

instance (words : List String) : Decidable (IsVocabulary words) :=
  inferInstanceAs (Decidable (List.Pairwise _ _ ∧ ∀ v ∈ words, ∀ w ∈ words, v.toList <+: w.toList → v = w))

instance (w : List Char) : Decidable (IsWord w) := inferInstanceAs (Decidable (w ≠ [] ∧ Over isWordChar w))

/-- One of a list of words of which none begins another: the one that stands there. -/
theorem run_oneOf_eq_some {words : List String} (hwords : IsVocabulary words) {offset : Nat} {s : List Char}
    {o : Outcome Rule} :
    (oneOf words).run offset s = some o ↔
      ∃ w ∈ words, ∃ r, s = w.toList ++ r ∧ Stops isWordChar r ∧ o = ⟨w.toList, [], r⟩ := by
  constructor
  · intro h
    obtain ⟨pre, w, post, r, rfl, -, rfl, hr, rfl⟩ := run_oneOf_eq_some_first.1 h
    exact ⟨w, by simp, r, rfl, hr, rfl⟩
  · rintro ⟨w, hw, r, rfl, hr, rfl⟩
    refine run_oneOf_append hwords.1 hw hr ?_ offset
    intro v hv hprefix
    -- of two words that stand in one place one begins the other
    rcases List.prefix_or_prefix_of_prefix hprefix (List.prefix_append w.toList r) with h | h
    · exact h
    · exact hwords.2 w hw v hv h ▸ List.prefix_refl _

theorem isVocabulary_keywords : IsVocabulary keywords := by decide

theorem isWord_of_mem_keywords {k : String} (h : k ∈ keywords) : IsWord k.toList := by
  revert k
  decide

theorem isVocabulary_aggregates : IsVocabulary (Aggregate.all.map Aggregate.name) := by decide

theorem isVocabulary_directions : IsVocabulary (Direction.all.map Direction.word) := by decide

/-! ## Names -/

/-- A word that is no keyword. -/
def IsName (w : List Char) : Prop := IsWord w ∧ String.ofList w ∉ keywords

instance (w : List Char) : Decidable (IsName w) := inferInstanceAs (Decidable (_ ∧ String.ofList w ∉ keywords))

/-- The beginning of a text is no keyword if its first word is a name. -/
theorem run_reserved_eq_none {w r : List Char} (hw : IsWord w) (hr : Stops isWordChar r) (offset : Nat) :
    reserved.run offset (w ++ r) = none ↔ String.ofList w ∉ keywords := by
  constructor
  · intro h hmem
    have hsome : reserved.run offset (w ++ r) = some ⟨w, [], r⟩ :=
      (run_oneOf_eq_some isVocabulary_keywords).2 ⟨String.ofList w, hmem, r, by simp, hr, by simp⟩
    rw [h] at hsome
    cases hsome
  · intro h
    cases hrun : reserved.run offset (w ++ r) with
    | none => rfl
    | some o =>
      obtain ⟨k, hk, r', hs, hr', -⟩ := (run_oneOf_eq_some isVocabulary_keywords).1 hrun
      obtain ⟨rfl, -⟩ := span_unique hs hw.2 hr (isWord_of_mem_keywords hk).2 hr'
      exact absurd (by simpa using hk) h

theorem run_ident_eq_some {offset : Nat} {s : List Char} {o : Outcome Rule} :
    ident.run offset s = some o ↔
      ∃ w r, s = w ++ r ∧ IsName w ∧ Stops isWordChar r ∧ o = ⟨w, [⟨.ident, offset, w, []⟩], r⟩ := by
  rw [ident, run_token_eq_some]
  simp only [run_seq_eq_some, run_absent_eq_some]
  constructor
  · rintro ⟨_, ⟨_, two, ⟨hres, rfl⟩, hword, rfl⟩, rfl⟩
    obtain ⟨w, r, rfl, hw, hr, rfl⟩ := run_word_eq_some.1 hword
    exact ⟨w, r, rfl, ⟨hw, (run_reserved_eq_none hw hr offset).1 hres⟩, hr, by simp⟩
  · rintro ⟨w, r, rfl, hw, hr, rfl⟩
    have hres : reserved.run offset (w ++ r) = none := (run_reserved_eq_none hw.1 hr offset).2 hw.2
    exact ⟨⟨w, [], r⟩, ⟨_, _, ⟨hres, rfl⟩, run_word_append hw.1 hr _, by simp⟩, by simp⟩

/-! ## Names of columns -/

/-- A further word of a column's name: a name with a capital letter at its start. -/
def IsFurtherName (w : List Char) : Prop := IsName w ∧ ∀ c ∈ w.head?, c.isUpper = true

instance (w : List Char) : Decidable (IsFurtherName w) :=
  @instDecidableAnd _ _ inferInstance (Option.decidableForallMem w.head?)

/-- Further words, each after a space. -/
def furtherText (ws : List (List Char)) : List Char := ws.flatMap (' ' :: ·)

/-- The text of a column's name: a name, and further ones that stand one space apart. -/
def FieldText (t : List Char) : Prop :=
  ∃ w ws, IsName w ∧ (∀ v ∈ ws, IsFurtherName v) ∧ t = w ++ furtherText ws

/-- No column's name goes on here: neither the last word nor, after a space, with a further one. -/
def FieldEnds (r : List Char) : Prop :=
  Stops isWordChar r ∧ ∀ w r', r = ' ' :: w ++ r' → IsFurtherName w → ¬Stops isWordChar r'

theorem run_fieldTail_eq_some {offset : Nat} {s : List Char} {o : Outcome Rule} :
    fieldTail.run offset s = some o ↔
      ∃ w r, s = ' ' :: w ++ r ∧ IsFurtherName w ∧ Stops isWordChar r ∧ o = ⟨' ' :: w, [], r⟩ := by
  simp only [fieldTail, Pattern.all, run_seq_eq_some, run_text_eq_some, run_absent_eq_some, run_present_eq_some,
    run_word_eq_some]
  constructor
  · rintro ⟨_, _, ⟨s, rfl, rfl⟩, ⟨_, _, ⟨hres, rfl⟩, ⟨_, _, ⟨⟨one, hone⟩, rfl⟩, ⟨w, r, hs, hw, hr, rfl⟩, rfl⟩, rfl⟩, rfl⟩
    obtain ⟨c, rest, hc, hupper, -⟩ := run_char_eq_some.1 hone
    simp only at hs hc hres
    subst hs
    refine ⟨w, r, by simp, ⟨⟨hw, (run_reserved_eq_none hw hr _).1 hres⟩, ?_⟩, hr, by simp⟩
    intro d hd
    cases w with
    | nil => cases hd
    | cons e w =>
      cases hc
      cases hd
      exact hupper
  · rintro ⟨w, r, rfl, ⟨hw, hupper⟩, hr, rfl⟩
    have hres : reserved.run (offset + byteSize " ".toList) (w ++ r) = none := (run_reserved_eq_none hw.1 hr _).2 hw.2
    refine ⟨_, _, ⟨w ++ r, by simp, rfl⟩, ⟨_, _, ⟨hres, rfl⟩, ⟨_, _, ⟨?_, rfl⟩, ⟨w, r, rfl, hw.1, hr, rfl⟩, rfl⟩, rfl⟩,
      by simp⟩
    cases w with
    | nil => exact absurd rfl hw.1.1
    | cons c w => exact ⟨⟨[c], [], w ++ r⟩, run_char_eq_some.2 ⟨c, w ++ r, rfl, hupper c rfl, rfl⟩⟩

theorem stops_furtherText_append {ws : List (List Char)} {r : List Char} (hr : Stops isWordChar r) :
    Stops isWordChar (furtherText ws ++ r) := by
  cases ws with
  | nil => exact hr
  | cons w ws => exact stops_cons.2 (by decide)

theorem repeated_fieldTail {offset : Nat} {s : List Char} {o : Outcome Rule} (hs : Stops isWordChar s) :
    Repeated fieldTail.run offset s o ↔
      ∃ ws r, s = furtherText ws ++ r ∧ (∀ w ∈ ws, IsFurtherName w) ∧ FieldEnds r ∧ o = ⟨furtherText ws, [], r⟩ := by
  constructor
  · intro h
    induction h with
    | @stop offset s h =>
      refine ⟨[], s, rfl, by simp, ⟨hs, fun w r hw hname hr => ?_⟩, rfl⟩
      have hnil := h _ (run_fieldTail_eq_some.2 ⟨w, r, hw, hname, hr, rfl⟩)
      cases hnil
    | more h _ _ ih =>
      obtain ⟨w, r, rfl, hname, hr, rfl⟩ := run_fieldTail_eq_some.1 h
      obtain ⟨ws, r', rfl, hws, hends, rfl⟩ := ih hr
      exact ⟨w :: ws, r', by simp [furtherText], by simpa using ⟨hname, hws⟩, hends, by simp [furtherText]⟩
  · rintro ⟨ws, r, rfl, hws, hends, rfl⟩
    clear hs
    induction ws generalizing offset with
    | nil =>
      refine Repeated.stop fun one h => ?_
      obtain ⟨w, r', hs, hname, hr, -⟩ := run_fieldTail_eq_some.1 h
      exact absurd hr (hends.2 w r' hs hname)
    | cons w ws ih =>
      obtain ⟨hw, hws⟩ := List.forall_mem_cons.1 hws
      have hstep : fieldTail.run offset (furtherText (w :: ws) ++ r) = some ⟨' ' :: w, [], furtherText ws ++ r⟩ :=
        run_fieldTail_eq_some.2
          ⟨w, furtherText ws ++ r, by simp [furtherText], hw, stops_furtherText_append hends.1, rfl⟩
      have hmore := Repeated.more hstep (by simp) (ih hws)
      simpa [furtherText] using hmore

/-- A column's name is read as far as it goes. -/
theorem run_field_eq_some {offset : Nat} {s : List Char} {o : Outcome Rule} :
    field.run offset s = some o ↔
      ∃ t r, s = t ++ r ∧ FieldText t ∧ FieldEnds r ∧ o = ⟨t, [⟨.field, offset, t, []⟩], r⟩ := by
  simp only [field, run_token_eq_some, Pattern.all, run_seq_eq_some, run_absent_eq_some, run_word_eq_some,
    run_many_eq_some]
  constructor
  · rintro ⟨_, ⟨_, _, ⟨hres, rfl⟩, ⟨_, _, ⟨w, r, rfl, hw, hr, rfl⟩, htail, rfl⟩, rfl⟩, rfl⟩
    obtain ⟨ws, r, rfl, hws, hends, rfl⟩ := (repeated_fieldTail hr).1 htail
    have hname : IsName w := ⟨hw, (run_reserved_eq_none hw hr _).1 hres⟩
    exact ⟨w ++ furtherText ws, r, by simp, ⟨w, ws, hname, hws, rfl⟩, hends, by simp⟩
  · rintro ⟨_, r, rfl, ⟨w, ws, hw, hws, rfl⟩, hends, rfl⟩
    have hr : Stops isWordChar (furtherText ws ++ r) := stops_furtherText_append hends.1
    have hres : reserved.run offset (w ++ (furtherText ws ++ r)) = none := (run_reserved_eq_none hw.1 hr _).2 hw.2
    have htail : Repeated fieldTail.run (offset + 0 + byteSize w) (furtherText ws ++ r) ⟨furtherText ws, [], r⟩ :=
      (repeated_fieldTail hr).2 ⟨ws, r, rfl, hws, hends, rfl⟩
    exact ⟨⟨w ++ furtherText ws, [], r⟩, ⟨_, _, ⟨by simpa using hres, rfl⟩,
      ⟨_, _, ⟨w, furtherText ws ++ r, by simp, hw.1, hr, rfl⟩, htail, rfl⟩, by simp⟩, rfl⟩

theorem run_field_append {t r : List Char} (ht : FieldText t) (hr : FieldEnds r) (offset : Nat) :
    field.run offset (t ++ r) = some ⟨t, [⟨.field, offset, t, []⟩], r⟩ :=
  run_field_eq_some.2 ⟨t, r, rfl, ht, hr, rfl⟩

end Grammar

end SentenceQuery
