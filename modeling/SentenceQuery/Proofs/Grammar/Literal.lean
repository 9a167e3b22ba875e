import SentenceQuery.Proofs.Grammar.FilterBody

/-!
# Literals

A literal reaches to the end of the text of its criterion, and its form says whether it is a number, a text in quotes, or
neither. Numbers and texts in quotes are read exactly where they are written so (`run_number_eq_some`, `run_string_eq_some`).
-/

namespace SentenceQuery

/-- A decimal number as it is written: a sign, digits, and perhaps a point with further digits. -/
structure Numeral where
  negative : Bool
  whole : List Char
  fraction : Option (List Char)
deriving DecidableEq

namespace Numeral

/-- The sign in front. -/
def signText (n : Numeral) : List Char := if n.negative then ['-'] else []

/-- The point and the digits behind it. -/
def fractionText (n : Numeral) : List Char :=
  match n.fraction with
  | none => []
  | some f => '.' :: f

/-- The numeral as a text. -/
def text (n : Numeral) : List Char := n.signText ++ (n.whole ++ n.fractionText)

/-- There are digits before the point, and behind it if there is one. -/
def WellFormed (n : Numeral) : Prop :=
  n.whole ≠ [] ∧ Over Char.isDigit n.whole ∧ ∀ f ∈ n.fraction, f ≠ [] ∧ Over Char.isDigit f

/-- The number that a numeral stands for: the nearest to its digits. -/
def value (n : Numeral) : Binary64 := .ofDecimal n.negative (.ofDigits n.whole (n.fraction.getD []) 0)

theorem stops_fractionText (n : Numeral) : Stops Char.isDigit n.fractionText := by
  unfold fractionText
  split
  · exact stops_nil
  · exact stops_cons.2 (by decide)

end Numeral

namespace Grammar

open Pattern

/-! ## Numbers -/

theorem run_atEnd_eq_some {offset : Nat} {s : List Char} {o : Outcome Rule} :
    atEnd.run offset s = some o ↔ s = [] ∧ o = ⟨[], [], []⟩ := by
  rw [atEnd, run_absent_eq_some]
  cases s with
  | nil => simp [anyChar, run]
  | cons c s => simp [anyChar, run]

/-- A text that does not start with a mark is left as it is where the mark is optional. -/
theorem run_optional_of_ne (mark : String) {k : Char} (hmark : mark.toList = [k]) (p : Pattern Rule) {s : List Char}
    (hs : ∀ r, s ≠ k :: r) (offset : Nat) :
    (optional (seq (text mark) p)).run offset s = some ⟨[], [], s⟩ := by
  refine run_optional_eq_some.2 (Or.inr ⟨?_, rfl⟩)
  cases h : (seq (text mark) p).run offset s with
  | none => rfl
  | some o =>
    obtain ⟨one, two, hone, -, -⟩ := run_seq_eq_some.1 h
    obtain ⟨r, hr, -⟩ := run_text_eq_some.1 hone
    rw [hmark] at hr
    exact absurd hr (hs r)

theorem run_sign (n : Numeral) (hn : n.WellFormed) (offset : Nat) :
    (optional (text "-") : Pattern Rule).run offset n.text = some ⟨n.signText, [], n.whole ++ n.fractionText⟩ := by
  refine run_optional_eq_some.2 ?_
  unfold Numeral.text Numeral.signText
  cases n.negative with
  | true => exact Or.inl (run_text_append "-" offset _)
  | false =>
    refine Or.inr ⟨?_, rfl⟩
    cases h : (text "-" : Pattern Rule).run offset (n.whole ++ n.fractionText) with
    | none => simpa using h
    | some o =>
      obtain ⟨r, hr, -⟩ := run_text_eq_some.1 h
      cases hwhole : n.whole with
      | nil => exact absurd hwhole hn.1
      | cons c w =>
        rw [hwhole] at hr
        obtain ⟨rfl, -⟩ := List.cons.inj hr
        exact absurd (hn.2.1 '-' (by rw [hwhole]; exact List.mem_cons_self)) (by decide)

theorem run_fraction (n : Numeral) (hn : n.WellFormed) (offset : Nat) :
    (optional (seq (text ".") digits)).run offset n.fractionText = some ⟨n.fractionText, [], []⟩ := by
  unfold Numeral.fractionText
  split
  · exact run_optional_of_ne "." rfl digits (by simp) offset
  · rename_i f hf
    obtain ⟨hne, hdigits⟩ := hn.2.2 f hf
    have hrun := run_seq_eq_some.2 ⟨_, _, run_text_append "." offset f,
      run_atLeastOne_char_eq_some.2 ⟨f, [], by simp, hne, hdigits, stops_nil, rfl⟩, rfl⟩
    exact run_optional_eq_some.2 (Or.inl hrun)

/-- A number is read exactly where the whole text is a numeral. -/
theorem run_number_eq_some {offset : Nat} {s : List Char} {o : Outcome Rule} :
    number.run offset s = some o ↔
      ∃ n : Numeral, n.WellFormed ∧ s = n.text ∧ o = ⟨s, [⟨.number, offset, s, []⟩], []⟩ := by
  constructor
  · intro h
    simp only [number, Pattern.all, run_token_eq_some, run_seq_eq_some, run_atEnd_eq_some, digits,
      run_atLeastOne_char_eq_some] at h
    obtain ⟨_, ⟨sign, _, hsign, ⟨_, _, ⟨w, r, hw, hne, hdigits, -, rfl⟩, ⟨fraction, _, hfraction, ⟨hend, rfl⟩, rfl⟩,
      rfl⟩, rfl⟩, rfl⟩ := h
    simp only at hfraction
    have hsplit : s = sign.text ++ sign.rest := run_splits hsign
    have hsplit' : r = fraction.text ++ fraction.rest := run_splits hfraction
    have hnegative : ∃ b : Bool, sign.text = (if b then ['-'] else []) ∧ sign.nodes = [] := by
      rcases run_optional_eq_some.1 hsign with h | ⟨-, rfl⟩
      · obtain ⟨_, _, rfl⟩ := run_text_eq_some.1 h
        exact ⟨true, rfl, rfl⟩
      · exact ⟨false, rfl, rfl⟩
    have hdecimals : ∃ f : Option (List Char), (∀ d ∈ f, d ≠ [] ∧ Over Char.isDigit d) ∧ fraction.nodes = [] ∧
        fraction.text = (match f with | none => [] | some d => '.' :: d) := by
      rcases run_optional_eq_some.1 hfraction with h | ⟨-, rfl⟩
      · obtain ⟨_, _, hone, htwo, rfl⟩ := run_seq_eq_some.1 h
        obtain ⟨_, _, rfl⟩ := run_text_eq_some.1 hone
        obtain ⟨d, _, _, hd, hover, -, rfl⟩ := run_atLeastOne_char_eq_some.1 htwo
        exact ⟨some d, by simpa using ⟨hd, hover⟩, rfl, rfl⟩
      · exact ⟨none, by simp, rfl, rfl⟩
    obtain ⟨b, hb, hbnodes⟩ := hnegative
    obtain ⟨f, hf, hfnodes, hftext⟩ := hdecimals
    have hs : s = (⟨b, w, f⟩ : Numeral).text := by
      rw [hsplit, hw, hsplit', hend, List.append_nil, hb, hftext]
      rfl
    refine ⟨⟨b, w, f⟩, ⟨hne, hdigits, hf⟩, hs, ?_⟩
    have htext : sign.text ++ (w ++ (fraction.text ++ [])) = s := by
      rw [hb, hftext, hs, List.append_nil]
      rfl
    simp only [htext]
  · rintro ⟨n, hn, rfl, rfl⟩
    have hdigits : ∀ offset, digits.run offset (n.whole ++ n.fractionText) = some ⟨n.whole, [], n.fractionText⟩ :=
      fun offset => run_atLeastOne_char_eq_some.2 ⟨_, _, rfl, hn.1, hn.2.1, n.stops_fractionText, rfl⟩
    have hend : ∀ offset, atEnd.run offset [] = some ⟨[], [], []⟩ := fun offset => run_atEnd_eq_some.2 ⟨rfl, rfl⟩
    have hrun := run_seq_eq_some.2 ⟨_, _, run_sign n hn offset, run_seq_eq_some.2 ⟨_, _, hdigits _,
      run_seq_eq_some.2 ⟨_, _, run_fraction n hn _, hend _, rfl⟩, rfl⟩, rfl⟩
    have htext : n.signText ++ (n.whole ++ (n.fractionText ++ [])) = n.text := by rw [List.append_nil, Numeral.text]
    simp only [htext] at hrun
    exact run_token_eq_some.2 ⟨_, hrun, rfl⟩

/-! ## Texts in quotes -/

/-- The text can stand in quotes as a literal: it holds neither a quote nor a star. -/
def Quotable (v : List Char) : Prop := ∀ c ∈ v, c ≠ '"' ∧ c ≠ '*'

instance (v : List Char) : Decidable (Quotable v) := List.decidableBAll (fun c => c ≠ '"' ∧ c ≠ '*') v

/-- The characters that end the content of a literal in quotes. -/
def endsContent (c : Char) : Bool := '"' = c || '*' = c

theorem isSome_run_endsContent (offset : Nat) (c : Char) (s : List Char) :
    ((choice (text "\"") (text "*") : Pattern Rule).run offset (c :: s)).isSome = endsContent c := by
  have hquote := isSome_run_mark "\"" '"' rfl offset c s
  have hstar := isSome_run_mark "*" '*' rfl offset c s
  rw [run, endsContent, ← hquote, ← hstar]
  cases (text "\"" : Pattern Rule).run offset (c :: s) with
  | none => rfl
  | some o => rfl

theorem over_notEndsContent_iff {v : List Char} : Over (fun c => !endsContent c) v ↔ Quotable v := by
  simp only [Over, Quotable, endsContent, Bool.not_eq_true', Bool.or_eq_false_iff, decide_eq_false_iff_not]
  constructor
  · intro h c hc
    exact ⟨Ne.symm (h c hc).1, Ne.symm (h c hc).2⟩
  · intro h c hc
    exact ⟨Ne.symm (h c hc).1, Ne.symm (h c hc).2⟩

/-- A quotable text has no quote. -/
theorem Quotable.unquoted {v : List Char} (h : Quotable v) : Unquoted v := fun hmem => (h _ hmem).1 rfl

/-- A text in quotes is read exactly where the whole text is one. -/
theorem run_string_eq_some {offset : Nat} {s : List Char} {o : Outcome Rule} :
    string.run offset s = some o ↔
      ∃ v, Quotable v ∧ s = '"' :: (v ++ ['"']) ∧ o = ⟨s, [⟨.string, offset, s, []⟩], []⟩ := by
  simp only [string, Pattern.all, run_token_eq_some, run_seq_eq_some, run_text_eq_some,
    run_many_notChar isSome_run_endsContent, run_atEnd_eq_some, Option.some.injEq]
  constructor
  · rintro ⟨_, ⟨_, _, ⟨s, rfl, rfl⟩, ⟨_, _, rfl, ⟨_, _, ⟨r, hr, rfl⟩, ⟨hend, rfl⟩, rfl⟩, rfl⟩, rfl⟩, rfl⟩
    simp only at hr hend
    have hsplit : s.takeWhile (fun c => !endsContent c) ++ s.dropWhile (fun c => !endsContent c) = s :=
      List.takeWhile_append_dropWhile
    rw [hr, hend] at hsplit
    have hs : "\"".toList ++ s = '"' :: (s.takeWhile (fun c => !endsContent c) ++ ['"']) :=
      congrArg ('"' :: ·) hsplit.symm
    refine ⟨s.takeWhile fun c => !endsContent c, over_notEndsContent_iff.1 (over_takeWhile s), hs, ?_⟩
    rw [hs]
    simp
  · rintro ⟨v, hv, rfl, rfl⟩
    have hover := over_notEndsContent_iff.2 hv
    have hstops : Stops (fun c => !endsContent c) ['"'] := stops_cons.2 (by decide)
    have htake : (v ++ ['"']).takeWhile (fun c => !endsContent c) = v := takeWhile_append_of_stops hover hstops
    have hdrop : (v ++ ['"']).dropWhile (fun c => !endsContent c) = ['"'] := dropWhile_append_of_stops hover hstops
    refine ⟨_, ⟨_, _, ⟨v ++ ['"'], rfl, rfl⟩, ⟨_, _, rfl, ⟨_, _, ⟨[], ?_, rfl⟩, ⟨rfl, rfl⟩, rfl⟩, rfl⟩, rfl⟩, ?_⟩
    · simp only [hdrop]
      rfl
    · simp [htake]

/-! ## Literals -/

/-- How a literal is written: its form and its text. -/
inductive LiteralForm : Rule → List Char → Prop where
  | number {n : Numeral} (h : n.WellFormed) : LiteralForm .number n.text
  | string {v : List Char} (h : Quotable v) : LiteralForm .string ('"' :: (v ++ ['"']))

/-- A numeral does not start with a quote. -/
theorem Numeral.text_ne_quote {n : Numeral} (hn : n.WellFormed) (r : List Char) : n.text ≠ '"' :: r := by
  intro h
  unfold Numeral.text Numeral.signText at h
  cases hwhole : n.whole with
  | nil => exact hn.1 hwhole
  | cons c w =>
    have hc : c.isDigit = true := hn.2.1 c (by rw [hwhole]; exact List.mem_cons_self)
    rw [hwhole] at h
    split at h
    · cases h
    · obtain ⟨rfl, -⟩ := List.cons.inj h
      exact absurd hc (by decide)

theorem run_raw_eq_some {offset : Nat} {s : List Char} {o : Outcome Rule} :
    raw.run offset s = some o ↔ s ≠ [] ∧ o = ⟨s, [⟨.raw, offset, s, []⟩], []⟩ := by
  simp only [raw, run_token_eq_some, anyChar, run_atLeastOne_char_eq_some]
  constructor
  · rintro ⟨_, ⟨t, r, rfl, hne, -, hr, rfl⟩, rfl⟩
    cases r with
    | nil => simp [hne]
    | cons c r => exact absurd (stops_cons.1 hr) (by decide)
  · rintro ⟨hne, rfl⟩
    exact ⟨_, ⟨s, [], by simp, hne, fun _ _ => rfl, stops_nil, rfl⟩, rfl⟩

/-- A literal takes all of the text. Its node is of a form that the text has, or of the rule for any text. -/
theorem run_literal_eq_some {offset : Nat} {s : List Char} {o : Outcome Rule} (h : literal.run offset s = some o) :
    ∃ form, (LiteralForm form s ∨ form = .raw) ∧
      o = ⟨s, [⟨.literal, offset, s, [⟨form, offset, s, []⟩]⟩], []⟩ := by
  obtain ⟨one, hone, rfl⟩ := run_node_eq_some.1 h
  simp only [firstOf, run_choice_eq_some] at hone
  rcases hone with hnumber | ⟨-, hstring | ⟨-, hraw⟩⟩
  · obtain ⟨n, hn, rfl, rfl⟩ := run_number_eq_some.1 hnumber
    exact ⟨.number, Or.inl (LiteralForm.number hn), rfl⟩
  · obtain ⟨v, hv, rfl, rfl⟩ := run_string_eq_some.1 hstring
    exact ⟨.string, Or.inl (LiteralForm.string hv), rfl⟩
  · obtain ⟨-, rfl⟩ := run_raw_eq_some.1 hraw
    exact ⟨.raw, Or.inr rfl, rfl⟩

/-- A literal is read in the form in which it is written. -/
theorem run_literal_of_form {form : Rule} {s : List Char} (h : LiteralForm form s) (offset : Nat) :
    literal.run offset s = some ⟨s, [⟨.literal, offset, s, [⟨form, offset, s, []⟩]⟩], []⟩ := by
  refine run_node_eq_some.2 ⟨⟨s, [⟨form, offset, s, []⟩], []⟩, ?_, rfl⟩
  simp only [firstOf, run_choice_eq_some]
  cases h with
  | number hn => exact Or.inl (run_number_eq_some.2 ⟨_, hn, rfl, rfl⟩)
  | @string v hv =>
    refine Or.inr ⟨?_, Or.inl (run_string_eq_some.2 ⟨_, hv, rfl, rfl⟩)⟩
    cases hrun : number.run offset ('"' :: (v ++ ['"'])) with
    | none => rfl
    | some o =>
      obtain ⟨n, hn, hs, -⟩ := run_number_eq_some.1 hrun
      exact absurd hs.symm (Numeral.text_ne_quote hn _)

/-- Any other text is read as one that is neither. -/
theorem run_literal_of_no_form {s : List Char} (hne : s ≠ []) (h : ∀ form, ¬LiteralForm form s) (offset : Nat) :
    literal.run offset s = some ⟨s, [⟨.literal, offset, s, [⟨.raw, offset, s, []⟩]⟩], []⟩ := by
  have hnumber : number.run offset s = none := by
    cases hrun : number.run offset s with
    | none => rfl
    | some o =>
      obtain ⟨n, hn, rfl, -⟩ := run_number_eq_some.1 hrun
      exact absurd (LiteralForm.number hn) (h .number)
  have hstring : string.run offset s = none := by
    cases hrun : string.run offset s with
    | none => rfl
    | some o =>
      obtain ⟨v, hv, rfl, -⟩ := run_string_eq_some.1 hrun
      exact absurd (LiteralForm.string hv) (h .string)
  refine run_node_eq_some.2 ⟨⟨s, [⟨.raw, offset, s, []⟩], []⟩, ?_, rfl⟩
  simp only [firstOf, run_choice_eq_some]
  exact Or.inr ⟨hnumber, Or.inr ⟨hstring, run_raw_eq_some.2 ⟨hne, rfl⟩⟩⟩

theorem not_isAlpha_of_isDigit {c : Char} (h : c.isDigit = true) : c.isAlpha = false := by
  unfold Char.isDigit at h
  unfold Char.isAlpha Char.isUpper Char.isLower
  simp only [Bool.and_eq_true, decide_eq_true_eq, Bool.or_eq_false_iff, Bool.and_eq_false_iff, decide_eq_false_iff_not,
    UInt32.le_iff_toNat_le, ge_iff_le] at h ⊢
  have hnine : '9'.val.toNat = 57 := rfl
  have hupper : 'A'.val.toNat = 65 := rfl
  have hlower : 'a'.val.toNat = 97 := rfl
  omega

/-- A literal starts neither with a blank nor with a letter. -/
theorem LiteralForm.head {form : Rule} {l : List Char} (h : LiteralForm form l) :
    ∃ c r, l = c :: r ∧ isGap c = false ∧ c.isAlpha = false := by
  cases h with
  | @number n hn =>
    unfold Numeral.text Numeral.signText
    cases n.negative with
    | true => exact ⟨'-', _, rfl, by decide, by decide⟩
    | false =>
      cases hwhole : n.whole with
      | nil => exact absurd hwhole hn.1
      | cons c w =>
        have hc : c.isDigit = true := hn.2.1 c (by rw [hwhole]; exact List.mem_cons_self)
        exact ⟨c, _, rfl, not_isGap_of_isWordChar (isWordChar_of_isDigit hc), not_isAlpha_of_isDigit hc⟩
  | string _ => exact ⟨'"', _, rfl, by decide, by decide⟩

end Grammar

end SentenceQuery
