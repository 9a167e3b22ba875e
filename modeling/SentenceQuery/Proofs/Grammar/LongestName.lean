import SentenceQuery.Proofs.Grammar.Names

/-!
# The longest name of a column

The rule for the name of a column takes the longest one that stands at the start of a text and ends with a whole word
(`Grammar.TakesName`). It takes one from every text that starts with a word that is no keyword, and from no other
(`Grammar.run_field_iff_takesName`).
-/

namespace SentenceQuery

namespace Grammar

open Pattern

/-- A text is the longest name of a column at the start of another, and what is left does not go on with it. -/
structure TakesName (s taken rest : List Char) : Prop where
  splits : s = taken ++ rest
  name : FieldText taken
  ends : FieldEnds rest
  /-- any other name that ends with a whole word is a beginning of this one -/
  longest : ∀ t r, s = t ++ r → FieldText t → Stops isWordChar r → t <+: taken

/-- Where no further name follows one list of names, another list in the same place is a beginning of it. -/
theorem furtherText_begins {ws ws' : List (List Char)} {rest r : List Char} (hws : ∀ w ∈ ws, IsFurtherName w)
    (hws' : ∀ w ∈ ws', IsFurtherName w) (hends : FieldEnds rest) (hr : Stops isWordChar r)
    (h : furtherText ws ++ rest = furtherText ws' ++ r) : furtherText ws' <+: furtherText ws := by
  induction ws' generalizing ws with
  | nil => exact List.nil_prefix
  | cons w' ws' ih =>
    obtain ⟨hw', hlater'⟩ := List.forall_mem_cons.1 hws'
    have hr' : Stops isWordChar (furtherText ws' ++ r) := stops_furtherText_append hr
    cases ws with
    | nil => exact absurd hr' (hends.2 w' _ (by simpa [furtherText] using h) hw')
    | cons w ws =>
      obtain ⟨hw, hlater⟩ := List.forall_mem_cons.1 hws
      have htail : w ++ (furtherText ws ++ rest) = w' ++ (furtherText ws' ++ r) := by simpa [furtherText] using h
      obtain ⟨rfl, hmore⟩ := span_unique htail hw.1.1.2 (stops_furtherText_append hends.1) hw'.1.1.2 hr'
      have hprefix := ih hlater hlater' hmore
      simpa [furtherText] using hprefix

/-- A name that does not go on is the longest in its place. -/
theorem takesName_append {t r : List Char} (ht : FieldText t) (hr : FieldEnds r) : TakesName (t ++ r) t r := by
  refine ⟨rfl, ht, hr, fun t' r' h ht' hr' => ?_⟩
  obtain ⟨w, ws, hw, hws, rfl⟩ := ht
  obtain ⟨w', ws', hw', hws', rfl⟩ := ht'
  rw [List.append_assoc, List.append_assoc] at h
  obtain ⟨rfl, hmore⟩ :=
    span_unique h hw.1.2 (stops_furtherText_append hr.1) hw'.1.2 (stops_furtherText_append hr')
  exact (List.prefix_append_right_inj w).2 (furtherText_begins hws hws' hr hr' hmore)

/-- A text that starts with a name has the name of a column at its start. -/
theorem exists_run_field {w r : List Char} (hw : IsName w) (hr : Stops isWordChar r) (offset : Nat) :
    ∃ o, field.run offset (w ++ r) = some o := by
  have hname : (absent reserved).run offset (w ++ r) = some ⟨[], [], w ++ r⟩ :=
    run_absent_eq_some.2 ⟨(run_reserved_eq_none hw.1 hr offset).2 hw.2, rfl⟩
  -- the further words are as many as there are, and there may be none
  obtain ⟨more, hmore⟩ : ∃ more, (many fieldTail).run (offset + byteSize w) r = some more := ⟨_, rfl⟩
  have hwords : (seq word (many fieldTail)).run offset (w ++ r) = some ⟨w ++ more.text, more.nodes, more.rest⟩ :=
    run_seq_eq_some.2 ⟨_, more, run_word_append hw.1 hr offset, hmore, rfl⟩
  exact ⟨_, run_token_eq_some.2 ⟨_, run_seq_eq_some.2 ⟨_, _, hname, hwords, rfl⟩, rfl⟩⟩

/-- The rule for the name of a column takes the longest one, wherever the text stands. It takes one from the texts that start with
a word that is no keyword. -/
theorem run_field_iff_takesName (offset : Nat) (s : List Char) :
    (∀ o, Rule.field.pattern.run offset s = some o ↔
      TakesName s o.text o.rest ∧ o.nodes = [⟨.field, offset, o.text, []⟩]) ∧
    ((∃ o, Rule.field.pattern.run offset s = some o) ↔ ∃ w r, s = w ++ r ∧ IsName w ∧ Stops isWordChar r) := by
  refine ⟨fun o => ⟨fun h => ?_, fun h => ?_⟩, fun h => ?_, fun h => ?_⟩
  · obtain ⟨t, r, rfl, ht, hr, rfl⟩ := run_field_eq_some.1 h
    exact ⟨takesName_append ht hr, rfl⟩
  · obtain ⟨hname, hnodes⟩ := h
    refine run_field_eq_some.2 ⟨o.text, o.rest, hname.splits, hname.name, hname.ends, ?_⟩
    rw [← hnodes]
  · obtain ⟨o, h⟩ := h
    obtain ⟨_, r, rfl, ⟨w, ws, hw, -, rfl⟩, hr, -⟩ := run_field_eq_some.1 h
    exact ⟨w, furtherText ws ++ r, List.append_assoc _ _ _, hw, stops_furtherText_append hr.1⟩
  · obtain ⟨w, r, rfl, hw, hr⟩ := h
    exact exists_run_field hw hr offset

-- a name stops before a keyword, also one with a capital letter, and before a word without
example : (["Short Name and Seats", "Title In Full", "Full Name of it", "Furniture-2 Type, x"].map fun s =>
    (Rule.field.match? s.toList).map fun o => String.ofList o.text) =
      [some "Short Name", some "Title", some "Full Name", some "Furniture-2 Type"] := by
  decide +kernel

end Grammar

end SentenceQuery
