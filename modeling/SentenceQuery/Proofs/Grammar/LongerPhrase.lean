import SentenceQuery.Proofs.Grammar.Criterion

/-!
# Where a longer phrase stands in the way

Behind the phrase of an operator any text may follow. The phrase is read as it stands, unless a longer one stands in its
place, or begins there and has been chosen before the end of its last word is looked at: so `is notable` is tried as `is
not` only, and no operator is read (`readsPhrase_of_no_longer`, `run_operator_eq_none_of_runsIntoNot`).
-/

namespace SentenceQuery

namespace Grammar

open Pattern

/-- A longer phrase than the operator's stands at the start of the text, and no word goes on behind it. -/
def LongerPhraseStands (op : Operator) (s : List Char) : Prop :=
  ∃ v ∈ Operator.phrases, op.phrase.toList.length < v.toList.length ∧ v.toList <+: s ∧
    Stops isWordChar (s.drop v.toList.length)

instance (op : Operator) (s : List Char) : Decidable (LongerPhraseStands op s) :=
  inferInstanceAs (Decidable (∃ v ∈ Operator.phrases, _ ∧ _ ∧ _))

/-- A space behind `is` and a word that only begins with `not`. -/
def RunsIntoNot (op : Operator) (g l : List Char) : Prop :=
  op = .text .is ∧ g = [' '] ∧ "not".toList <+: l ∧ ¬Stops isWordChar (l.drop 3)

instance (op : Operator) (g l : List Char) : Decidable (RunsIntoNot op g l) :=
  inferInstanceAs (Decidable (_ ∧ _ ∧ _ ∧ ¬_))

/-- Of the phrases for texts only `is not` goes on behind a phrase. -/
theorem textPhrase_begins_one :
    ∀ w ∈ Operator.phrases, ∀ v ∈ TextOperator.all.map TextOperator.phrase, w.toList <+: v.toList →
      v = w ∨ (w = "is" ∧ v = "is not") := by
  decide

theorem eq_is_of_phrase {op : Operator} (h : op.phrase = "is") : op = .text .is := by
  have hop := ofPhrase?_phrase op
  rw [h] at hop
  exact (Option.some.inj hop).symm

/-- Where no longer phrase stands, what stands there as a whole begins the phrase. -/
theorem prefix_of_stands {op : Operator} {s r : List Char} (h : ¬LongerPhraseStands op (op.phrase.toList ++ s)) {v : String}
    (hv : v ∈ Operator.phrases) (hs : op.phrase.toList ++ s = v.toList ++ r) (hr : Stops isWordChar r) :
    v.toList <+: op.phrase.toList := by
  have hbegins : v.toList <+: op.phrase.toList ++ s := ⟨r, hs.symm⟩
  rcases List.prefix_or_prefix_of_prefix hbegins (List.prefix_append _ _) with hprefix | hprefix
  · exact hprefix
  · rcases Nat.lt_or_ge op.phrase.toList.length v.toList.length with hlt | hle
    · refine absurd ⟨v, hv, hlt, hbegins, ?_⟩ h
      rwa [hs, List.drop_left]
    · exact hprefix.eq_of_length_le hle ▸ List.prefix_refl _

/-- A phrase is read as it stands in front of any text, if no longer one stands there and it does not run into `not`. -/
theorem readsPhrase_of_no_longer {op : Operator} {g l : List Char} (hne : g ≠ []) (hg : Over isGap g) (hl : Stops isGap l)
    (hlonger : ¬LongerPhraseStands op (op.phrase.toList ++ (g ++ l))) (hnot : ¬RunsIntoNot op g l) :
    ReadsPhrase op (g ++ l) := by
  refine readsPhrase_of_longest (stops_isWordChar_of_isGap hne hg l)
    (fun v hv r hs hr => prefix_of_stands hlonger (mem_phrases_of_number hv) hs hr) fun v hv hprefix => ?_
  rcases List.prefix_or_prefix_of_prefix hprefix (List.prefix_append _ _) with hbegins | hbegins
  · exact hbegins
  rcases textPhrase_begins_one op.phrase (phrase_mem op) v hv hbegins with rfl | ⟨his, rfl⟩
  · exact List.prefix_refl _
  -- `is not` begins here: the blanks are one space, and `not` begins the rest
  rw [his] at hprefix hlonger
  have hrest : ' ' :: "not".toList <+: g ++ l := (List.prefix_append_right_inj "is".toList).1 hprefix
  obtain ⟨r, hr⟩ := hrest
  have hword : g = [' '] ∧ l = "not".toList ++ r := by
    cases g with
    | nil => exact absurd rfl hne
    | cons c g =>
      obtain ⟨rfl, hnext⟩ := List.cons.inj hr
      cases g with
      | nil => exact ⟨rfl, hnext.symm⟩
      | cons d g =>
        obtain ⟨rfl, -⟩ := List.cons.inj hnext
        exact absurd (over_cons.1 (over_cons.1 hg).2).1 (by decide)
  obtain ⟨rfl, rfl⟩ := hword
  by_cases hstops : Stops isWordChar r
  · refine absurd ⟨"is not", by decide, ?_, ⟨r, rfl⟩, hstops⟩ hlonger
    rw [his]
    decide
  · exact absurd ⟨eq_is_of_phrase his, rfl, ⟨r, rfl⟩, hstops⟩ hnot

theorem run_operator_eq_none {offset : Nat} {s : List Char} (hnumber : numericOp.run offset s = none)
    (htext : stringOp.run offset s = none) : operator.run offset s = none := by
  simp only [operator, run, hnumber, htext, Option.map_none]

/-- Where `is` runs into `not`, no operator is read: `is not` is tried, and `is` is not tried after it. -/
theorem run_operator_eq_none_of_runsIntoNot {op : Operator} {g l : List Char} (h : RunsIntoNot op g l)
    (hlonger : ¬LongerPhraseStands op (op.phrase.toList ++ (g ++ l))) (offset : Nat) :
    operator.run offset (op.phrase.toList ++ (g ++ l)) = none := by
  obtain ⟨rfl, rfl, ⟨r, rfl⟩, hr⟩ := h
  refine run_operator_eq_none ?_ ?_
  · exact run_numericOp_eq_none rfl
      (fun v hv r hs hr => prefix_of_stands hlonger (mem_phrases_of_number hv) hs hr) offset
  · have hfirst : ∀ v ∈ (TextOperator.all.reverse.map TextOperator.phrase).take 6,
        ¬v.toList <+: "is not".toList ∧ ¬"is not".toList <+: v.toList := by decide
    have hnone : (oneOf ((TextOperator.all.reverse.map TextOperator.phrase).take 6 ++ "is not" :: ["is"])).run offset
        ("is not".toList ++ r) = none := by
      refine run_oneOf_eq_none (fun v hv hprefix => ?_) hr offset
      rcases List.prefix_or_prefix_of_prefix hprefix (List.prefix_append _ _) with hbegins | hbegins
      · exact (hfirst v hv).1 hbegins
      · exact (hfirst v hv).2 hbegins
    have hrun : stringOp.run offset ("is not".toList ++ r) = none := by
      rw [stringOp, run]
      exact congrArg (Option.map _) hnone
    exact hrun

/-- Without an operator behind the column there is no criterion. -/
theorem run_criterion_eq_none {column g s : List Char} (op : Operator) (hcolumn : FieldText column) (hne : g ≠ [])
    (hg : Over isGap g) (hop : ∀ start, operator.run start (op.phrase.toList ++ s) = none) (offset : Nat) :
    criterion.run offset (column ++ (g ++ (op.phrase.toList ++ s))) = none := by
  obtain ⟨c, r, hphrase, hgap, -⟩ := phrase_head op
  have hrest : ∀ start, (seq operator (all [ws, literal, endOfText])).run start (op.phrase.toList ++ s) = none := by
    intro start
    simp only [run, hop start]
  have hrun := run_seq_ws_eq_none (run_field_append hcolumn (fieldEnds_phrase op hne hg s) offset) hne hg
    (by rw [hphrase]; exact stops_cons.2 hgap) (hrest _)
  rw [criterion, run]
  exact congrArg (Option.map _) hrun

end Grammar

end SentenceQuery
