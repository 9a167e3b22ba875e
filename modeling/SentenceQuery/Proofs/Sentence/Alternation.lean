import Mathlib.Data.List.Chain
import SentenceQuery.Proofs.Faults
import SentenceQuery.Proofs.Sentence.Splitting

/-!
# Criteria and connectives take turns

A body is cut by comparing two numbers, that of the criteria and that of the connectives. This is enough: since the runs
between connectives are always one more than these, the numbers fit only if no run is empty (`splitCriteria_eq`), and that is
so only if the words alternate (`forall_ne_nil_splitRuns`).
-/

namespace SentenceQuery

/-- The word is a connective. -/
def SpacedWord.joins (w : SpacedWord) : Bool := w.connective?.isSome

/-- Criteria and connectives take turns: a criterion is first and last, and no connective follows another. -/
structure Alternates (ws : List SpacedWord) : Prop where
  ne_nil : ws ≠ []
  first : ∀ w ∈ ws.head?, w.joins = false
  last : ∀ w ∈ ws.getLast?, w.joins = false
  apart : ws.IsChain fun v w => ¬(v.joins = true ∧ w.joins = true)

theorem alternates_iff {ws : List SpacedWord} : Alternates ws ↔ (ws ≠ [] ∧ ∀ w ∈ ws.head?, w.joins = false) ∧
    (∀ w ∈ ws.getLast?, w.joins = false) ∧ ws.IsChain fun v w => ¬(v.joins = true ∧ w.joins = true) :=
  ⟨fun ⟨h₁, h₂, h₃, h₄⟩ => ⟨⟨h₁, h₂⟩, h₃, h₄⟩, fun ⟨⟨h₁, h₂⟩, h₃, h₄⟩ => ⟨h₁, h₂, h₃, h₄⟩⟩

instance (ws : List SpacedWord) : Decidable (Alternates ws) := decidable_of_iff' _ alternates_iff

/-- The number of connectives among words. -/
def connectiveCount (ws : List SpacedWord) : Nat := ws.countP SpacedWord.joins

/-- The number of criteria among words, behind a connective or not: one starts at every word that is no connective and stands
behind one. -/
def criteriaCountBehind (behind : Bool) (ws : List SpacedWord) : Nat :=
  ((behind :: ws.map SpacedWord.joins).zip ws).countP fun (behind, w) => behind && !w.joins

/-- The number of criteria among the words of a body, whose start counts as a connective. -/
def criteriaCount (ws : List SpacedWord) : Nat := criteriaCountBehind true ws

/-! ## Runs -/

theorem splitRuns_cons_of_joins {w : SpacedWord} (hw : w.joins = true) (ws : List SpacedWord) :
    splitRuns (w :: ws) = [] :: splitRuns ws :=
  if_pos hw

/-- A word that is no connective belongs to the first run. -/
theorem exists_splitRuns_cons {w : SpacedWord} (hw : w.joins = false) (ws : List SpacedWord) :
    ∃ run runs, splitRuns ws = run :: runs ∧ splitRuns (w :: ws) = (w :: run) :: runs := by
  cases hruns : splitRuns ws with
  | nil => exact absurd hruns (splitRuns_ne_nil ws)
  | cons run runs =>
    have hplain : ¬w.connective?.isSome = true := by
      rw [← SpacedWord.joins, hw]
      decide
    exact ⟨run, runs, rfl, by simp [splitRuns, hplain, hruns]⟩

/-- There is one run more than there are connectives. -/
theorem length_splitRuns (ws : List SpacedWord) : (splitRuns ws).length = connectiveCount ws + 1 := by
  induction ws with
  | nil => rfl
  | cons w ws ih =>
    unfold connectiveCount at ih ⊢
    cases hw : w.joins with
    | true => rw [splitRuns_cons_of_joins hw, List.length_cons, ih, List.countP_cons_of_pos hw]
    | false =>
      obtain ⟨run, runs, hruns, hcons⟩ := exists_splitRuns_cons hw ws
      rw [hruns, List.length_cons] at ih
      rw [hcons, List.length_cons, ih, List.countP_cons_of_neg (by simp [hw])]

/-- The first run is empty unless a criterion comes first. -/
theorem head_splitRuns_ne_nil {ws run : List SpacedWord} {runs : List (List SpacedWord)} (h : splitRuns ws = run :: runs) :
    run ≠ [] ↔ ws ≠ [] ∧ ∀ w ∈ ws.head?, w.joins = false := by
  cases ws with
  | nil =>
    obtain ⟨rfl, -⟩ := List.cons.inj h
    simp
  | cons w ws =>
    cases hw : w.joins with
    | true =>
      rw [splitRuns_cons_of_joins hw] at h
      obtain ⟨rfl, -⟩ := List.cons.inj h
      simp [hw]
    | false =>
      obtain ⟨first, more, -, hcons⟩ := exists_splitRuns_cons hw ws
      rw [hcons] at h
      obtain ⟨rfl, -⟩ := List.cons.inj h
      simp [hw]

theorem forall_ne_nil_iff_tail (ws : List SpacedWord) : (∀ run ∈ splitRuns ws, run ≠ []) ↔
    (ws ≠ [] ∧ ∀ w ∈ ws.head?, w.joins = false) ∧ ∀ run ∈ (splitRuns ws).tail, run ≠ [] := by
  cases hruns : splitRuns ws with
  | nil => exact absurd hruns (splitRuns_ne_nil ws)
  | cons run runs => rw [List.forall_mem_cons, head_splitRuns_ne_nil hruns, List.tail_cons]

/-- The runs but the first are empty only behind a connective that no criterion follows. -/
theorem forall_ne_nil_tail (ws : List SpacedWord) : (∀ run ∈ (splitRuns ws).tail, run ≠ []) ↔
    (∀ w ∈ ws.getLast?, w.joins = false) ∧ ws.IsChain fun v w => ¬(v.joins = true ∧ w.joins = true) := by
  induction ws with
  | nil => simp [splitRuns]
  | cons w ws ih =>
    cases hw : w.joins with
    | true =>
      rw [splitRuns_cons_of_joins hw, List.tail_cons, forall_ne_nil_iff_tail, ih]
      cases ws with
      | nil => simp [hw]
      | cons v ws => simp [hw, List.getLast?_cons_cons, and_left_comm]
    | false =>
      obtain ⟨run, runs, hruns, hcons⟩ := exists_splitRuns_cons hw ws
      rw [hruns, List.tail_cons] at ih
      rw [hcons, List.tail_cons, ih]
      cases ws with
      | nil => simp [hw]
      | cons v ws => simp [hw, List.getLast?_cons_cons]

/-- No run is empty exactly where criteria and connectives take turns. -/
theorem forall_ne_nil_splitRuns (ws : List SpacedWord) : (∀ run ∈ splitRuns ws, run ≠ []) ↔ Alternates ws := by
  rw [forall_ne_nil_iff_tail, forall_ne_nil_tail, alternates_iff]

/-- The runs that have words, all of them and those but the first, are as many as criteria start. -/
theorem length_filter_splitRuns (ws : List SpacedWord) :
    ((splitRuns ws).filter fun run => !run.isEmpty).length = criteriaCountBehind true ws ∧
      ((splitRuns ws).tail.filter fun run => !run.isEmpty).length = criteriaCountBehind false ws := by
  induction ws with
  | nil => exact ⟨rfl, rfl⟩
  | cons w ws ih =>
    obtain ⟨hall, htail⟩ := ih
    cases hw : w.joins with
    | true =>
      rw [splitRuns_cons_of_joins hw]
      simpa [criteriaCountBehind, hw] using hall
    | false =>
      obtain ⟨run, runs, hruns, hcons⟩ := exists_splitRuns_cons hw ws
      rw [hruns, List.tail_cons] at htail
      rw [hcons]
      simpa [criteriaCountBehind, hw] using htail

/-! ## Bodies -/

/-- A body without alternation is refused with the two numbers; any other is cut at its connectives. -/
theorem splitCriteria_eq (s : List Char) :
    splitCriteria s = answerUnless
      (if Alternates (spacedWords s) then none
        else some (.missingOperand (criteriaCount (spacedWords s)) (connectiveCount (spacedWords s))))
      (runTexts (spacedWords s), (spacedWords s).filterMap SpacedWord.connective?) := by
  have hconnectives : ((spacedWords s).filterMap SpacedWord.connective?).length = connectiveCount (spacedWords s) :=
    List.length_filterMap_eq_countP
  have hcriteria : (runTexts (spacedWords s)).length = criteriaCount (spacedWords s) := by
    rw [runTexts, List.length_map, (length_filter_splitRuns _).1]
    rfl
  have hfits : connectiveCount (spacedWords s) + 1 = criteriaCount (spacedWords s) ↔ Alternates (spacedWords s) := by
    rw [← forall_ne_nil_splitRuns, ← length_splitRuns, criteriaCount, ← (length_filter_splitRuns _).1, eq_comm,
      List.length_filter_eq_length_iff]
    simp
  unfold splitCriteria
  by_cases h : Alternates (spacedWords s)
  · rw [if_pos h]
    exact if_pos (by rw [hconnectives, ← runTexts, hcriteria]; exact hfits.2 h)
  · rw [if_neg h, ← hcriteria, ← hconnectives]
    refine if_neg ?_
    rw [hconnectives, ← runTexts, hcriteria]
    exact fun heq => h (hfits.1 heq)

end SentenceQuery
