import Mathlib.Data.List.Basic
import Mathlib.Data.List.Induction
import Mathlib.Data.List.ModifyLast
import SentenceQuery.Query.Criteria

/-!
# What connectives select

Criteria are decided from left to right, and no connective binds tighter than another. So a record is selected where it is let
in at some place and every later criterion behind an `and` holds of it (`Criteria.LetIn`); what is decided before that place does
not count. One more criterion decides with what is decided so far (`Criteria.accept_joined`), so that behind an `and` it selects
no further record, and behind an `or` it loses none (`Criteria.select_letIn`).
-/

namespace SentenceQuery

namespace Criteria

/-! ## Places -/

/-- The criterion at a place holds of a record. -/
def HoldsAt (criteria : List Criterion) (r : Record) (i : Nat) : Prop := ∃ c ∈ criteria[i]?, c.holds r = true

/-- The connective in front of the criterion at a place: the glue of the criterion before, which counts as `and` where it is
missing. Nothing stands in front of the first criterion. -/
def connectiveAt? (criteria : List Criterion) : Nat → Option Connective
  | 0 => none
  | i + 1 => criteria[i]?.map fun c => c.glue.getD .and

/-- A record is let in at a place: the criterion there holds, and is the first or stands behind an `or`; and every later
criterion behind an `and` holds. -/
def LetInAt (criteria : List Criterion) (r : Record) (i : Nat) : Prop :=
  HoldsAt criteria r i ∧ (i = 0 ∨ connectiveAt? criteria i = some .or) ∧
    ∀ j < criteria.length, i < j → connectiveAt? criteria j = some .and → HoldsAt criteria r j

/-- A record is let in at some place, or there are no criteria. -/
def LetIn (criteria : List Criterion) (r : Record) : Prop :=
  criteria = [] ∨ ∃ i < criteria.length, LetInAt criteria r i

instance (criteria : List Criterion) (r : Record) (i : Nat) : Decidable (HoldsAt criteria r i) :=
  inferInstanceAs (Decidable (∃ c ∈ criteria[i]?, c.holds r = true))

instance (criteria : List Criterion) (r : Record) (i : Nat) : Decidable (LetInAt criteria r i) :=
  inferInstanceAs (Decidable (_ ∧ _ ∧ _))

instance (criteria : List Criterion) (r : Record) : Decidable (LetIn criteria r) :=
  inferInstanceAs (Decidable (_ ∨ _))

variable {criteria : List Criterion} {r : Record} {c : Criterion}

/-! ## One more criterion -/

theorem holdsAt_concat_of_lt {i : Nat} (h : i < criteria.length) :
    HoldsAt (criteria ++ [c]) r i ↔ HoldsAt criteria r i := by
  rw [HoldsAt, HoldsAt, List.getElem?_append_left h]

theorem holdsAt_concat_length : HoldsAt (criteria ++ [c]) r criteria.length ↔ c.holds r = true := by
  simp [HoldsAt]

/-- What stands in front of a place does not depend on the criterion there. -/
theorem connectiveAt?_concat {i : Nat} (h : i ≤ criteria.length) :
    connectiveAt? (criteria ++ [c]) i = connectiveAt? criteria i := by
  cases i with
  | zero => rfl
  | succ i => rw [connectiveAt?, connectiveAt?, List.getElem?_append_left h]

/-- Behind the last criterion there is a connective. -/
theorem connectiveAt?_length_concat (criteria : List Criterion) (c : Criterion) :
    connectiveAt? (criteria ++ [c]) (criteria ++ [c]).length = some (c.glue.getD .and) := by
  rw [List.length_append, List.length_singleton]
  simp [connectiveAt?]

/-- A record is let in before the last criterion if it is without that one, which must hold if it stands behind an `and`. -/
theorem letInAt_concat_of_lt {i : Nat} (h : i < criteria.length) :
    LetInAt (criteria ++ [c]) r i ↔
      LetInAt criteria r i ∧ (connectiveAt? criteria criteria.length = some .and → c.holds r = true) := by
  have hlast : connectiveAt? (criteria ++ [c]) criteria.length = connectiveAt? criteria criteria.length :=
    connectiveAt?_concat (Nat.le_refl _)
  unfold LetInAt
  rw [holdsAt_concat_of_lt h, connectiveAt?_concat (Nat.le_of_lt h), List.length_append, List.length_singleton]
  constructor
  · rintro ⟨hholds, hopen, hkept⟩
    refine ⟨⟨hholds, hopen, fun j hj hij hand => ?_⟩, fun hand => ?_⟩
    · rw [← connectiveAt?_concat (c := c) (Nat.le_of_lt hj)] at hand
      exact (holdsAt_concat_of_lt hj).1 (hkept j (by omega) hij hand)
    · rw [← hlast] at hand
      exact holdsAt_concat_length.1 (hkept criteria.length (by omega) h hand)
  · rintro ⟨⟨hholds, hopen, hkept⟩, hnew⟩
    refine ⟨hholds, hopen, fun j hj hij hand => ?_⟩
    rcases Nat.lt_or_eq_of_le (Nat.le_of_lt_succ hj) with hj | rfl
    · rw [connectiveAt?_concat (Nat.le_of_lt hj)] at hand
      exact (holdsAt_concat_of_lt hj).2 (hkept j hj hij hand)
    · exact holdsAt_concat_length.2 (hnew (hlast ▸ hand))

/-- A record is let in at the last criterion if that one holds, and is the only one or stands behind an `or`. -/
theorem letInAt_concat_length :
    LetInAt (criteria ++ [c]) r criteria.length ↔
      c.holds r = true ∧ (criteria.length = 0 ∨ connectiveAt? criteria criteria.length = some .or) := by
  unfold LetInAt
  rw [holdsAt_concat_length, connectiveAt?_concat (Nat.le_refl _), List.length_append, List.length_singleton]
  refine and_congr_right fun _ => and_iff_left fun j hj hlast => ?_
  omega

/-- One more criterion lets a record in that was let in before, or does so itself. -/
theorem letIn_concat_iff :
    LetIn (criteria ++ [c]) r ↔
      (∃ i < criteria.length,
        LetInAt criteria r i ∧ (connectiveAt? criteria criteria.length = some .and → c.holds r = true)) ∨
      c.holds r = true ∧ (criteria.length = 0 ∨ connectiveAt? criteria criteria.length = some .or) := by
  rw [← letInAt_concat_length]
  constructor
  · rintro (habsurd | ⟨i, hi, h⟩)
    · simp at habsurd
    · rw [List.length_append, List.length_singleton] at hi
      rcases Nat.lt_or_eq_of_le (Nat.le_of_lt_succ hi) with hi | rfl
      · exact Or.inl ⟨i, hi, (letInAt_concat_of_lt hi).1 h⟩
      · exact Or.inr h
  · rintro (⟨i, hi, h⟩ | h)
    · exact Or.inr ⟨i, by rw [List.length_append]; omega, (letInAt_concat_of_lt hi).2 h⟩
    · exact Or.inr ⟨criteria.length, by simp, h⟩

/-- Behind an `and` no record is let in that was not before; behind an `or` the criterion alone is enough. -/
theorem letIn_concat (hne : criteria ≠ []) {connective : Connective}
    (h : connectiveAt? criteria criteria.length = some connective) :
    LetIn (criteria ++ [c]) r ↔ connective.combine (decide (LetIn criteria r)) (c.holds r) = true := by
  have hbefore : LetIn criteria r ↔ ∃ i < criteria.length, LetInAt criteria r i := or_iff_right hne
  rw [letIn_concat_iff, h, List.length_eq_zero_iff]
  cases connective with
  | and =>
    rw [Connective.combine, Bool.and_eq_true, decide_eq_true_iff, hbefore]
    constructor
    · rintro (⟨i, hi, hin, hc⟩ | ⟨-, hnil | habsurd⟩)
      · exact ⟨⟨i, hi, hin⟩, hc rfl⟩
      · exact absurd hnil hne
      · cases habsurd
    · rintro ⟨⟨i, hi, hin⟩, hc⟩
      exact Or.inl ⟨i, hi, hin, fun _ => hc⟩
  | or =>
    rw [Connective.combine, Bool.or_eq_true, decide_eq_true_iff, hbefore]
    simp

/-! ## What is decided -/

theorem decideFrom_concat (c : Criterion) (rest : List Criterion) (decided : Bool) (first : Criterion)
    {connective : Connective} (h : connectiveAt? (first :: rest) (rest.length + 1) = some connective) :
    decideFrom r decided first.glue (rest ++ [c]) =
      connective.combine (decideFrom r decided first.glue rest) (c.holds r) := by
  induction rest generalizing decided first with
  | nil =>
    cases h
    rfl
  | cons next rest ih => exact ih _ next h

/-- One more criterion is joined with what is decided so far by the connective in front of it. -/
theorem accept_concat (hne : criteria ≠ []) {connective : Connective}
    (h : connectiveAt? criteria criteria.length = some connective) :
    accept (criteria ++ [c]) r = connective.combine (accept criteria r) (c.holds r) := by
  cases criteria with
  | nil => exact absurd rfl hne
  | cons first rest => exact decideFrom_concat c rest (first.holds r) first h

/-- A record satisfies criteria where it is let in. -/
theorem accept_eq (criteria : List Criterion) (r : Record) : accept criteria r = decide (LetIn criteria r) := by
  induction criteria using List.reverseRecOn with
  | nil => simp [accept, LetIn]
  | append_singleton criteria c ih =>
    rcases List.eq_nil_or_concat' criteria with rfl | ⟨earlier, last, rfl⟩
    · rw [Bool.eq_iff_iff, decide_eq_true_iff, letIn_concat_iff]
      simp [accept, decideFrom]
    · have hlast := connectiveAt?_length_concat earlier last
      rw [accept_concat (by simp) hlast, ih, Bool.eq_iff_iff, decide_eq_true_iff, letIn_concat (by simp) hlast]

/-! ## Criteria that are joined -/

/-- One more criterion, joined by a connective, which the last criterion has as its glue. To no criteria nothing joins it. -/
def joined (criteria : List Criterion) (connective : Connective) (next : Criterion) : List Criterion :=
  criteria.modifyLast (fun last => { last with glue := some connective }) ++ [next]

/-- The glue of the last criterion is not looked at. -/
theorem accept_modifyGlue (earlier : List Criterion) (last : Criterion) (glue : Option Connective) (r : Record) :
    accept (earlier ++ [{ last with glue := glue }]) r = accept (earlier ++ [last]) r := by
  rw [accept_eq, accept_eq, decide_eq_decide, letIn_concat_iff, letIn_concat_iff]
  exact Iff.rfl

theorem accept_joined (hne : criteria ≠ []) (connective : Connective) (next : Criterion) (r : Record) :
    accept (joined criteria connective next) r = connective.combine (accept criteria r) (next.holds r) := by
  obtain ⟨earlier, last, rfl⟩ := (List.eq_nil_or_concat' criteria).resolve_left hne
  let joint : Criterion := { last with glue := some connective }
  have hlast : connectiveAt? (earlier ++ [joint]) (earlier ++ [joint]).length = some connective :=
    connectiveAt?_length_concat earlier joint
  rw [joined, List.modifyLast_concat, accept_concat (by simp) hlast, accept_modifyGlue]

/-- The records selected are those that are let in, in their order. One more criterion behind an `and` adds none, and one behind
an `or` removes none. -/
theorem select_letIn :
    (∀ criteria r, accept criteria r = true ↔ LetIn criteria r) ∧
    (∀ criteria records, select criteria records = records.filter fun r => LetIn criteria r) ∧
    (∀ criteria next records, (select (joined criteria .and next) records).Sublist (select criteria records)) ∧
    (∀ first rest next records,
      (select (first :: rest) records).Sublist (select (joined (first :: rest) .or next) records)) := by
  refine ⟨fun criteria r => ?_, fun criteria records => ?_, fun criteria next records => ?_,
    fun first rest next records => ?_⟩
  · rw [accept_eq, decide_eq_true_iff]
  · exact List.filter_congr fun r _ => accept_eq criteria r
  · refine List.monotone_filter_right records fun r h => ?_
    cases criteria with
    | nil => rfl
    | cons first rest =>
      rw [accept_joined (by simp), Connective.combine, Bool.and_eq_true] at h
      exact h.1
  · refine List.monotone_filter_right records fun r h => ?_
    rw [accept_joined (by simp), Connective.combine, h, Bool.true_or]

-- "a or b and c" is "(a or b) and c", so that c must hold
example :
    let more (field : String) (glue : Option Connective) : Criterion := ⟨field, .number .greaterThan, .number .zero, glue⟩
    let r : Record := NameMap.ofList [("a", .number (.ofNat 1)), ("b", .number .zero), ("c", .number .zero)]
    ¬LetIn [more "a" (some .or), more "b" (some .and), more "c" none] r ∧
      LetIn [more "b" (some .and), more "c" (some .or), more "a" none] r := by
  decide +kernel

end Criteria

end SentenceQuery
