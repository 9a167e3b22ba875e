import SentenceQuery.Proofs.Dataset.Service
import SentenceQuery.Proofs.Query.Meaning

/-!
# Fields that a query does not read

A query reads the fields that its criteria name, those that it groups by, the sources of its derived columns and, without groups,
those that it shows (`Plan.Reads`). Whatever records have in other fields, the answer is the same, and so is the error where there
is none (`Plan.answer_congr`).
-/

namespace SentenceQuery

namespace Plan

/-- The plan reads a field: to select records, to group them, to derive a column or, without groups, to show it. -/
def Reads (p : Plan) (f : String) : Prop :=
  (∃ c ∈ p.criteria, c.field = f) ∨ f ∈ p.groupFields ∨ (∃ d ∈ p.applyDefs, d.field = f) ∨
    (p.groupFields = [] ∧ f ∈ p.displayFields)

/-- Two records have the same cells in the fields that the plan reads, or lack them both. -/
def AgreeOn (p : Plan) (r r' : Record) : Prop := ∀ f, p.Reads f → r.get? f = r'.get? f

end Plan

/-! ## Records that are selected -/

theorem Criterion.holds_congr {c : Criterion} {r r' : Record} (h : r.get? c.field = r'.get? c.field) :
    c.holds r = c.holds r' := by
  rw [holds, holds, h]

namespace Criteria

theorem decideFrom_congr {r r' : Record} {criteria : List Criterion} (h : ∀ c ∈ criteria, c.holds r = c.holds r')
    (decided : Bool) (glue : Option Connective) :
    decideFrom r decided glue criteria = decideFrom r' decided glue criteria := by
  induction criteria generalizing decided glue with
  | nil => rfl
  | cons c rest ih =>
    rw [decideFrom, decideFrom, h c List.mem_cons_self]
    exact ih (fun c hc => h c (List.mem_cons_of_mem _ hc)) _ _

/-- Criteria decide alike over records of which each criterion says the same. -/
theorem accept_congr {r r' : Record} {criteria : List Criterion} (h : ∀ c ∈ criteria, c.holds r = c.holds r') :
    accept criteria r = accept criteria r' := by
  cases criteria with
  | nil => rfl
  | cons c rest =>
    rw [accept, accept, h c List.mem_cons_self]
    exact decideFrom_congr (fun c hc => h c (List.mem_cons_of_mem _ hc)) _ _

end Criteria

/-! ## Buckets -/

theorem GroupKey.ofRecord_congr {fields : List String} {r r' : Record} (h : ∀ f ∈ fields, r.get? f = r'.get? f) :
    ofRecord fields r = ofRecord fields r' :=
  List.map_congr_left h

theorem cellsIn_congr {field : String} {members members' : List Record}
    (h : List.Forall₂ (fun r r' => r.get? field = r'.get? field) members members') :
    cellsIn field members = cellsIn field members' := by
  unfold cellsIn
  induction h with
  | nil => rfl
  | cons hhead _ ih => rw [List.filterMap_cons, List.filterMap_cons, hhead, ih]

/-- What is derived from members depends on their cells in the source only. -/
theorem ApplyDefinition.derive_congr {d : ApplyDefinition} {members members' : List Record}
    (h : List.Forall₂ (fun r r' => r.get? d.field = r'.get? d.field) members members') :
    d.derive members = d.derive members' := by
  rw [derive_eq, derive_eq, cellsIn_congr h]

namespace Bucket

variable {α : Type} {R : α → α → Prop}

/-- Two buckets have the same key, and their members are related one by one. -/
def Related (R : α → α → Prop) (b b' : Bucket α) : Prop := b.key = b'.key ∧ List.Forall₂ R b.members b'.members

/-- Items that are related, put into related buckets under one key, leave related buckets. -/
theorem related_insert {key : GroupKey} {item item' : α} (hitem : R item item') {buckets buckets' : List (Bucket α)}
    (h : List.Forall₂ (Related R) buckets buckets') :
    List.Forall₂ (Related R) (insert key item buckets) (insert key item' buckets') := by
  induction h with
  | nil => exact .cons ⟨rfl, .cons hitem .nil⟩ .nil
  | @cons b b' rest rest' hb hrest ih =>
    rw [insert, insert, hb.1]
    split
    · exact .cons ⟨rfl, List.rel_append hb.2 (.cons hitem .nil)⟩ hrest
    · exact .cons hb ih

/-- Items that are related one by one, and related items have one key, are grouped into related buckets. -/
theorem related_group {key : α → GroupKey} (hkey : ∀ item item', R item item' → key item = key item') {items items' : List α}
    (h : List.Forall₂ R items items') : List.Forall₂ (Related R) (group key items) (group key items') := by
  refine List.rel_foldl (fun buckets buckets' hbuckets item item' hitem => ?_) List.Forall₂.nil h
  rw [hkey item item' hitem]
  exact related_insert hitem hbuckets

/-- Buckets of members that agree in the sources of the derived columns have the same records, or fail alike. -/
theorem summaries_congr {R : Record → Record → Prop} {fields : List String} {defs : List ApplyDefinition}
    {buckets buckets' : List (Bucket Record)} (hsources : ∀ d ∈ defs, ∀ r r', R r r' → r.get? d.field = r'.get? d.field)
    (h : List.Forall₂ (Related R) buckets buckets') : summaries fields defs buckets = summaries fields defs buckets' := by
  unfold summaries
  induction h with
  | nil => rfl
  | @cons b b' rest rest' hb _ ih =>
    have hsummary : summary fields defs b = summary fields defs b' := by
      rw [summary, summary, keyRecord, keyRecord, hb.1]
      refine foldlM_congr (fun d hd r => ?_) _
      rw [ApplyDefinition.derive_congr (hb.2.imp (hsources d hd))]
    rw [List.mapM_cons, List.mapM_cons, hsummary, ih]

end Bucket

/-! ## Answers -/

/-- A row shows the cells of its record in the display fields and nothing else of it. -/
theorem Row.ofRecord_congr {display : List String} {r r' : Record} (h : ∀ f ∈ display, r.get? f = r'.get? f) :
    ofRecord display r = ofRecord display r' := by
  rw [ofRecord_eq, ofRecord_eq]
  refine List.foldl_ext _ _ _ fun row f hf => ?_
  rw [withField, withField, h f hf]

namespace Plan

variable {p : Plan} {records records' : List Record}

theorem select_congr (h : List.Forall₂ p.AgreeOn records records') :
    List.Forall₂ p.AgreeOn (Criteria.select p.criteria records) (Criteria.select p.criteria records') := by
  refine List.rel_filter (fun r r' hr => ?_) h
  have haccept := Criteria.accept_congr fun c hc => Criterion.holds_congr (hr c.field (Or.inl ⟨c, hc, rfl⟩))
  exact iff_of_eq (congrArg (· = true) haccept)

/-- With groups, records that agree in what the plan reads have one source. -/
theorem source_congr (hgrouped : p.groupFields ≠ []) (h : List.Forall₂ p.AgreeOn records records') :
    p.source records = p.source records' := by
  have hgroup : ∀ r r', p.AgreeOn r r' → GroupKey.ofRecord p.groupFields r = GroupKey.ofRecord p.groupFields r' :=
    fun r r' hr => GroupKey.ofRecord_congr fun f hf => hr f (Or.inr (Or.inl hf))
  have hsources : ∀ d ∈ p.applyDefs, ∀ r r', p.AgreeOn r r' → r.get? d.field = r'.get? d.field :=
    fun d hd r r' hr => hr d.field (Or.inr (Or.inr (Or.inl ⟨d, hd, rfl⟩)))
  rw [source_of_grouped hgrouped, source_of_grouped hgrouped]
  exact Bucket.summaries_congr hsources (Bucket.related_group hgroup (select_congr h))

/-- Without groups, records that agree in what the plan reads show the same rows. -/
theorem map_ofRecord_congr (hplain : p.groupFields = []) (h : List.Forall₂ p.AgreeOn records records') :
    (Criteria.select p.criteria records).map (Row.ofRecord p.displayFields) =
      (Criteria.select p.criteria records').map (Row.ofRecord p.displayFields) := by
  rw [← List.forall₂_eq_eq_eq, List.forall₂_map_left_iff, List.forall₂_map_right_iff]
  exact (select_congr h).imp fun r r' hr =>
    Row.ofRecord_congr fun f hf => hr f (Or.inr (Or.inr (Or.inr ⟨hplain, hf⟩)))

/-- A plan answers alike over records that agree, one by one, in the fields that it reads. -/
theorem answer_congr (h : List.Forall₂ p.AgreeOn records records') : p.answer records = p.answer records' := by
  by_cases hplain : p.groupFields = []
  · simp only [answer, source_of_plain hplain]
    exact congrArg (fun rows => Except.ok ((p.order.sort rows).map (Row.qualify p.datasetId p.kind)))
      (map_ofRecord_congr hplain h)
  · rw [answer, answer, source_congr hplain h]

/-- Two courses, in a department whose failing students are counted; the records of the other list differ in every field that is not
read, and one of them has a field of another dataset. -/
theorem answer_congr_other_cells :
    let p : Plan := ⟨.courses, "c", [⟨"pass", .number .greaterThan, .number (.ofNat 5), none⟩], ["dept", "most"], ["dept"],
      [⟨"most", .max, "fail"⟩], ⟨.descending, ["most"]⟩, some (NameSet.ofNames ["dept", "most"])⟩
    let records := [Service.courseRecord, Service.courseRecord.insert "pass" (.number (.ofNat 3))]
    let records' := records.map fun r => (r.insert "title" (.text "")).insert "c_dept" (.text "other")
    List.Forall₂ p.AgreeOn records records' ∧ records ≠ records' ∧ p.answer records = p.answer records' := by
  intro p records records'
  have h : List.Forall₂ p.AgreeOn records records' := by
    refine List.forall₂_map_right_iff.2 (List.forall₂_same.2 fun r _ f hf => ?_)
    have hread : f = "pass" ∨ f = "dept" ∨ f = "fail" := by
      simpa [Reads, p, eq_comm] using hf
    rw [NameMap.get?_insert, NameMap.get?_insert]
    rcases hread with rfl | rfl | rfl <;> rfl
  exact ⟨h, by decide +kernel, answer_congr h⟩

end Plan

end SentenceQuery
