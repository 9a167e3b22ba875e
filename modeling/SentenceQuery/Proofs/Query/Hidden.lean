import Mathlib.Data.List.Perm.Subperm
import SentenceQuery.Proofs.Query.Unread

/-!
# Derived columns that are not shown

The record of a bucket has the same cell in a column whichever other columns are derived with it, and in whichever order: the
names of derived columns differ, and each cell is derived from the members of the bucket alone
(`Bucket.exists_summary_of_subperm`). So a query that answers at all answers the same without the columns that it does not show,
and with its columns in any order (`Plan.answer_withDefs`).
-/

namespace SentenceQuery

namespace Bucket

variable {fields : List String} {defs defs' : List ApplyDefinition}

/-- A bucket has a record if each column can be derived from its members. -/
theorem exists_summary {b : Bucket Record} (h : ∀ d ∈ defs, ∃ cell, d.derive b.members = .ok cell) :
    ∃ r, b.summary fields defs = .ok r := by
  unfold summary
  generalize b.keyRecord fields = r
  induction defs generalizing r with
  | nil => exact ⟨r, rfl⟩
  | cons d defs ih =>
    obtain ⟨⟨cell, hcell⟩, hrest⟩ := List.forall_mem_cons.1 h
    obtain ⟨r', hr'⟩ := ih hrest (r.insert d.name cell)
    exact ⟨r', by rw [List.foldlM_cons, hcell]; exact hr'⟩

/-- With some of the columns only, in any order, the record of a bucket has the same cells but in the columns left out. -/
theorem exists_summary_of_subperm (hnames : (defs.map ApplyDefinition.name).Nodup) (hsub : defs'.Subperm defs)
    {b : Bucket Record} {r : Record} (h : b.summary fields defs = .ok r) :
    ∃ r', b.summary fields defs' = .ok r' ∧ ∀ f, (∀ d ∈ defs, d.name = f → d ∈ defs') → r'.get? f = r.get? f := by
  obtain ⟨hderived, hkept⟩ := get?_of_foldlM hnames h
  have hnames' : (defs'.map ApplyDefinition.name).Nodup := by
    obtain ⟨l, hperm, hsublist⟩ := hsub
    exact (hperm.map _).nodup_iff.1 ((hsublist.map _).nodup hnames)
  obtain ⟨r', hr'⟩ : ∃ r', b.summary fields defs' = .ok r' := exists_summary fun d hd =>
    (hderived d (hsub.subset hd)).imp fun cell hcell => hcell.1
  obtain ⟨hderived', hkept'⟩ := get?_of_foldlM hnames' hr'
  refine ⟨r', hr', fun f hf => ?_⟩
  by_cases hmem : f ∈ defs'.map ApplyDefinition.name
  · obtain ⟨d, hd, rfl⟩ := List.mem_map.1 hmem
    obtain ⟨cell, hcell, hget⟩ := hderived d (hsub.subset hd)
    obtain ⟨cell', hcell', hget'⟩ := hderived' d hd
    rw [hcell] at hcell'
    cases hcell'
    rw [hget, hget']
  · have hnone : f ∉ defs.map ApplyDefinition.name := by
      intro hname
      obtain ⟨d, hd, rfl⟩ := List.mem_map.1 hname
      exact hmem (List.mem_map_of_mem (hf d hd rfl))
    rw [hkept f hnone, hkept' f hmem]

theorem exists_summaries_of_subperm (hnames : (defs.map ApplyDefinition.name).Nodup) (hsub : defs'.Subperm defs)
    {buckets : List (Bucket Record)} {shown : List Record} (h : summaries fields defs buckets = .ok shown) :
    ∃ shown', summaries fields defs' buckets = .ok shown' ∧
      List.Forall₂ (fun r r' => ∀ f, (∀ d ∈ defs, d.name = f → d ∈ defs') → r'.get? f = r.get? f) shown shown' := by
  have hbuckets := mapM_eq_ok.1 h
  clear h
  induction hbuckets with
  | nil => exact ⟨[], rfl, .nil⟩
  | @cons b r buckets shown hb _ ih =>
    obtain ⟨r', hr', hcells⟩ := exists_summary_of_subperm hnames hsub hb
    obtain ⟨shown', hshown', hrest⟩ := ih
    exact ⟨r' :: shown', mapM_eq_ok.2 (.cons hr' (mapM_eq_ok.1 hshown')), .cons hcells hrest⟩

end Bucket

namespace Plan

/-- The plan with other derived columns. -/
def withDefs (p : Plan) (defs : List ApplyDefinition) : Plan := { p with applyDefs := defs }

/-- Without columns that are not shown, and with the others in any order, the records of a plan show the same rows. -/
theorem exists_source_of_subperm {p : Plan} (hnames : (p.applyDefs.map ApplyDefinition.name).Nodup)
    {defs : List ApplyDefinition} (hsub : defs.Subperm p.applyDefs)
    (hshown : ∀ d ∈ p.applyDefs, d.name ∈ p.displayFields → d ∈ defs) {records source : List Record}
    (h : p.source records = .ok source) :
    ∃ source', (p.withDefs defs).source records = .ok source' ∧
      source'.map (Row.ofRecord p.displayFields) = source.map (Row.ofRecord p.displayFields) := by
  by_cases hplain : p.groupFields = []
  · rw [source_of_plain hplain] at h
    have hsource : (p.withDefs defs).source records = .ok (Criteria.select p.criteria records) :=
      source_of_plain (p := p.withDefs defs) hplain records
    cases h
    exact ⟨_, hsource, rfl⟩
  · rw [source_of_grouped hplain] at h
    obtain ⟨source', hsource', hcells⟩ := Bucket.exists_summaries_of_subperm hnames hsub h
    have hsource : (p.withDefs defs).source records = .ok source' := by
      rw [source_of_grouped (p := p.withDefs defs) hplain]
      exact hsource'
    refine ⟨source', hsource, ?_⟩
    rw [← List.forall₂_eq_eq_eq, List.forall₂_map_left_iff, List.forall₂_map_right_iff]
    refine hcells.flip.imp fun r' r hr => Row.ofRecord_congr fun f hf => hr f ?_
    rintro d hd rfl
    exact hshown d hd hf

/-- The plan of an accepted sentence answers the same, where it answers, without any of the derived columns that it does not
show, and with the others in any order. -/
theorem answer_withDefs {sentence : String} {p : Plan} (h : ofSentence sentence = .ok p) {records : List Record}
    {rows : List Row} (hrows : p.answer records = .ok rows) {defs : List ApplyDefinition} (hsub : defs.Subperm p.applyDefs)
    (hshown : ∀ d ∈ p.applyDefs, d.name ∈ p.displayFields → d ∈ defs) :
    (p.withDefs defs).answer records = .ok rows := by
  unfold answer at hrows
  obtain ⟨source, hsource, hsorted⟩ := bind_eq_ok.1 hrows
  obtain ⟨source', hsource', heq⟩ :=
    exists_source_of_subperm (wellFormed_of_ofSentence h).names_nodup hsub hshown hsource
  rw [answer, hsource', ok_bind, ← hsorted]
  exact congrArg (fun shown => Except.ok ((p.order.sort shown).map (Row.qualify p.datasetId p.kind))) heq

/-- Two departments, sorted by one of three columns. One of them is not shown and left out, and the other two change places. -/
theorem answer_withDefs_two_of_three :
    let most : ApplyDefinition := ⟨"most", .max, "pass"⟩
    let titles : ApplyDefinition := ⟨"titles", .count, "title"⟩
    let p : Plan := ⟨.courses, "c", [], ["dept", "titles", "most"], ["dept"], [most, ⟨"mean", .avg, "avg"⟩, titles],
      ⟨.descending, ["most"]⟩, some (NameSet.ofNames ["dept", "most", "mean", "titles"])⟩
    let course (dept : String) (pass avg : Nat) : Record :=
      NameMap.ofList [("dept", .text dept), ("pass", .number (.ofNat pass)), ("avg", .number (.ofNat avg))]
    let records := [course "math" 5 70, course "cpsc" 8 90, course "cpsc" 3 80]
    let rows : List Row := [⟨[("c_dept", .text "cpsc"), ("titles", .number .zero), ("most", .number (.ofNat 8))]⟩,
      ⟨[("c_dept", .text "math"), ("titles", .number .zero), ("most", .number (.ofNat 5))]⟩]
    ofSentence ("In courses dataset c grouped by Department, find all entries; show Department, titles and most, where " ++
      "most is the MAX of Pass, mean is the AVG of Average and titles is the COUNT of Title; sort in descending order by " ++
      "most.") = .ok p ∧
      p.answer records = .ok rows ∧ [titles, most].Subperm p.applyDefs ∧
      (∀ d ∈ p.applyDefs, d.name ∈ p.displayFields → d ∈ [titles, most]) ∧
      (p.withDefs [titles, most]).answer records = .ok rows := by
  intro most titles p course records rows
  have h : ofSentence ("In courses dataset c grouped by Department, find all entries; show Department, titles and most, where " ++
      "most is the MAX of Pass, mean is the AVG of Average and titles is the COUNT of Title; sort in descending order by " ++
      "most.") = .ok p := by
    decide +kernel
  have hrows : p.answer records = .ok rows := by
    let cpsc : Row := ⟨[("dept", .text "cpsc"), ("titles", .number .zero), ("most", .number (.ofNat 8))]⟩
    let math : Row := ⟨[("dept", .text "math"), ("titles", .number .zero), ("most", .number (.ofNat 5))]⟩
    have hshown : (p.source records).map (List.map (Row.ofRecord p.displayFields)) = .ok [math, cpsc] := by decide +kernel
    have hbefore : (p.order.compare math cpsc).isLE = false := by decide +kernel
    have hsort : p.order.sort [math, cpsc] = [cpsc, math] := by
      simp [Order.sort, List.mergeSort, List.MergeSort.Internal.splitInTwo, hbefore, p]
    calc p.answer records
        = ((p.source records).map (List.map (Row.ofRecord p.displayFields))).map fun shown =>
            (p.order.sort shown).map (Row.qualify p.datasetId p.kind) := by rw [answer]; cases p.source records <;> rfl
      _ = .ok ([cpsc, math].map (Row.qualify p.datasetId p.kind)) := by rw [hshown, Except.map, hsort]
      _ = .ok rows := by decide +kernel
  have hsub : [titles, most].Subperm p.applyDefs := ⟨[most, titles], .swap _ _ _, by decide⟩
  have hkept : ∀ d ∈ p.applyDefs, d.name ∈ p.displayFields → d ∈ [titles, most] := by decide +kernel
  exact ⟨h, hrows, hsub, hkept, answer_withDefs h hrows hsub hkept⟩

end Plan

end SentenceQuery
