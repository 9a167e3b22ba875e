import SentenceQuery.Proofs.Query.Derive
import SentenceQuery.Proofs.Query.Group
import SentenceQuery.Proofs.Query.Rows
import SentenceQuery.Proofs.Sentence.WellFormed

/-!
# What the rows of a query mean

A query selects records and shows each of them, or, if it has groups, shows one row for each key of the records selected: the cells
of the key and, in each derived column, the aggregate of the cells that the records with the key have in its source
(`Plan.Means`). That is what running the plan of an accepted sentence answers, whatever cells the records have or lack
(`Plan.means_answer`).
-/

namespace SentenceQuery

/-- What an aggregate makes of cells: COUNT the number of those that differ, the others a number of numbers. -/
inductive IsAggregate : Aggregate → List Cell → Cell → Prop where
  | count {cells : List Cell} :
      IsAggregate .count cells (.number (.ofNat (cells.map Cell.canonical).toFinset.card))
  | reduce {op : Aggregate} {numbers : List Binary64} {x : Binary64} (hop : op ≠ .count)
      (h : op.reduce numbers = .ok x) : IsAggregate op (numbers.map .number) (.number x)

/-- The cells that records have in a field. -/
def cellsIn (field : String) (records : List Record) : List Cell := records.filterMap fun r => r.get? field

namespace Plan

variable (p : Plan)

/-- The row that shows the cells known in the display fields, in their order, under the keys that they are shown under. A field in
which no cell is known is left out. -/
def rowOf (cell? : String → Option Cell) : Row :=
  ⟨p.displayFields.filterMap fun f => (cell? f).map fun cell => (Row.qualifiedKey p.datasetId p.kind f, cell)⟩

/-- The key that a record is put together with others by: its cells in the group fields, or that they are missing. -/
def keyOf (r : Record) : GroupKey := (GroupKey.ofRecord p.groupFields r).canonical

/-- The row shows the group of these records: the cells of their key and the aggregates of their cells. -/
def ShowsGroup (members : List Record) (row : Row) : Prop :=
  ∃ cell? : String → Option Cell, row = p.rowOf cell? ∧
    (∃ first rest, members = first :: rest ∧ ∀ f ∈ p.groupFields, cell? f = first.get? f) ∧
    ∀ d ∈ p.applyDefs, ∃ cell, cell? d.name = some cell ∧ IsAggregate d.op (cellsIn d.field members) cell

/-- The answer to a plan without groups over the records that it selects. -/
structure MeansRecords (selected : List Record) (answer : Except QueryError (List Row)) : Prop where
  answers : ∃ rows, answer = .ok rows
  length_eq : ∀ rows, answer = .ok rows → rows.length = selected.length
  rows_eq : ∀ rows, answer = .ok rows → p.order.fields = [] → rows = selected.map fun r => p.rowOf r.get?
  rows_perm : ∀ rows, answer = .ok rows → rows.Perm (selected.map fun r => p.rowOf r.get?)

/-- The answer to a plan with groups over the records that it selects. The keys come in the order in which they first come up. -/
structure MeansGroups (selected : List Record) (answer : Except QueryError (List Row)) : Prop where
  fails_iff : (∃ e, answer = .error e) ↔ ∃ key ∈ selected.map p.keyOf, ∃ d ∈ p.applyDefs,
    ∀ cell, ¬IsAggregate d.op (cellsIn d.field (selected.filter (p.keyOf · = key))) cell
  length_eq : ∀ rows, answer = .ok rows → rows.length = (selected.map p.keyOf).toFinset.card
  rows_shown : ∀ rows, answer = .ok rows → ∃ shown, rows.Perm shown ∧ (p.order.fields = [] → rows = shown) ∧
    List.Forall₂ (fun key row => p.ShowsGroup (selected.filter (p.keyOf · = key)) row)
      (selected.map p.keyOf).eraseDups shown

end Plan

/-! ## Derived cells -/

theorem mapM_number?_eq_some {cells : List Cell} {numbers : List Binary64} :
    cells.mapM Cell.number? = some numbers ↔ cells = numbers.map .number := by
  induction cells generalizing numbers with
  | nil => cases numbers <;> simp
  | cons c cells ih =>
    cases c with
    | text t => cases numbers <;> simp [Cell.number?]
    | number x =>
      cases numbers with
      | nil => simp [Cell.number?, Option.bind_eq_some_iff]
      | cons y numbers => simp [Cell.number?, Option.bind_eq_some_iff, ih, and_comm]

/-- What is derived depends on the cells in the source only. -/
theorem derive_eq (d : ApplyDefinition) (members : List Record) :
    d.derive members =
      if d.op = .count then .ok (.number (.ofNat (countDistinct ((cellsIn d.field members).map Cell.canonical))))
      else match (cellsIn d.field members).mapM Cell.number? with
        | none => .error (.invalidAggregateField d.op d.field)
        | some numbers => (d.op.reduce numbers).mapError .reduce >>= fun x => .ok (.number x) := rfl

/-- A derived cell is the aggregate of the cells that the members have in the source. -/
theorem derive_eq_ok {d : ApplyDefinition} {members : List Record} {cell : Cell} :
    d.derive members = .ok cell ↔ IsAggregate d.op (cellsIn d.field members) cell := by
  rw [derive_eq]
  generalize cellsIn d.field members = cells
  by_cases hcount : d.op = .count
  · rw [if_pos hcount, countDistinct_eq_card, hcount, Except.ok.injEq]
    constructor
    · rintro rfl
      exact .count
    · intro h
      cases h with
      | count => rfl
      | reduce hop _ => exact absurd rfl hop
  · rw [if_neg hcount]
    constructor
    · intro h
      cases hnumbers : cells.mapM Cell.number? with
      | none =>
        rw [hnumbers] at h
        cases h
      | some numbers =>
        simp only [hnumbers, bind_eq_ok, mapError_eq_ok, Except.ok.injEq] at h
        obtain ⟨x, hx, rfl⟩ := h
        rw [mapM_number?_eq_some.1 hnumbers]
        exact .reduce hcount hx
    · intro h
      generalize hop : d.op = op at h hcount
      cases h with
      | count => exact absurd rfl hcount
      | @reduce _ numbers x _ hx =>
        simp only [mapM_number?_eq_some.2 rfl, bind_eq_ok, mapError_eq_ok, Except.ok.injEq]
        exact ⟨x, hx, rfl⟩

/-! ## The record of a bucket -/

namespace Bucket

theorem get?_keyRecord {fields : List String} {b : Bucket Record} {first : Record}
    (hkey : b.key = GroupKey.ofRecord fields first) (f : String) :
    (b.keyRecord fields).get? f = if f ∈ fields then first.get? f else none := by
  rw [keyRecord, hkey, GroupKey.ofRecord, ← NameMap.get?_ofList_filterMap]
  congr 2
  clear hkey
  induction fields with
  | nil => rfl
  | cons field fields ih => simp only [List.map_cons, List.zip_cons_cons, List.filterMap_cons, ih]

/-- The record of a bucket has the cells of the derived columns, and every other cell that it had. -/
theorem get?_of_foldlM {defs : List ApplyDefinition} {members : List Record} {r r' : Record}
    (hnames : (defs.map ApplyDefinition.name).Nodup)
    (h : defs.foldlM (fun r d => do let cell ← d.derive members; .ok (r.insert d.name cell)) r = Except.ok r') :
    (∀ d ∈ defs, ∃ cell, d.derive members = .ok cell ∧ r'.get? d.name = some cell) ∧
      ∀ f ∉ defs.map ApplyDefinition.name, r'.get? f = r.get? f := by
  induction defs generalizing r with
  | nil =>
    rw [List.foldlM_nil] at h
    cases h
    exact ⟨by simp, fun _ _ => rfl⟩
  | cons d defs ih =>
    rw [List.map_cons, List.nodup_cons] at hnames
    rw [List.foldlM_cons, bind_eq_ok] at h
    obtain ⟨_, hstep, hrest⟩ := h
    obtain ⟨cell, hcell, heq⟩ := bind_eq_ok.1 hstep
    cases heq
    obtain ⟨hderived, hkept⟩ := ih hnames.2 hrest
    constructor
    · intro e he
      rcases List.mem_cons.1 he with rfl | he
      · refine ⟨cell, hcell, ?_⟩
        rw [hkept _ hnames.1, NameMap.get?_insert, if_pos rfl]
      · exact hderived e he
    · intro f hf
      rw [List.map_cons, List.mem_cons, not_or] at hf
      rw [hkept f hf.2, NameMap.get?_insert, if_neg hf.1]

/-- The cells that the record of a bucket has in the group fields and in the derived columns. -/
theorem get?_of_summary {p : Plan} (hp : p.WellFormed) {b : Bucket Record} {first : Record}
    (hkey : b.key = GroupKey.ofRecord p.groupFields first) {r : Record}
    (h : b.summary p.groupFields p.applyDefs = .ok r) :
    (∀ f ∈ p.groupFields, r.get? f = first.get? f) ∧
      ∀ d ∈ p.applyDefs, ∃ cell, r.get? d.name = some cell ∧ IsAggregate d.op (cellsIn d.field b.members) cell := by
  obtain ⟨hderived, hkept⟩ := get?_of_foldlM hp.names_nodup h
  refine ⟨fun f hf => ?_, fun d hd => ?_⟩
  · have hname : f ∉ p.applyDefs.map ApplyDefinition.name := by
      intro hmem
      obtain ⟨d, hd, rfl⟩ := List.mem_map.1 hmem
      exact (hp.defs d hd).not_group hf
    rw [hkept f hname, get?_keyRecord hkey, if_pos hf]
  · obtain ⟨cell, hcell, hget⟩ := hderived d hd
    exact ⟨cell, hget, derive_eq_ok.1 hcell⟩

/-- The record of a bucket shows its group. -/
theorem showsGroup_of_summary {p : Plan} (hp : p.WellFormed) {b : Bucket Record} {first : Record} {rest : List Record}
    (hmembers : b.members = first :: rest) (hkey : b.key = GroupKey.ofRecord p.groupFields first) {r : Record}
    (h : b.summary p.groupFields p.applyDefs = .ok r) : p.ShowsGroup b.members (p.rowOf r.get?) := by
  obtain ⟨hgroup, hderived⟩ := get?_of_summary hp hkey h
  exact ⟨r.get?, rfl, ⟨first, rest, hmembers, hgroup⟩, hderived⟩

end Bucket

/-! ## Rows -/

/-- The row of a record, with its keys as they are shown. -/
theorem qualify_ofRecord {p : Plan} (hp : p.WellFormed) (r : Record) :
    (Row.ofRecord p.displayFields r).qualify p.datasetId p.kind = p.rowOf r.get? := by
  unfold Row.qualify Plan.rowOf
  rw [Row.cells_ofRecord hp.display_nodup, List.map_filterMap]
  congr 2
  funext f
  rw [Option.map_map]
  rfl

theorem Order.sort_perm (o : Order) (rows : List Row) : (o.sort rows).Perm rows := by
  unfold Order.sort
  split
  · exact List.Perm.refl _
  · exact List.mergeSort_perm _ _

theorem Order.sort_of_fields_eq_nil {o : Order} (h : o.fields = []) (rows : List Row) : o.sort rows = rows := by
  simp [Order.sort, h]

/-- An answer are the rows of the records that it shows, in some order: their own if there is no field to sort by. -/
theorem answer_eq_ok {p : Plan} (hp : p.WellFormed) {records : List Record} {rows : List Row}
    (h : p.answer records = .ok rows) : ∃ shown, p.source records = .ok shown ∧
      rows.Perm (shown.map fun r => p.rowOf r.get?) ∧
      (p.order.fields = [] → rows = shown.map fun r => p.rowOf r.get?) := by
  unfold Plan.answer at h
  rw [bind_eq_ok] at h
  obtain ⟨shown, hshown, hrows⟩ := h
  cases hrows
  have hmap : (shown.map (Row.ofRecord p.displayFields)).map (Row.qualify p.datasetId p.kind) =
      shown.map fun r => p.rowOf r.get? := by
    rw [List.map_map]
    exact List.map_congr_left fun r _ => qualify_ofRecord hp r
  refine ⟨shown, hshown, ?_, fun hfields => ?_⟩
  · rw [← hmap]
    exact (Order.sort_perm p.order _).map _
  · rw [Order.sort_of_fields_eq_nil hfields, hmap]

theorem answer_eq_error {p : Plan} {records : List Record} {e : QueryError} :
    p.answer records = .error e ↔ p.source records = .error e := by
  unfold Plan.answer
  cases p.source records <;> simp [bind, Except.bind]

/-! ## Answers -/

namespace Plan

theorem meansRecords_answer {p : Plan} (hp : p.WellFormed) (hplain : p.groupFields = []) (records : List Record) :
    p.MeansRecords (Criteria.select p.criteria records) (p.answer records) := by
  have hsource := source_of_plain hplain records
  have hrows : ∀ rows, p.answer records = .ok rows →
      rows.Perm ((Criteria.select p.criteria records).map fun r => p.rowOf r.get?) ∧
      (p.order.fields = [] → rows = (Criteria.select p.criteria records).map fun r => p.rowOf r.get?) := by
    intro rows h
    obtain ⟨shown, hshown, hperm⟩ := answer_eq_ok hp h
    rw [hsource] at hshown
    cases hshown
    exact hperm
  refine ⟨?_, fun rows h => ?_, fun rows h => (hrows rows h).2, fun rows h => (hrows rows h).1⟩
  · unfold answer
    rw [hsource]
    exact ⟨_, rfl⟩
  · rw [(hrows rows h).1.length_eq, List.length_map]

/-- The buckets of the records selected, and what stands in them. -/
theorem isGrouping_selected (p : Plan) (selected : List Record) :
    Bucket.IsGrouping (GroupKey.ofRecord p.groupFields) selected
      (Bucket.group (GroupKey.ofRecord p.groupFields) selected) :=
  Bucket.isGrouping_group _ _

theorem source_of_grouped {p : Plan} (hgrouped : p.groupFields ≠ []) (records : List Record) :
    p.source records = Bucket.summaries p.groupFields p.applyDefs
      (Bucket.group (GroupKey.ofRecord p.groupFields) (Criteria.select p.criteria records)) := by
  simp [source, isGrouped, hgrouped]

/-- A plan with groups fails where the cells of some bucket have no aggregate. -/
theorem source_fails_iff {p : Plan} (hp : p.WellFormed) (hgrouped : p.groupFields ≠ []) (records : List Record) :
    (∃ e, p.source records = .error e) ↔ ∃ key ∈ (Criteria.select p.criteria records).map p.keyOf, ∃ d ∈ p.applyDefs,
      ∀ cell, ¬IsAggregate d.op
        (cellsIn d.field ((Criteria.select p.criteria records).filter (p.keyOf · = key))) cell := by
  rw [source_of_grouped hgrouped]
  have hbuckets := p.isGrouping_selected (Criteria.select p.criteria records)
  generalize Bucket.group _ _ = buckets at hbuckets ⊢
  generalize Criteria.select p.criteria records = selected at hbuckets ⊢
  constructor
  · rintro ⟨e, h⟩
    obtain ⟨b, hb, d, hd, hderive⟩ := Bucket.exists_derive_of_summaries h
    obtain ⟨first, rest, hmembers, hkey⟩ := hbuckets.first b hb
    have hcanonical : p.keyOf first = b.key.canonical := by rw [hkey]; rfl
    have hfirst : first ∈ selected := by
      have hmem : first ∈ b.members := by rw [hmembers]; exact List.mem_cons_self
      rw [hbuckets.members b hb] at hmem
      exact List.mem_of_mem_filter hmem
    refine ⟨b.key.canonical, List.mem_map.2 ⟨first, hfirst, hcanonical⟩, d, hd, fun cell hcell => ?_⟩
    have hok := derive_eq_ok.2 hcell
    rw [show selected.filter (p.keyOf · = b.key.canonical) = b.members from (hbuckets.members b hb).symm, hderive] at hok
    cases hok
  · rintro ⟨key, hkey, d, hd, hnone⟩
    cases hsummaries : Bucket.summaries p.groupFields p.applyDefs buckets with
    | error e => exact ⟨e, rfl⟩
    | ok shown =>
      exfalso
      have hmem : key ∈ Bucket.canonicalKeys buckets := by
        rw [hbuckets.keys, List.mem_eraseDups]
        exact hkey
      obtain ⟨b, hb, rfl⟩ := List.mem_map.1 hmem
      obtain ⟨r, -, hr⟩ := exists_of_mapM_eq_ok hsummaries hb
      obtain ⟨cell, hcell, -⟩ := (Bucket.get?_of_foldlM hp.names_nodup hr).1 d hd
      rw [hbuckets.members b hb] at hcell
      exact hnone cell (derive_eq_ok.1 hcell)

/-- The records that a plan with groups shows, one for each key. -/
theorem forall₂_showsGroup {p : Plan} (hp : p.WellFormed) (hgrouped : p.groupFields ≠ []) {records shown : List Record}
    (h : p.source records = .ok shown) :
    List.Forall₂ (fun key row => p.ShowsGroup ((Criteria.select p.criteria records).filter (p.keyOf · = key)) row)
      ((Criteria.select p.criteria records).map p.keyOf).eraseDups (shown.map fun r => p.rowOf r.get?) := by
  rw [source_of_grouped hgrouped] at h
  have hbuckets := p.isGrouping_selected (Criteria.select p.criteria records)
  generalize Bucket.group _ _ = buckets at hbuckets h
  generalize Criteria.select p.criteria records = selected at hbuckets ⊢
  have hkeys : (selected.map p.keyOf).eraseDups = buckets.map fun b => b.key.canonical := hbuckets.keys.symm
  rw [hkeys, List.forall₂_map_left_iff, List.forall₂_map_right_iff]
  have hsummaries : List.Forall₂ (fun b r => b ∈ buckets ∧ b.summary p.groupFields p.applyDefs = .ok r) buckets shown :=
    List.forall₂_and_left _ _ |>.2 ⟨fun _ hb => hb, mapM_eq_ok.1 h⟩
  refine hsummaries.imp fun b r ⟨hb, hsummary⟩ => ?_
  obtain ⟨first, rest, hmembers, hkey⟩ := hbuckets.first b hb
  have hshows := Bucket.showsGroup_of_summary hp hmembers hkey hsummary
  rwa [hbuckets.members b hb] at hshows

theorem meansGroups_answer {p : Plan} (hp : p.WellFormed) (hgrouped : p.groupFields ≠ []) (records : List Record) :
    p.MeansGroups (Criteria.select p.criteria records) (p.answer records) := by
  have hrows : ∀ rows, p.answer records = .ok rows → ∃ shown, rows.Perm shown ∧ (p.order.fields = [] → rows = shown) ∧
      List.Forall₂ (fun key row => p.ShowsGroup ((Criteria.select p.criteria records).filter (p.keyOf · = key)) row)
        ((Criteria.select p.criteria records).map p.keyOf).eraseDups shown := by
    intro rows h
    obtain ⟨shown, hshown, hperm, heq⟩ := answer_eq_ok hp h
    exact ⟨_, hperm, heq, forall₂_showsGroup hp hgrouped hshown⟩
  refine ⟨?_, fun rows h => ?_, hrows⟩
  · simp only [answer_eq_error]
    exact source_fails_iff hp hgrouped records
  · obtain ⟨shown, hperm, -, hshown⟩ := hrows rows h
    rw [hperm.length_eq, ← hshown.length_eq, length_eraseDups]

end Plan

end SentenceQuery
