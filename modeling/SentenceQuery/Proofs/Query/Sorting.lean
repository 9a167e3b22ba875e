import SentenceQuery.Proofs.Aggregate
import SentenceQuery.Proofs.Dataset.Service
import SentenceQuery.Proofs.Query.Meaning
import SentenceQuery.Proofs.Query.WeakOrder

/-!
# When rows can be sorted

Rows that have no cell to be sorted by tie with all others, and so do rows of which one has a number and the other a text. Over
records without NaNs each field of the kind and each derived column has cells of one type in all rows, and rows are sorted by
these as they should be. Any other column orders the rows weakly just if it has cells of one type in all of them or no two of them
differ by it (`Row.Sortable`, `Service.ordersWeakly_compare`).
-/

namespace SentenceQuery

/-! ## Cells that are no NaN -/

/-- The cell is no NaN. -/
def Cell.NaNFree : Cell → Prop
  | .number x => x.isNaN = false
  | .text _ => True

instance : (cell : Cell) → Decidable cell.NaNFree
  | .number x => inferInstanceAs (Decidable (x.isNaN = false))
  | .text _ => inferInstanceAs (Decidable True)

/-- No cell of the record is a NaN. -/
def Record.NaNFree (r : Record) : Prop := ∀ e ∈ r.entries, e.2.NaNFree

instance (r : Record) : Decidable r.NaNFree := inferInstanceAs (Decidable (∀ e ∈ r.entries, e.2.NaNFree))

theorem Record.NaNFree.cell {r : Record} (h : Record.NaNFree r) {field : String} {cell : Cell}
    (hget : r.get? field = some cell) : cell.NaNFree :=
  h (field, cell) (NameMap.get?_eq_some_iff.1 hget)

/-- No cell of the records that a call adds is a NaN. -/
def Call.NaNFree : Call → Prop
  | .add _ _ records => ∀ r ∈ records, Record.NaNFree r
  | .remove _ => True

instance : (call : Call) → Decidable call.NaNFree
  | .add _ _ records => inferInstanceAs (Decidable (∀ r ∈ records, Record.NaNFree r))
  | .remove _ => inferInstanceAs (Decidable True)

/-- An aggregate is a number, and no NaN. -/
theorem IsAggregate.number {op : Aggregate} {cells : List Cell} {cell : Cell} (h : IsAggregate op cells cell) :
    cell.fieldType = .number ∧ cell.NaNFree := by
  cases h with
  | count => exact ⟨rfl, Binary64.isNaN_ofCode _ _⟩
  | reduce _ hreduce => exact ⟨rfl, Aggregate.isNaN_reduce hreduce⟩

namespace Service

/-- The records of a stored dataset conform to its kind and have no NaNs, if none was ever added. -/
theorem records_of_hasRecords {limits : Limits} {calls : List Call} (hcalls : ∀ call ∈ calls, call.NaNFree) {p : Plan}
    {records : List Record} (h : ((start limits).run calls).HasRecords p records) :
    ∀ r ∈ records, p.kind.conforms r = true ∧ Record.NaNFree r := by
  obtain ⟨d, hget, hkind, rfl⟩ := h
  obtain ⟨kind, given, hmem, hadded⟩ := exists_added_of_get?_run hget
  intro r hr
  refine ⟨hkind ▸ hadded.conforming.2 r hr, ?_⟩
  have hall : ∀ r ∈ given, Record.NaNFree r := hcalls _ hmem
  obtain rfl := hadded.dataset_eq
  exact hall r (List.mem_filter.1 hr).1

end Service

/-! ## Comparing by one field -/

namespace Row

/-- No cell of the row is a NaN. -/
def NaNFree (row : Row) : Prop := ∀ field cell, row.get? field = some cell → cell.NaNFree

/-- Every row has a cell of the type in the field. -/
def AllOf (field : String) (type : FieldType) (rows : List Row) : Prop :=
  ∀ row ∈ rows, ∃ cell, row.get? field = some cell ∧ cell.fieldType = type

/-- The rows have cells of one type in the field, or all tie by it. -/
def Sortable (field : String) (rows : List Row) : Prop :=
  (∃ type, AllOf field type rows) ∨ ∀ a ∈ rows, ∀ b ∈ rows, compareBy field a b = .eq

variable {field : String} {rows : List Row}

/-- The place of the number in a field. -/
def placeIn (field : String) (row : Row) : Int := (((row.get? field).bind Cell.number?).map Binary64.place).getD 0

/-- The text in a field. -/
def textIn (field : String) (row : Row) : String := ((row.get? field).bind Cell.text?).getD ""

theorem ordersWeakly_compareBy_of_allOf {type : FieldType} (h : AllOf field type rows)
    (hrows : ∀ row ∈ rows, ∀ cell, row.get? field = some cell → cell.NaNFree) : OrdersWeakly (compareBy field) rows := by
  cases type with
  | number =>
    refine (OrdersWeakly.ofKey (placeIn field) rows).congr fun a ha b hb => ?_
    obtain ⟨c, hc, hctype⟩ := h a ha
    obtain ⟨d, hd, hdtype⟩ := h b hb
    have hcNaN := hrows a ha c hc
    have hdNaN := hrows b hb d hd
    cases c with
    | text t => cases hctype
    | number x =>
      cases d with
      | text t => cases hdtype
      | number y =>
        have hx : x.isNaN = false := hcNaN
        have hy : y.isNaN = false := hdNaN
        simp [compareBy, placeIn, hc, hd, Cell.compareForSort, Cell.number?, Binary64.compare?, hx, hy]
  | text =>
    refine (OrdersWeakly.ofKey (textIn field) rows).congr fun a ha b hb => ?_
    obtain ⟨c, hc, hctype⟩ := h a ha
    obtain ⟨d, hd, hdtype⟩ := h b hb
    cases c with
    | number x => cases hctype
    | text t =>
      cases d with
      | number y => cases hdtype
      | text u => simp [compareBy, textIn, hc, hd, Cell.compareForSort, Cell.text?]

/-- Rows of which one has no cell of the type that the other has tie. -/
theorem compareBy_eq_of_ne {a b : Row} {type : FieldType} (ha : ∃ cell, a.get? field = some cell ∧ cell.fieldType = type)
    (hb : ¬∃ cell, b.get? field = some cell ∧ cell.fieldType = type) : compareBy field a b = .eq ∧ compareBy field b a = .eq := by
  obtain ⟨c, hc, rfl⟩ := ha
  unfold compareBy
  rw [hc]
  cases hget : b.get? field with
  | none => exact ⟨rfl, rfl⟩
  | some d =>
    have hne : d.fieldType ≠ c.fieldType := fun heq => hb ⟨d, hget, heq⟩
    cases c <;> cases d <;> first | exact ⟨rfl, rfl⟩ | exact absurd rfl hne

/-- Rows without NaNs are ordered weakly by a field just if they are sortable by it. -/
theorem ordersWeakly_compareBy_iff (hrows : ∀ row ∈ rows, row.NaNFree) :
    OrdersWeakly (compareBy field) rows ↔ Sortable field rows := by
  constructor
  · intro h
    by_contra hnot
    obtain ⟨hmixed, hdiffer⟩ := not_or.1 hnot
    push Not at hdiffer
    obtain ⟨a, ha, b, hb, hab⟩ := hdiffer
    -- the two that differ have cells of one type, and some row has none of that type: it ties with both
    have hcell : ∃ cell, a.get? field = some cell := by
      cases hget : a.get? field with
      | none => exact absurd (by simp [compareBy, hget]) hab
      | some cell => exact ⟨cell, rfl⟩
    obtain ⟨cell, hcell⟩ := hcell
    have hall : ¬AllOf field cell.fieldType rows := fun hall => hmixed ⟨_, hall⟩
    unfold AllOf at hall
    push Not at hall
    obtain ⟨c, hc, hnone⟩ := hall
    have hbType : ∃ cell', b.get? field = some cell' ∧ cell'.fieldType = cell.fieldType := by
      by_contra hb'
      exact hab (compareBy_eq_of_ne ⟨cell, hcell, rfl⟩ hb').1
    have hc' : ¬∃ cell', c.get? field = some cell' ∧ cell'.fieldType = cell.fieldType := fun ⟨d, hd, hdtype⟩ =>
      hnone d hd hdtype
    have hac := (compareBy_eq_of_ne ⟨cell, hcell, rfl⟩ hc').1
    have hcb := (compareBy_eq_of_ne hbType hc').2
    exact hab (h.eq_trans a ha c hc b hb hac hcb)
  · rintro (⟨type, hall⟩ | hties)
    · exact ordersWeakly_compareBy_of_allOf hall fun row hrow => hrows row hrow field
    · exact OrdersWeakly.ofTies hties

/-- The row of a record has no NaN if the record has none in the display fields. -/
theorem naNFree_ofRecord {display : List String} {r : Record}
    (h : ∀ f ∈ display, ∀ cell, r.get? f = some cell → cell.NaNFree) : (ofRecord display r).NaNFree := by
  intro f cell hget
  have hmem : f ∈ display := by
    refine mem_display_of_mem_keys (r := r) ?_
    obtain ⟨e, hfind, -⟩ := Option.map_eq_some_iff.1 hget
    have hkey : e.1 = f := by simpa using List.find?_some hfind
    exact hkey ▸ List.mem_map_of_mem (List.mem_of_find?_eq_some hfind)
  rw [get?_ofRecord hmem] at hget
  exact h f hmem cell hget

end Row

/-! ## Comparing by the fields of an order -/

namespace Order

variable {o : Order} {rows : List Row}

/-- Where every field orders the rows weakly, so do the fields one behind the other. -/
theorem ordersWeakly_of_fields (h : ∀ f ∈ o.fields, OrdersWeakly (Row.compareBy f) rows) : OrdersWeakly o.compare rows := by
  obtain ⟨direction, fields⟩ := o
  have hcascade : OrdersWeakly
      (fun a b => fields.foldr (fun field rest => (Row.compareBy field a b).then rest) .eq) rows := by
    simp only at h
    induction fields with
    | nil => exact OrdersWeakly.ofTies fun _ _ _ _ => rfl
    | cons f fields ih => exact (h f List.mem_cons_self).andThen (ih fun g hg => h g (List.mem_cons_of_mem _ hg))
  exact hcascade.directed direction

theorem ordersWeakly_field_iff {f : String} (h : o.fields = [f]) :
    OrdersWeakly o.compare rows ↔ OrdersWeakly (Row.compareBy f) rows := by
  have hcompare : o.compare = fun a b => o.direction.apply (Row.compareBy f a b) := by
    funext a b
    simp [compare, h]
  rw [hcompare, OrdersWeakly.directed_iff]

/-- Rows are merge-sorted, also where there is no field to sort by. -/
theorem sort_eq_mergeSort (o : Order) (rows : List Row) : o.sort rows = rows.mergeSort fun a b => (o.compare a b).isLE := by
  unfold sort
  split
  · rename_i hempty
    refine (List.mergeSort_of_pairwise (List.pairwise_of_forall_mem_list fun a _ b _ => ?_)).symm
    rw [List.isEmpty_iff] at hempty
    cases hdirection : o.direction <;> simp [compare, hempty, hdirection, Direction.apply]
  · rfl

end Order

/-! ## The rows of a query -/

namespace Plan

/-- What the records that a plan shows have in its display fields: no NaNs, and cells of one type in a field of the kind and in a
derived column. -/
structure ShowsTyped (p : Plan) (shown : List Record) : Prop where
  naNFree : ∀ r ∈ shown, ∀ f ∈ p.displayFields, ∀ cell, r.get? f = some cell → cell.NaNFree
  typed : ∀ f ∈ p.displayFields, p.kind.isField f = true ∨ f ∈ p.applyDefs.map ApplyDefinition.name →
    ∃ type, ∀ r ∈ shown, HasCell r f type

theorem showsTyped_of_selected {p : Plan} (hp : p.WellFormed) (hplain : p.groupFields = []) {shown : List Record}
    (h : ∀ r ∈ shown, p.kind.conforms r = true ∧ Record.NaNFree r) : p.ShowsTyped shown where
  naNFree := fun r hr _ _ _ hget => (h r hr).2.cell hget
  typed := by
    rintro f - (hfield | hname)
    · obtain ⟨type, htype⟩ := Option.isSome_iff_exists.1 hfield
      exact ⟨type, fun r hr => hasCell_of_conforms (h r hr).1 htype⟩
    · have hnone : p.applyDefs = [] := by
        by_contra hne
        exact hp.defs_grouped hne hplain
      rw [hnone] at hname
      cases hname

theorem showsTyped_of_groups {p : Plan} (hp : p.WellFormed) (hgrouped : p.groupFields ≠ []) {selected shown : List Record}
    (h : ∀ r ∈ selected, p.kind.conforms r = true ∧ Record.NaNFree r)
    (hshown : Bucket.summaries p.groupFields p.applyDefs (Bucket.group (GroupKey.ofRecord p.groupFields) selected) =
      .ok shown) : p.ShowsTyped shown := by
  -- each record shown is that of a bucket of records selected
  have hbucket : ∀ r ∈ shown, ∃ first, (p.kind.conforms first = true ∧ Record.NaNFree first) ∧
      (∀ f ∈ p.groupFields, r.get? f = first.get? f) ∧
      ∀ d ∈ p.applyDefs, ∃ cell, r.get? d.name = some cell ∧ cell.fieldType = .number ∧ cell.NaNFree := by
    intro r hr
    obtain ⟨b, hb, hsummary⟩ := exists_mem_of_mapM_eq_ok hshown hr
    obtain ⟨first, rest, hmembers, hkey⟩ := (p.isGrouping_selected selected).first b hb
    have hall := (Bucket.isOver_group h b hb).2
    obtain ⟨hgroup, hderived⟩ := Bucket.get?_of_summary hp hkey hsummary
    refine ⟨first, hall first (by rw [hmembers]; exact List.mem_cons_self), hgroup, fun d hd => ?_⟩
    obtain ⟨cell, hcell, haggregate⟩ := hderived d hd
    exact ⟨cell, hcell, haggregate.number⟩
  refine ⟨fun r hr f hf cell hget => ?_, fun f hf hcolumn => ?_⟩
  · obtain ⟨first, hfirst, hgroup, hderived⟩ := hbucket r hr
    rcases hp.mem_of_display hgrouped hf with hmem | hname
    · rw [hgroup f hmem] at hget
      exact hfirst.2.cell hget
    · obtain ⟨d, hd, rfl⟩ := List.mem_map.1 hname
      obtain ⟨cell', hcell', -, hNaN⟩ := hderived d hd
      rw [hget, Option.some.injEq] at hcell'
      exact hcell' ▸ hNaN
  · by_cases hname : f ∈ p.applyDefs.map ApplyDefinition.name
    · refine ⟨.number, fun r hr => ?_⟩
      obtain ⟨_, -, -, hderived⟩ := hbucket r hr
      obtain ⟨d, hd, rfl⟩ := List.mem_map.1 hname
      obtain ⟨cell, hcell, htype, -⟩ := hderived d hd
      exact ⟨cell, hcell, htype⟩
    · have hmem : f ∈ p.groupFields := (hp.mem_of_display hgrouped hf).resolve_right hname
      obtain ⟨type, htype⟩ := Option.isSome_iff_exists.1 (hcolumn.resolve_right hname)
      refine ⟨type, fun r hr => ?_⟩
      obtain ⟨first, hfirst, hgroup, -⟩ := hbucket r hr
      obtain ⟨cell, hcell, hcellType⟩ := hasCell_of_conforms hfirst.1 htype
      exact ⟨cell, (hgroup f hmem).trans hcell, hcellType⟩

theorem showsTyped_of_source {p : Plan} (hp : p.WellFormed) {records shown : List Record}
    (hrecords : ∀ r ∈ records, p.kind.conforms r = true ∧ Record.NaNFree r) (h : p.source records = .ok shown) :
    p.ShowsTyped shown := by
  have hselected : ∀ r ∈ Criteria.select p.criteria records, p.kind.conforms r = true ∧ Record.NaNFree r := fun r hr =>
    hrecords r (List.mem_filter.1 hr).1
  by_cases hgrouped : p.groupFields = []
  · rw [source_of_plain hgrouped] at h
    cases h
    exact showsTyped_of_selected hp hgrouped hselected
  · rw [source_of_grouped hgrouped] at h
    exact showsTyped_of_groups hp hgrouped hselected h

end Plan

namespace Service

/-- The sentence is accepted with this plan, and these are the rows that are sorted for its answer. -/
def Sorts (s : Service) (sentence : String) (p : Plan) (rows : List Row) : Prop :=
  ∃ records shown, Plan.ofSentence sentence = .ok p ∧ s.HasRecords p records ∧ p.source records = .ok shown ∧
    rows = shown.map (Row.ofRecord p.displayFields)

/-- An answer are the rows that were sorted for it, with their keys as they are shown. -/
theorem answer_eq_of_sorts {s : Service} {sentence : String} {p : Plan} {rows answer : List Row}
    (h : s.Sorts sentence p rows) (hanswer : s.query sentence = .ok answer) :
    answer = (p.order.sort rows).map (Row.qualify p.datasetId p.kind) := by
  obtain ⟨records, shown, hsentence, ⟨d, hget, -, rfl⟩, hshown, rfl⟩ := h
  obtain ⟨-, p', records', hsentence', ⟨d', hget', -, rfl⟩, hrows⟩ := query_eq_ok.1 hanswer
  rw [hsentence, Except.ok.injEq] at hsentence'
  subst hsentence'
  rw [hget, Option.some.injEq] at hget'
  subst hget'
  rw [Plan.answer, hshown] at hrows
  cases hrows
  rfl

/-- Whatever was added and removed before, without NaNs: if the rows are sortable by every column to sort by that is neither a
field of the kind nor derived, the order is a weak order of the rows, and their only stable sorting is what is answered. By a
single column they are ordered weakly only if they are sortable by it. -/
theorem ordersWeakly_compare {limits : Limits} {calls : List Call} (hcalls : ∀ call ∈ calls, call.NaNFree)
    {sentence : String} {p : Plan} {rows : List Row} (h : ((start limits).run calls).Sorts sentence p rows) :
    ((∀ f ∈ p.order.fields, p.kind.isField f = false → f ∉ p.applyDefs.map ApplyDefinition.name → Row.Sortable f rows) →
      OrdersWeakly p.order.compare rows ∧
        ∀ sorted, SortedStably p.order.compare rows sorted ↔ sorted = p.order.sort rows) ∧
    (∀ f, p.order.fields = [f] → (OrdersWeakly p.order.compare rows ↔ Row.Sortable f rows)) ∧
    ∀ answer, ((start limits).run calls).query sentence = .ok answer →
      answer = (p.order.sort rows).map (Row.qualify p.datasetId p.kind) := by
  have hanswer : ∀ answer, ((start limits).run calls).query sentence = .ok answer →
      answer = (p.order.sort rows).map (Row.qualify p.datasetId p.kind) := fun _ => answer_eq_of_sorts h
  obtain ⟨records, shown, hsentence, hrecords, hshown, rfl⟩ := h
  obtain ⟨_, _, _, _, _, _, hhead, hfilter, hread, htail, hplan, hvalid⟩ := ofSentence_eq_ok.1 hsentence
  have hp : p.WellFormed := hplan ▸ wellFormed_ofParts hhead hfilter hread htail (hplan ▸ hvalid)
  have htyped := Plan.showsTyped_of_source hp (records_of_hasRecords hcalls hrecords) hshown
  have hNaN : ∀ row ∈ shown.map (Row.ofRecord p.displayFields), row.NaNFree := by
    intro row hrow
    obtain ⟨r, hr, rfl⟩ := List.mem_map.1 hrow
    exact Row.naNFree_ofRecord (htyped.naNFree r hr)
  refine ⟨fun hextra => ?_, fun f hf => ?_, hanswer⟩
  · have hsortable : ∀ f ∈ p.order.fields, Row.Sortable f (shown.map (Row.ofRecord p.displayFields)) := by
      intro f hf
      by_cases hcolumn : p.kind.isField f = true ∨ f ∈ p.applyDefs.map ApplyDefinition.name
      · obtain ⟨type, hcells⟩ := htyped.typed f (hp.order_shown f hf) hcolumn
        refine Or.inl ⟨type, fun row hrow => ?_⟩
        obtain ⟨r, hr, rfl⟩ := List.mem_map.1 hrow
        rw [Row.get?_ofRecord (hp.order_shown f hf)]
        exact hcells r hr
      · rw [not_or, Bool.not_eq_true] at hcolumn
        exact hextra f hf hcolumn.1 hcolumn.2
    have horder : OrdersWeakly p.order.compare (shown.map (Row.ofRecord p.displayFields)) :=
      Order.ordersWeakly_of_fields fun f hf => (Row.ordersWeakly_compareBy_iff hNaN).2 (hsortable f hf)
    refine ⟨horder, fun sorted => ?_⟩
    rw [Order.sort_eq_mergeSort]
    exact horder.sortedStably_iff
  · rw [Order.ordersWeakly_field_iff hf, Row.ordersWeakly_compareBy_iff hNaN]

/-- Courses sorted by a field of the kind and then by a column of which every record has a number. -/
theorem ordersWeakly_compare_two_columns :
    let calls : List Call := [.add "c" .courses [courseRecord.insert "x" (.number (.ofNat 2)),
      courseRecord.insert "x" (.number (.ofNat 1))]]
    let p : Plan := ⟨.courses, "c", [], ["dept", "x"], [], [], ⟨.descending, ["dept", "x"]⟩, none⟩
    let rows : List Row := [⟨[("dept", .text "cpsc"), ("x", .number (.ofNat 2))]⟩,
      ⟨[("dept", .text "cpsc"), ("x", .number (.ofNat 1))]⟩]
    (∀ call ∈ calls, call.NaNFree) ∧
      ((start Limits.default).run calls).Sorts
        "In courses dataset c, find all entries; show Department and x; sort in descending order by Department and x."
        p rows ∧
      OrdersWeakly p.order.compare rows := by
  intro calls p rows
  have hcalls : ∀ call ∈ calls, call.NaNFree := by decide +kernel
  have hsorts : ((start Limits.default).run calls).Sorts
      "In courses dataset c, find all entries; show Department and x; sort in descending order by Department and x."
      p rows := by
    refine ⟨[courseRecord.insert "x" (.number (.ofNat 2)), courseRecord.insert "x" (.number (.ofNat 1))], _, ?_, ?_, rfl, ?_⟩
    · decide +kernel
    · exact ⟨⟨.courses, _⟩, by decide +kernel, rfl, rfl⟩
    · decide +kernel
  refine ⟨hcalls, hsorts, ((ordersWeakly_compare hcalls hsorts).1 fun f hf hfield _ => ?_).1⟩
  obtain rfl : f = "x" := by
    rcases List.mem_pair.1 hf with rfl | rfl
    · exact absurd hfield (by decide)
    · rfl
  refine Or.inl ⟨.number, fun row hrow => ?_⟩
  rcases List.mem_pair.1 hrow with rfl | rfl
  · exact ⟨.number (.ofNat 2), by decide +kernel, rfl⟩
  · exact ⟨.number (.ofNat 1), by decide +kernel, rfl⟩

/-- Of four courses the middle ones have nothing in a column of their own: they tie with the first and with the last, which differ.
The answer to a sentence that sorts by the column has 2 before 1. -/
theorem ordersWeakly_compare_missing_cells :
    let records := [courseRecord.insert "x" (.number (.ofNat 2)), courseRecord, courseRecord,
      courseRecord.insert "x" (.number (.ofNat 1))]
    let s := (start Limits.default).run [.add "c" .courses records]
    let sentence := "In courses dataset c, find all entries; show x; sort in ascending order by x."
    let p : Plan := ⟨.courses, "c", [], ["x"], [], [], ⟨.ascending, ["x"]⟩, none⟩
    let rows : List Row := [⟨[("x", .number (.ofNat 2))]⟩, ⟨[]⟩, ⟨[]⟩, ⟨[("x", .number (.ofNat 1))]⟩]
    s.Sorts sentence p rows ∧ ¬OrdersWeakly p.order.compare rows ∧ s.query sentence = .ok rows := by
  intro records s sentence p rows
  have hsentence : Plan.ofSentence sentence = .ok p := by decide +kernel
  have hrecords : s.HasRecords p records := ⟨⟨.courses, records⟩, by decide +kernel, rfl, rfl⟩
  have hshown : records.map (Row.ofRecord p.displayFields) = rows := by decide +kernel
  have hsort : p.order.sort rows = rows := by
    simp [Order.sort, p, rows, List.mergeSort, List.MergeSort.Internal.splitInTwo, List.merge, Order.compare,
      Row.compareBy, Row.get?, Direction.apply]
  have hanswer : p.answer records = .ok rows := by
    have hqualify : rows.map (Row.qualify p.datasetId p.kind) = rows := by decide +kernel
    calc p.answer records
        = .ok ((p.order.sort (records.map (Row.ofRecord p.displayFields))).map (Row.qualify p.datasetId p.kind)) := rfl
      _ = .ok rows := by rw [hshown, hsort, hqualify]
  refine ⟨⟨records, records, hsentence, hrecords, rfl, hshown.symm⟩, fun h => ?_,
    query_eq_ok.2 ⟨by decide +kernel, p, records, hsentence, hrecords, hanswer⟩⟩
  have htie : p.order.compare ⟨[("x", .number (.ofNat 2))]⟩ ⟨[("x", .number (.ofNat 1))]⟩ = .eq :=
    h.eq_trans _ (by simp [rows]) ⟨[]⟩ (by simp [rows]) _ (by simp [rows]) rfl rfl
  exact absurd htie (by decide +kernel)

end Service

end SentenceQuery
