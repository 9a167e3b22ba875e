import SentenceQuery.Proofs.Query.Meaning

/-!
# Which keys a row has

The keys of a row are those of the display fields in which its source has a cell, in their order: the source is the record, or with
groups the key of the group and its derived columns. Fields of the kind come with the id of the dataset in front and other columns as
they are, and no two display fields come under one key (`Plan.shapes_answer`).
-/

namespace SentenceQuery

namespace Row

variable {id : String} {kind : Kind}

/-- A column is shown with the id of the dataset in front just if it is a field of the kind. -/
theorem qualifiedKey_eq_append_iff (f : String) : qualifiedKey id kind f = id ++ "_" ++ f ↔ kind.isField f = true := by
  unfold qualifiedKey
  split
  · rename_i hfield
    exact iff_of_true rfl hfield
  · rename_i hfield
    refine iff_of_false (fun h => ?_) hfield
    have hlength := congrArg (fun s => s.toList.length) h
    simp only [String.toList_append, List.length_append, show "_".toList.length = 1 from rfl] at hlength
    omega

/-- A column is shown as it is just if it is no field of the kind. -/
theorem qualifiedKey_eq_self_iff (f : String) : qualifiedKey id kind f = f ↔ kind.isField f = false := by
  unfold qualifiedKey
  split
  · rename_i hfield
    refine iff_of_false (fun h => ?_) (by simp [hfield])
    have hlength := congrArg (fun s => s.toList.length) h
    simp only [String.toList_append, List.length_append, show "_".toList.length = 1 from rfl] at hlength
    omega
  · rename_i hfield
    exact iff_of_true rfl (by simpa using hfield)

/-- Two columns, each a field of the kind or without `_`, are not shown under one key. -/
theorem qualifiedKey_inj {f g : String} (hf : kind.isField f = true ∨ '_' ∉ f.toList)
    (hg : kind.isField g = true ∨ '_' ∉ g.toList) (h : qualifiedKey id kind f = qualifiedKey id kind g) : f = g := by
  cases hfield : kind.isField g with
  | true => exact (qualifiedKey_eq_iff id hf hfield).1 h
  | false =>
    cases hfield' : kind.isField f with
    | true => exact ((qualifiedKey_eq_iff id hg hfield').1 h.symm).symm
    | false => rwa [(qualifiedKey_eq_self_iff f).2 hfield', (qualifiedKey_eq_self_iff g).2 hfield] at h

end Row

/-! ## Cells of a key -/

namespace GroupKey

/-- The cell in a field of a key over these fields. -/
def cell? (fields : List String) (key : GroupKey) (f : String) : Option Cell :=
  ((fields.zip key).find? (·.1 = f)).bind Prod.snd

theorem cell?_map (look : String → Option Cell) (fields : List String) (f : String) :
    cell? fields (fields.map look) f = if f ∈ fields then look f else none := by
  unfold cell?
  induction fields with
  | nil => rfl
  | cons field fields ih =>
    rw [List.map_cons, List.zip_cons_cons, List.find?_cons]
    by_cases h : field = f
    · simp [h]
    · simp [h, ih, Ne.symm h]

end GroupKey

namespace Plan

variable {p : Plan}

/-- The row of a group has a cell in a field: it is the name of a derived column, or the key has a cell there. -/
def groupHasCell (p : Plan) (key : GroupKey) (f : String) : Bool :=
  (p.applyDefs.map ApplyDefinition.name).contains f || (key.cell? p.groupFields f).isSome

/-- The keys of the display fields in which there is a cell, in their order. -/
def shownKeys (p : Plan) (hasCell : String → Bool) : List String :=
  (p.displayFields.filter hasCell).map (Row.qualifiedKey p.datasetId p.kind)

/-- Which keys the rows have that show the records selected, or their groups. -/
structure Shapes (p : Plan) (selected : List Record) (rows : List Row) : Prop where
  keys_nodup : ∀ row ∈ rows, row.keys.Nodup
  /-- without groups, each row is that of a record -/
  of_records : p.groupFields = [] → ∃ shown, rows.Perm shown ∧
    List.Forall₂ (fun r row => row.keys = p.shownKeys fun f => (r.get? f).isSome) selected shown
  /-- with groups, each row is that of a key -/
  of_groups : p.groupFields ≠ [] → ∃ shown, rows.Perm shown ∧
    List.Forall₂ (fun key row => row.keys = p.shownKeys (p.groupHasCell key)) (selected.map p.keyOf).eraseDups shown
  qualified_iff : ∀ f ∈ p.displayFields,
    (Row.qualifiedKey p.datasetId p.kind f = p.datasetId ++ "_" ++ f ↔ p.kind.isField f = true) ∧
      (Row.qualifiedKey p.datasetId p.kind f = f ↔ p.kind.isField f = false)
  qualified_inj : ∀ f ∈ p.displayFields, ∀ g ∈ p.displayFields,
    Row.qualifiedKey p.datasetId p.kind f = Row.qualifiedKey p.datasetId p.kind g → f = g
  derived_shown : p.groupFields ≠ [] → ∀ row ∈ rows, ∀ d ∈ p.applyDefs, d.name ∈ p.displayFields → d.name ∈ row.keys

/-! ## Keys of rows -/

theorem keys_rowOf (cell? : String → Option Cell) : (p.rowOf cell?).keys = p.shownKeys fun f => (cell? f).isSome := by
  unfold rowOf shownKeys Row.keys
  simp only
  induction p.displayFields with
  | nil => rfl
  | cons f fields ih =>
    cases hcell : cell? f with
    | none => simpa [hcell] using ih
    | some cell => simpa [hcell] using ih

theorem qualified_inj_of_display (hp : p.WellFormed) {f g : String} (hf : f ∈ p.displayFields) (hg : g ∈ p.displayFields)
    (h : Row.qualifiedKey p.datasetId p.kind f = Row.qualifiedKey p.datasetId p.kind g) : f = g := by
  have hcolumn : ∀ f ∈ p.displayFields, p.kind.isField f = true ∨ '_' ∉ f.toList := fun f hf =>
    (hp.display f hf).imp_right IsPlainWord.no_underscore
  exact Row.qualifiedKey_inj (hcolumn f hf) (hcolumn g hg) h

/-- The keys of different display fields differ. -/
theorem nodup_shownKeys (hp : p.WellFormed) (hasCell : String → Bool) : (p.shownKeys hasCell).Nodup := by
  refine List.Nodup.map_on (fun f hf g hg h => ?_) (hp.display_nodup.filter hasCell)
  exact qualified_inj_of_display hp (List.mem_of_mem_filter hf) (List.mem_of_mem_filter hg) h

/-- The row of a group has cells in the derived columns, and in the fields in which its key has cells. -/
theorem keys_of_showsGroup (hp : p.WellFormed) (hgrouped : p.groupFields ≠ []) {members : List Record} {key : GroupKey}
    (hkey : ∀ m ∈ members, p.keyOf m = key) {row : Row} (h : p.ShowsGroup members row) :
    row.keys = p.shownKeys (p.groupHasCell key) := by
  obtain ⟨cell?, rfl, ⟨first, rest, rfl, hgroup⟩, hderived⟩ := h
  have hfirst : key = p.groupFields.map fun f => (first.get? f).map Cell.canonical := by
    rw [← hkey first List.mem_cons_self, keyOf, GroupKey.ofRecord, GroupKey.canonical, List.map_map]
    rfl
  rw [keys_rowOf, shownKeys, shownKeys, hfirst]
  congr 1
  refine List.filter_congr fun f hf => ?_
  rw [groupHasCell, GroupKey.cell?_map]
  by_cases hname : f ∈ p.applyDefs.map ApplyDefinition.name
  · obtain ⟨d, hd, rfl⟩ := List.mem_map.1 hname
    obtain ⟨cell, hcell, -⟩ := hderived d hd
    rw [hcell, List.contains_iff_mem.2 hname]
    rfl
  · have hmem : f ∈ p.groupFields := (hp.mem_of_display hgrouped hf).resolve_right hname
    have hcontains : (p.applyDefs.map ApplyDefinition.name).contains f = false := by simpa using hname
    rw [hgroup f hmem, hcontains, if_pos hmem, Option.isSome_map, Bool.false_or]

/-! ## Answers -/

theorem exists_keys_of_plain (hp : p.WellFormed) (hplain : p.groupFields = []) {records : List Record} {rows : List Row}
    (h : p.answer records = .ok rows) : ∃ shown, rows.Perm shown ∧
      List.Forall₂ (fun r row => row.keys = p.shownKeys fun f => (r.get? f).isSome) (Criteria.select p.criteria records)
        shown := by
  refine ⟨_, (meansRecords_answer hp hplain records).rows_perm rows h, ?_⟩
  rw [List.forall₂_map_right_iff]
  exact List.forall₂_same.2 fun r _ => keys_rowOf r.get?

theorem exists_keys_of_grouped (hp : p.WellFormed) (hgrouped : p.groupFields ≠ []) {records : List Record} {rows : List Row}
    (h : p.answer records = .ok rows) : ∃ shown, rows.Perm shown ∧
      List.Forall₂ (fun key row => row.keys = p.shownKeys (p.groupHasCell key))
        ((Criteria.select p.criteria records).map p.keyOf).eraseDups shown := by
  obtain ⟨shown, hperm, -, hshown⟩ := (meansGroups_answer hp hgrouped records).rows_shown rows h
  refine ⟨shown, hperm, hshown.imp fun key row hrow => ?_⟩
  exact keys_of_showsGroup hp hgrouped (fun m hm => by simpa using (List.mem_filter.1 hm).2) hrow

/-- Every row has the keys of the display fields in which something is known. -/
theorem exists_keys_of_answer (hp : p.WellFormed) {records : List Record} {rows : List Row}
    (h : p.answer records = .ok rows) {row : Row} (hrow : row ∈ rows) : ∃ hasCell, row.keys = p.shownKeys hasCell := by
  by_cases hplain : p.groupFields = []
  · obtain ⟨shown, hperm, hshown⟩ := exists_keys_of_plain hp hplain h
    obtain ⟨r, -, hkeys⟩ := exists_left_of_forall₂ hshown (hperm.mem_iff.1 hrow)
    exact ⟨_, hkeys⟩
  · obtain ⟨shown, hperm, hshown⟩ := exists_keys_of_grouped hp hplain h
    obtain ⟨key, -, hkeys⟩ := exists_left_of_forall₂ hshown (hperm.mem_iff.1 hrow)
    exact ⟨_, hkeys⟩

/-- A derived column that is displayed is in the row of every group, under its name. -/
theorem name_mem_keys (hp : p.WellFormed) (hgrouped : p.groupFields ≠ []) {records : List Record} {rows : List Row}
    (h : p.answer records = .ok rows) {row : Row} (hrow : row ∈ rows) {d : ApplyDefinition} (hd : d ∈ p.applyDefs)
    (hshown : d.name ∈ p.displayFields) : d.name ∈ row.keys := by
  obtain ⟨shown, hperm, hkeys⟩ := exists_keys_of_grouped hp hgrouped h
  obtain ⟨key, -, hrowKeys⟩ := exists_left_of_forall₂ hkeys (hperm.mem_iff.1 hrow)
  have hcell : p.groupHasCell key d.name = true := by
    rw [groupHasCell, List.contains_iff_mem.2 (List.mem_map_of_mem hd), Bool.true_or]
  have hplain : p.kind.isField d.name = false :=
    Kind.isField_eq_false.2 fun column hcolumn => ((hp.defs d hd).not_column column hcolumn).2
  rw [hrowKeys, shownKeys, List.mem_map]
  exact ⟨d.name, List.mem_filter.2 ⟨hshown, hcell⟩, (Row.qualifiedKey_eq_self_iff d.name).2 hplain⟩

/-- Wherever the plan of an accepted sentence answers, its rows have the keys of the display fields in which their sources have
cells, in the order of display, and no key twice. -/
theorem shapes_answer {sentence : String} {p : Plan} (h : ofSentence sentence = .ok p) {records : List Record}
    {rows : List Row} (hrows : p.answer records = .ok rows) :
    p.Shapes (records.filter (Criteria.accept p.criteria)) rows := by
  obtain ⟨_, _, _, _, _, _, hhead, hfilter, hread, htail, hplan, hvalid⟩ := ofSentence_eq_ok.1 h
  have hp : p.WellFormed := hplan ▸ wellFormed_ofParts hhead hfilter hread htail (hplan ▸ hvalid)
  refine {
    keys_nodup := fun row hrow => ?_
    of_records := fun hplain => exists_keys_of_plain hp hplain hrows
    of_groups := fun hgrouped => exists_keys_of_grouped hp hgrouped hrows
    qualified_iff := fun f _ => ⟨Row.qualifiedKey_eq_append_iff f, Row.qualifiedKey_eq_self_iff f⟩
    qualified_inj := fun f hf g hg => qualified_inj_of_display hp hf hg
    derived_shown := fun hgrouped row hrow d hd => name_mem_keys hp hgrouped hrows hrow hd }
  obtain ⟨hasCell, hkeys⟩ := exists_keys_of_answer hp hrows hrow
  exact hkeys ▸ nodup_shownKeys hp hasCell

/-- Records with keys that look like those shown, of which one has no cell to be grouped by. -/
theorem shapes_answer_missing_cell :
    let p : Plan := ⟨.courses, "sfu", [], ["room", "top", "dept"], ["dept", "room"], [⟨"top", .max, "avg"⟩], .unsorted,
      some (NameSet.ofNames ["dept", "room", "top"])⟩
    let records : List Record := [
      NameMap.ofList [("dept", .text "cpsc"), ("avg", .number (.ofNat 90)), ("sfu_dept", .text "math")],
      NameMap.ofList [("dept", .text "cpsc"), ("avg", .number (.ofNat 95)), ("room", .text "b"), ("top", .text "x")]]
    let rows : List Row := [⟨[("top", .number (.ofNat 90)), ("sfu_dept", .text "cpsc")]⟩,
      ⟨[("room", .text "b"), ("top", .number (.ofNat 95)), ("sfu_dept", .text "cpsc")]⟩]
    ofSentence ("In courses dataset sfu grouped by Department and room, find all entries; " ++
      "show room, top and Department, where top is the MAX of Average.") = .ok p ∧ p.answer records = .ok rows ∧
      p.Shapes (records.filter (Criteria.accept p.criteria)) rows := by
  intro p records rows
  have h : ofSentence ("In courses dataset sfu grouped by Department and room, find all entries; " ++
      "show room, top and Department, where top is the MAX of Average.") = .ok p := by
    decide +kernel
  have hrows : p.answer records = .ok rows := by decide +kernel
  exact ⟨h, hrows, shapes_answer h hrows⟩

end Plan

end SentenceQuery
