import SentenceQuery.Schema

/-!
# Columns of a kind

When a name stands for a column of a kind or is that of a field, and that every column has its field and its type.
-/

namespace SentenceQuery

namespace Kind

/-- A name stands for no column if it is the name of none. -/
theorem resolve?_eq_none {kind : Kind} {name : String} :
    kind.resolve? name = none ↔ ∀ column ∈ kind.columns, name ≠ column.display := by
  unfold resolve?
  rw [Option.map_eq_none_iff, List.find?_eq_none]
  simp [eq_comm]

theorem isField_eq_false {kind : Kind} {name : String} :
    kind.isField name = false ↔ ∀ column ∈ kind.columns, name ≠ column.field := by
  unfold isField fieldType?
  rw [Option.isSome_eq_false_iff, Option.isNone_map, Option.isNone_iff_eq_none, List.find?_eq_none]
  simp [eq_comm]

/-- No two columns of a kind have the same field. -/
theorem fieldType?_of_mem {kind : Kind} {column : Column} (h : column ∈ kind.columns) :
    kind.fieldType? column.field = some column.type := by
  revert column
  cases kind <;> decide

/-- What a name stands for is the field of a column. -/
theorem exists_column_of_resolve? {kind : Kind} {name field : String} (h : kind.resolve? name = some field) :
    ∃ column ∈ kind.columns, column.display = name ∧ column.field = field := by
  unfold resolve? at h
  rw [Option.map_eq_some_iff] at h
  obtain ⟨column, hfind, rfl⟩ := h
  exact ⟨column, List.mem_of_find?_eq_some hfind, by simpa using List.find?_some hfind, rfl⟩

/-- What a name stands for has a type. -/
theorem exists_type_of_resolve? {kind : Kind} {name field : String} (h : kind.resolve? name = some field) :
    ∃ type, kind.fieldType? field = some type := by
  obtain ⟨column, hmem, -, rfl⟩ := exists_column_of_resolve? h
  exact ⟨column.type, fieldType?_of_mem hmem⟩

theorem exists_column_of_fieldType? {kind : Kind} {field : String} {type : FieldType}
    (h : kind.fieldType? field = some type) : ∃ column ∈ kind.columns, column.field = field ∧ column.type = type := by
  unfold fieldType? at h
  rw [Option.map_eq_some_iff] at h
  obtain ⟨column, hfind, rfl⟩ := h
  exact ⟨column, List.mem_of_find?_eq_some hfind, by simpa using List.find?_some hfind, rfl⟩

end Kind

/-- The record has a cell of the type in a field. -/
def HasCell (r : Record) (field : String) (type : FieldType) : Prop :=
  ∃ cell, r.get? field = some cell ∧ cell.fieldType = type

/-- A record that conforms to a kind has a cell of the right type in every field of the kind. -/
theorem hasCell_of_conforms {kind : Kind} {r : Record} (h : kind.conforms r = true) {field : String} {type : FieldType}
    (hfield : kind.fieldType? field = some type) : HasCell r field type := by
  obtain ⟨column, hcolumn, rfl, rfl⟩ := Kind.exists_column_of_fieldType? hfield
  unfold Kind.conforms at h
  have hcell := List.all_eq_true.1 h column hcolumn
  rw [decide_eq_true_eq, Option.map_eq_some_iff] at hcell
  exact hcell

end SentenceQuery
