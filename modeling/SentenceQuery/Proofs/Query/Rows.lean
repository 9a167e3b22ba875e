import SentenceQuery.Proofs.Schema
import SentenceQuery.Query.Answer

/-!
# The cells of a row

A row shows the cells of its record in the display fields. When the fields of the kind get the id of the dataset in front, no
two keys become the same, so each cell is still found under its key (`get?_qualify`).
-/

namespace SentenceQuery

namespace Row

theorem get?_push (row : Row) (key : String) (cell : Cell) (f : String) :
    (row.push key cell).get? f = (row.get? f).or (if f = key then some cell else none) := by
  unfold get? push
  rw [List.find?_append, Option.map_or]
  congr 1
  by_cases h : f = key
  · simp [h]
  · simp [h, Ne.symm h]

theorem keys_push (row : Row) (key : String) (cell : Cell) : (row.push key cell).keys = row.keys ++ [key] := by
  simp [keys, push]

/-- The row with the cell of a record in one more field, unless a cell is there. -/
def withField (r : Record) (row : Row) (field : String) : Row :=
  if (row.get? field).isSome then row
  else match r.get? field with
    | some cell => row.push field cell
    | none => row

theorem get?_withField (r : Record) (row : Row) (field f : String) :
    (row.withField r field).get? f = (row.get? f).or (if f = field then r.get? f else none) := by
  unfold withField
  by_cases h : f = field
  · subst h
    cases hrow : row.get? f with
    | some cell => simp [hrow]
    | none =>
      cases hr : r.get? f with
      | none => simp [hrow]
      | some cell => simp [get?_push, hrow]
  · split
    · simp
    · split
      · simp [get?_push, h]
      · simp

theorem mem_keys_withField {r : Record} {row : Row} {field k : String} (h : k ∈ (row.withField r field).keys) :
    k ∈ row.keys ∨ k = field := by
  unfold withField at h
  split at h
  · exact Or.inl h
  · split at h
    · rwa [keys_push, List.mem_append, List.mem_singleton] at h
    · exact Or.inl h

theorem ofRecord_eq (display : List String) (r : Record) : ofRecord display r = display.foldl (withField r) ⟨[]⟩ := rfl

/-- A row has the cell of its record in each display field. -/
theorem get?_ofRecord {display : List String} {f : String} (hf : f ∈ display) (r : Record) :
    (ofRecord display r).get? f = r.get? f := by
  have hfold : ∀ row : Row, (display.foldl (withField r) row).get? f =
      (row.get? f).or (if f ∈ display then r.get? f else none) := by
    clear hf
    induction display with
    | nil => simp
    | cons field display ih =>
      intro row
      rw [List.foldl_cons, ih, get?_withField, Option.or_assoc]
      congr 1
      by_cases h : f = field
      · subst h
        cases r.get? f <;> simp
      · simp [h]
  rw [ofRecord_eq, hfold, if_pos hf]
  rfl

/-- The keys of a row are display fields. -/
theorem mem_display_of_mem_keys {display : List String} {r : Record} {k : String} (h : k ∈ (ofRecord display r).keys) :
    k ∈ display := by
  have hfold : ∀ row : Row, k ∈ (display.foldl (withField r) row).keys → k ∈ row.keys ∨ k ∈ display := by
    clear h
    induction display with
    | nil => exact fun _ h => Or.inl h
    | cons field display ih =>
      intro row h
      rcases ih _ h with h | h
      · rcases mem_keys_withField h with h | rfl
        · exact Or.inl h
        · exact Or.inr List.mem_cons_self
      · exact Or.inr (List.mem_cons_of_mem _ h)
  rcases hfold ⟨[]⟩ h with habsurd | h
  · cases habsurd
  · exact h

theorem cells_withField {r : Record} {row : Row} {field : String} (h : field ∉ row.keys) :
    (row.withField r field).cells = row.cells ++ ((r.get? field).map fun cell => (field, cell)).toList := by
  have hnone : row.get? field = none := by
    unfold get?
    rw [Option.map_eq_none_iff, List.find?_eq_none]
    intro e he
    simpa using fun heq : e.1 = field => h (heq ▸ List.mem_map_of_mem he)
  unfold withField
  rw [hnone]
  cases r.get? field <;> simp [push]

/-- A row shows the cells of its record in the display fields, in their order. -/
theorem cells_ofRecord {display : List String} (hdisplay : display.Nodup) (r : Record) :
    (ofRecord display r).cells = display.filterMap fun f => (r.get? f).map fun cell => (f, cell) := by
  have hfold : ∀ row : Row, (∀ f ∈ display, f ∉ row.keys) →
      (display.foldl (withField r) row).cells = row.cells ++ display.filterMap fun f => (r.get? f).map fun cell => (f, cell) := by
    induction display with
    | nil => simp
    | cons field display ih =>
      intro row hrow
      rw [List.nodup_cons] at hdisplay
      have hfresh : ∀ f ∈ display, f ∉ (row.withField r field).keys := by
        intro f hf hmem
        rcases mem_keys_withField hmem with hmem | rfl
        · exact hrow f (List.mem_cons_of_mem _ hf) hmem
        · exact hdisplay.1 hf
      rw [List.foldl_cons, ih hdisplay.2 _ hfresh, cells_withField (hrow field List.mem_cons_self), List.append_assoc,
        List.filterMap_cons]
      cases r.get? field <;> simp
  rw [ofRecord_eq, hfold ⟨[]⟩ (by simp [keys])]
  simp

/-- A key that is shown as a field of the kind is that field, if it is a field or has no `_`. -/
theorem qualifiedKey_eq_iff (id : String) {kind : Kind} {k f : String} (hk : kind.isField k = true ∨ '_' ∉ k.toList)
    (hf : kind.isField f = true) : qualifiedKey id kind k = qualifiedKey id kind f ↔ k = f := by
  constructor
  · intro h
    unfold qualifiedKey at h
    rw [if_pos hf] at h
    split at h
    · have htext := congrArg String.toList h
      simp only [String.toList_append] at htext
      exact String.toList_inj.1 (List.append_cancel_left htext)
    · rename_i hnot
      rcases hk with hk | hk
      · exact absurd hk hnot
      · refine absurd ?_ hk
        rw [h]
        simp
  · rintro rfl
    rfl

end Row

/-- A plan without groups shows the records that it selects. -/
theorem Plan.source_of_plain {p : Plan} (hplain : p.groupFields = []) (records : List Record) :
    p.source records = .ok (Criteria.select p.criteria records) := by
  simp [source, isGrouped, hplain]

end SentenceQuery
