import SentenceQuery.Table.NameMap

/-!
# Looking names up

What a map holds under a name after an entry is put in or taken out, and which names a set made of a list has.
-/

namespace SentenceQuery

universe u

namespace NameMap

variable {α : Type u}

theorem find?_insertEntry (name : String) (value : α) (es : List (String × α)) (k : String) :
    (insertEntry name value es).find? (·.1 = k) = if k = name then some (name, value) else es.find? (·.1 = k) := by
  induction es with
  | nil =>
    unfold insertEntry
    by_cases h : k = name <;> simp [h, eq_comm]
  | cons e es ih =>
    obtain ⟨k', v⟩ := e
    unfold insertEntry
    by_cases h : k = name
    · subst h
      split
      · simp
      · split
        · simp
        · rename_i hne
          simpa [Ne.symm hne] using ih
    · split
      · simp [Ne.symm h]
      · split
        · rename_i heq
          subst heq
          simp [Ne.symm h]
        · simp only [List.find?_cons, ih, if_neg h]

@[simp]
theorem get?_empty (k : String) : (empty : NameMap α).get? k = none := rfl

/-- The new entry is found under its name, and every other name as before. -/
theorem get?_insert (m : NameMap α) (name : String) (value : α) (k : String) :
    (m.insert name value).get? k = if k = name then some value else m.get? k := by
  unfold get? insert
  rw [find?_insertEntry]
  by_cases h : k = name <;> simp [h]

/-- The name is gone, and every other name is found as before. -/
theorem get?_erase (m : NameMap α) (name k : String) :
    (m.erase name).get? k = if k = name then none else m.get? k := by
  unfold get? erase
  rw [List.find?_filter]
  by_cases h : k = name
  · subst h
    simp
  · rw [if_neg h]
    congr 2
    funext e
    by_cases he : e.1 = k <;> simp [he, h]

theorem contains_insert {m : NameMap α} {name : String} {value : α} {k : String} :
    (m.insert name value).contains k = true ↔ k = name ∨ m.contains k = true := by
  unfold contains
  rw [get?_insert]
  by_cases h : k = name <;> simp [h]

/-- A name has at most one entry. -/
theorem get?_eq_some_iff {m : NameMap α} {k : String} {v : α} : m.get? k = some v ↔ (k, v) ∈ m.entries := by
  obtain ⟨es, hsorted⟩ := m
  unfold get?
  rw [Option.map_eq_some_iff]
  constructor
  · rintro ⟨⟨k', v'⟩, hfind, rfl⟩
    have hk : k' = k := by simpa using List.find?_some hfind
    exact hk ▸ List.mem_of_find?_eq_some hfind
  · intro hmem
    refine ⟨(k, v), ?_, rfl⟩
    induction es with
    | nil => cases hmem
    | cons e es ih =>
      rw [List.map_cons, List.pairwise_cons] at hsorted
      rcases List.mem_cons.1 hmem with rfl | hmem
      · simp
      · have hlt : e.1 < k := hsorted.1 k (List.mem_map_of_mem hmem)
        have hne : e.1 ≠ k := fun heq => String.lt_irrefl k (heq ▸ hlt)
        rw [List.find?_cons_of_neg (by simpa using hne)]
        exact ih hsorted.2 hmem

/-- A map made of a list of entries has their names. -/
theorem contains_ofList {es : List (String × α)} {k : String} :
    (ofList es).contains k = true ↔ k ∈ es.map Prod.fst := by
  have hfold : ∀ m : NameMap α, (es.foldl (fun m e => m.insert e.1 e.2) m).contains k = true ↔
      k ∈ es.map Prod.fst ∨ m.contains k = true := by
    induction es with
    | nil => intro m; simp
    | cons e es ih =>
      intro m
      rw [List.foldl_cons, ih, contains_insert, List.map_cons, List.mem_cons]
      exact or_left_comm.trans (or_assoc).symm
  rw [ofList, hfold]
  simp [contains]

/-- A map made of names, with a value for each name that has one. -/
theorem get?_ofList_filterMap (names : List String) (value? : String → Option α) (k : String) :
    (ofList (names.filterMap fun name => (value? name).map fun value => (name, value))).get? k =
      if k ∈ names then value? k else none := by
  have hfold : ∀ m : NameMap α,
      ((names.filterMap fun name => (value? name).map fun value => (name, value)).foldl (fun m e => m.insert e.1 e.2) m).get? k =
        if k ∈ names then (value? k).or (m.get? k) else m.get? k := by
    induction names with
    | nil => simp
    | cons name names ih =>
      intro m
      cases hvalue : value? name with
      | none =>
        rw [List.filterMap_cons_none (by simp [hvalue]), ih]
        by_cases hk : k = name
        · subst hk
          simp [hvalue]
        · simp [hk]
      | some value =>
        rw [List.filterMap_cons_some (b := (name, value)) (by simp [hvalue]), List.foldl_cons, ih, get?_insert]
        by_cases hk : k = name
        · subst hk
          simp [hvalue]
        · simp [hk]
  rw [ofList, hfold]
  simp

/-- An entry whose name comes behind all others goes to the end. -/
theorem insertEntry_of_forall_lt {name : String} {value : α} {es : List (String × α)} (h : ∀ e ∈ es, e.1 < name) :
    insertEntry name value es = es ++ [(name, value)] := by
  induction es with
  | nil => rfl
  | cons e es ih =>
    obtain ⟨k, v⟩ := e
    have hlt : k < name := h (k, v) List.mem_cons_self
    have hgt : ¬name < k := fun hgt => String.lt_irrefl k (String.lt_trans hlt hgt)
    have hne : name ≠ k := fun heq => String.lt_irrefl k (heq ▸ hlt)
    rw [insertEntry, if_neg hgt, if_neg hne, ih fun e he => h e (List.mem_cons_of_mem _ he)]
    rfl

/-- A map is made again of its entries. -/
theorem ofList_entries (m : NameMap α) : ofList m.entries = m := by
  have hfold : ∀ (rest : List (String × α)) (acc : NameMap α),
      ((acc.entries ++ rest).map Prod.fst).Pairwise (· < ·) →
        (rest.foldl (fun m e => m.insert e.1 e.2) acc).entries = acc.entries ++ rest := by
    intro rest
    induction rest with
    | nil => simp
    | cons e rest ih =>
      intro acc hsorted
      have hinsert : (acc.insert e.1 e.2).entries = acc.entries ++ [e] := by
        refine insertEntry_of_forall_lt fun e' he' => ?_
        rw [List.map_append, List.pairwise_append] at hsorted
        exact hsorted.2.2 e'.1 (List.mem_map_of_mem he') e.1 (by simp)
      rw [List.foldl_cons, ih, hinsert, List.append_assoc, List.singleton_append]
      rwa [hinsert, List.append_assoc, List.singleton_append]
  have hentries := hfold m.entries empty (by simpa [empty] using m.sorted)
  obtain ⟨es, hes⟩ := m
  unfold ofList
  generalize hmap : es.foldl (fun m e => m.insert e.1 e.2) empty = map at *
  obtain ⟨es', hes'⟩ := map
  simp only [empty, List.nil_append] at hentries
  subst hentries
  rfl

end NameMap

/-- A set is made again of its names. -/
theorem NameSet.ofNames_names (s : NameSet) : NameSet.ofNames s.names = s := by
  have hunit : s.names.map (fun n => (n, ())) = s.entries := by
    rw [NameMap.names, List.map_map]
    exact List.map_id' _
  rw [ofNames, hunit, NameMap.ofList_entries]

/-- A set made of a list has the members of the list. -/
theorem NameSet.contains_ofNames {names : List String} {k : String} :
    (NameSet.ofNames names).contains k = true ↔ k ∈ names := by
  rw [ofNames, NameMap.contains_ofList, List.map_map]
  simp [Function.comp_def]

end SentenceQuery
