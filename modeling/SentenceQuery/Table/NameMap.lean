/-!
# Maps keyed by names

Records, stored datasets and sets of column names are maps from names to values, kept in the order of the names by code
point. The order is part of the type, so two maps with the same content are equal and every listing comes out sorted.
-/

namespace SentenceQuery

universe u

/-- A map from names to values: its entries in strictly increasing order of their names. -/
structure NameMap (α : Type u) where
  entries : List (String × α)
  sorted : (entries.map Prod.fst).Pairwise (· < ·)
deriving DecidableEq

namespace NameMap

variable {α : Type u}

/-- The entries with one more entry at its place; an entry of the same name is replaced. -/
def insertEntry (name : String) (value : α) : List (String × α) → List (String × α)
  | [] => [(name, value)]
  | (k, v) :: rest =>
    if name < k then (name, value) :: (k, v) :: rest
    else if name = k then (name, value) :: rest
    else (k, v) :: insertEntry name value rest

theorem mem_keys_insertEntry {name : String} {value : α} {es : List (String × α)} {k : String} :
    k ∈ (insertEntry name value es).map Prod.fst ↔ k = name ∨ k ∈ es.map Prod.fst := by
  induction es with
  | nil => simp [insertEntry]
  | cons e rest ih =>
    obtain ⟨k', v'⟩ := e
    simp only [insertEntry]
    split
    · simp
    · split
      · rename_i h
        subst h
        simp
      · simp only [List.map_cons, List.mem_cons, ih]
        constructor
        · rintro (h | h | h) <;> simp [h]
        · rintro (h | h | h) <;> simp [h]

theorem sorted_insertEntry {name : String} {value : α} {es : List (String × α)}
    (h : (es.map Prod.fst).Pairwise (· < ·)) : ((insertEntry name value es).map Prod.fst).Pairwise (· < ·) := by
  induction es with
  | nil => simp [insertEntry]
  | cons e rest ih =>
    obtain ⟨k, v⟩ := e
    simp only [List.map_cons, List.pairwise_cons] at h
    simp only [insertEntry]
    split
    · rename_i hlt
      simp only [List.map_cons, List.pairwise_cons, List.mem_cons]
      refine ⟨?_, h⟩
      rintro x (rfl | hx)
      · exact hlt
      · exact String.lt_trans hlt (h.1 x hx)
    · rename_i hnlt
      split
      · rename_i heq
        subst heq
        simpa using h
      · rename_i hne
        simp only [List.map_cons, List.pairwise_cons]
        refine ⟨fun x hx => ?_, ih h.2⟩
        rcases mem_keys_insertEntry.1 hx with rfl | hx
        · rcases String.le_total k x with hle | hle
          · rcases Decidable.em (k < x) with hlt | hge
            · exact hlt
            · exact absurd (String.le_antisymm (String.not_lt.1 hge) hle) hne
          · rcases Decidable.em (k < x) with hlt | hge
            · exact hlt
            · exact absurd (String.le_antisymm hle (String.not_lt.1 hnlt)) hne
        · exact h.1 x hx

/-- The map with no entry. -/
def empty : NameMap α := ⟨[], by simp⟩

/-- The map with a value under a name; a value that was there is replaced. -/
def insert (m : NameMap α) (name : String) (value : α) : NameMap α :=
  ⟨insertEntry name value m.entries, sorted_insertEntry m.sorted⟩

/-- The map without the entry of a name. -/
def erase (m : NameMap α) (name : String) : NameMap α :=
  ⟨m.entries.filter (·.1 ≠ name), m.sorted.sublist (List.filter_sublist.map _)⟩

/-- The value under a name. -/
def get? (m : NameMap α) (name : String) : Option α :=
  (m.entries.find? (·.1 = name)).map Prod.snd

/-- The name has a value. -/
def contains (m : NameMap α) (name : String) : Bool :=
  (m.get? name).isSome

/-- The names, in increasing order. -/
def names (m : NameMap α) : List String :=
  m.entries.map Prod.fst

/-- The map of a list of entries; of entries with one name the last counts. -/
def ofList (es : List (String × α)) : NameMap α :=
  es.foldl (fun m e => m.insert e.1 e.2) empty

end NameMap

/-- A set of names, in increasing order. -/
abbrev NameSet : Type := NameMap Unit

namespace NameSet

/-- The set of the names in a list. -/
def ofNames (names : List String) : NameSet :=
  NameMap.ofList (names.map fun n => (n, ()))

end NameSet

end SentenceQuery
