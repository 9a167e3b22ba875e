import SentenceQuery.Proofs.Distinct
import SentenceQuery.Query.Bucket

/-!
# Buckets and keys

Grouping has one bucket for each key, in the order in which the keys first come up, and in it exactly the items with that key, in
their order (`isGrouping_group`). The key of a bucket is that of its first member, cell for cell.
-/

namespace SentenceQuery

namespace GroupKey

/-- Two keys count as the same if one stands for both. -/
theorem same_iff {k l : GroupKey} : Same k l ↔ canonical k = canonical l := Iff.rfl

end GroupKey

namespace Bucket

variable {α : Type}

/-- What stands for the keys of buckets. -/
def canonicalKeys (buckets : List (Bucket α)) : List GroupKey := buckets.map fun b => b.key.canonical

/-- The buckets are those of the items: one for each key as it first comes up, with the items of the key. -/
structure IsGrouping (key : α → GroupKey) (items : List α) (buckets : List (Bucket α)) : Prop where
  keys : canonicalKeys buckets = (items.map fun item => (key item).canonical).eraseDups
  members : ∀ b ∈ buckets, b.members = items.filter fun item => (key item).canonical = b.key.canonical
  first : ∀ b ∈ buckets, ∃ item rest, b.members = item :: rest ∧ b.key = key item

theorem canonicalKeys_insert (key : GroupKey) (item : α) (buckets : List (Bucket α)) :
    canonicalKeys (insert key item buckets) =
      if key.canonical ∈ canonicalKeys buckets then canonicalKeys buckets else canonicalKeys buckets ++ [key.canonical] := by
  induction buckets with
  | nil => simp [insert, canonicalKeys]
  | cons b rest ih =>
    unfold canonicalKeys at *
    rw [insert]
    by_cases h : b.key.canonical = key.canonical
    · rw [if_pos (GroupKey.same_iff.2 h)]
      simp [h]
    · rw [if_neg fun hsame => h (GroupKey.same_iff.1 hsame), List.map_cons, ih, List.map_cons]
      have hmem : key.canonical ∈ b.key.canonical :: rest.map (fun b => b.key.canonical) ↔
          key.canonical ∈ rest.map fun b => b.key.canonical := by
        rw [List.mem_cons, or_iff_right (Ne.symm h)]
      by_cases hrest : key.canonical ∈ rest.map fun b => b.key.canonical
      · rw [if_pos hrest, if_pos (hmem.2 hrest)]
      · rw [if_neg hrest, if_neg fun hcons => hrest (hmem.1 hcons), List.cons_append]

/-- Where no two buckets have one key, an item goes into the bucket of its key or into a bucket of its own, and the others stay. -/
theorem mem_insert {key : GroupKey} {item : α} {buckets : List (Bucket α)} (hkeys : (canonicalKeys buckets).Nodup)
    {b : Bucket α} (hb : b ∈ insert key item buckets) :
    (∃ b₀ ∈ buckets, b₀.key.canonical = key.canonical ∧ b = ⟨b₀.key, b₀.members ++ [item]⟩) ∨
      (b ∈ buckets ∧ b.key.canonical ≠ key.canonical) ∨ (b = ⟨key, [item]⟩ ∧ key.canonical ∉ canonicalKeys buckets) := by
  induction buckets with
  | nil => exact Or.inr (Or.inr ⟨List.mem_singleton.1 hb, by simp [canonicalKeys]⟩)
  | cons b₀ rest ih =>
    rw [canonicalKeys, List.map_cons, List.nodup_cons] at hkeys
    unfold insert at hb
    by_cases h : b₀.key.canonical = key.canonical
    · rw [if_pos (GroupKey.same_iff.2 h)] at hb
      rcases List.mem_cons.1 hb with rfl | hb
      · exact Or.inl ⟨b₀, List.mem_cons_self, h, rfl⟩
      · refine Or.inr (Or.inl ⟨List.mem_cons_of_mem _ hb, fun hsame => hkeys.1 ?_⟩)
        rw [h, ← hsame]
        exact List.mem_map_of_mem hb
    · rw [if_neg fun hsame => h (GroupKey.same_iff.1 hsame)] at hb
      rcases List.mem_cons.1 hb with rfl | hb
      · exact Or.inr (Or.inl ⟨List.mem_cons_self, h⟩)
      · rcases ih hkeys.2 hb with ⟨b₁, hb₁, hkey, heq⟩ | ⟨hrest, hne⟩ | ⟨heq, hnew⟩
        · exact Or.inl ⟨b₁, List.mem_cons_of_mem _ hb₁, hkey, heq⟩
        · exact Or.inr (Or.inl ⟨List.mem_cons_of_mem _ hrest, hne⟩)
        · refine Or.inr (Or.inr ⟨heq, fun hmem => ?_⟩)
          rcases List.mem_cons.1 hmem with hsame | hmem
          · exact h hsame.symm
          · exact hnew hmem

/-- One more item keeps the buckets those of the items. -/
theorem isGrouping_insert {key : α → GroupKey} {items : List α} {buckets : List (Bucket α)}
    (h : IsGrouping key items buckets) (item : α) : IsGrouping key (items ++ [item]) (insert (key item) item buckets) := by
  have hnodup : (canonicalKeys buckets).Nodup := h.keys ▸ nodup_eraseDups _
  have hkeys : ∀ {k}, k ∈ canonicalKeys buckets ↔ k ∈ items.map fun item => (key item).canonical := by
    intro k
    rw [h.keys, List.mem_eraseDups]
  refine ⟨?_, ?_, ?_⟩
  · rw [canonicalKeys_insert, List.map_append, List.map_singleton, eraseDups_concat, ← h.keys]
    simp only [hkeys]
  · intro b hb
    rw [List.filter_append]
    rcases mem_insert hnodup hb with ⟨b₀, hb₀, hsame, rfl⟩ | ⟨hb, hne⟩ | ⟨rfl, hnew⟩
    · simp [h.members b₀ hb₀, hsame]
    · simp [h.members b hb, Ne.symm hne]
    · have hnone : (items.filter fun i => (key i).canonical = (key item).canonical) = [] := by
        rw [List.filter_eq_nil_iff]
        intro i hi hsame
        exact hnew (hkeys.2 (List.mem_map.2 ⟨i, hi, by simpa using hsame⟩))
      simp [hnone]
  · intro b hb
    rcases mem_insert hnodup hb with ⟨b₀, hb₀, -, rfl⟩ | ⟨hb, -⟩ | ⟨rfl, -⟩
    · obtain ⟨first, rest, hmembers, hkey⟩ := h.first b₀ hb₀
      exact ⟨first, rest ++ [item], by simp [hmembers], hkey⟩
    · exact h.first b hb
    · exact ⟨item, [], rfl, rfl⟩

theorem isGrouping_group (key : α → GroupKey) (items : List α) : IsGrouping key items (group key items) := by
  have hfold : ∀ (earlier : List α) (buckets : List (Bucket α)), IsGrouping key earlier buckets →
      IsGrouping key (earlier ++ items) (items.foldl (fun buckets item => insert (key item) item buckets) buckets) := by
    induction items with
    | nil =>
      intro earlier buckets h
      rwa [List.append_nil]
    | cons item items ih =>
      intro earlier buckets h
      have hrest := ih (earlier ++ [item]) (insert (key item) item buckets) (isGrouping_insert h item)
      rwa [List.append_assoc] at hrest
  exact hfold [] [] ⟨rfl, by simp, by simp⟩

end Bucket

end SentenceQuery
