import Mathlib.Data.List.FinRange
import SentenceQuery.Proofs.Aggregate
import SentenceQuery.Proofs.Query.Group

/-!
# Grouping is a partition of places

Records are put into buckets by their keys. Said of the places of the records in their list, and not of the records, which may
repeat: each place is in one bucket, once; the buckets have different keys, and are in order, as are the places in each
(`Bucket.IsPartition`). The buckets of records are the buckets of their places (`Bucket.group_isPartition`).

Two keys are told apart cell by cell: by what is missing, by type, and numbers by value, where no NaN differs from another
(`GroupKey.Alike`).
-/

namespace SentenceQuery

/-! ## Keys that are told apart -/

/-- Two cells are not told apart: equal texts, numbers of one value, or two NaNs. -/
inductive Cell.Alike : Cell → Cell → Prop where
  | text (s : String) : Alike (.text s) (.text s)
  | value {x y : Binary64} (h : x.eq y = true) : Alike (.number x) (.number y)
  | nan {x y : Binary64} (hx : x.isNaN = true) (hy : y.isNaN = true) : Alike (.number x) (.number y)

/-- Two keys are not told apart: place by place both cells are missing, or both are there and alike. -/
def GroupKey.Alike (k l : GroupKey) : Prop := List.Forall₂ (Option.Rel Cell.Alike) k l

namespace Binary64

theorem isNaN_canonical (x : Binary64) : x.canonical.isNaN = x.isNaN := by
  unfold canonical
  split
  · rename_i hzero
    rw [isNaN_of_isZero hzero]
    rfl
  · split
    · rename_i hnan
      rw [hnan]
      rfl
    · rfl

theorem place_canonical {x : Binary64} (h : x.isNaN = false) : x.canonical.place = x.place := by
  unfold canonical
  split
  · rename_i hzero
    have hcode : x.code = 0 := by simpa [isZero] using hzero
    simp [place, hcode, zero]
  · rw [if_neg (Bool.not_eq_true _ ▸ h)]

theorem eq_iff_place {x y : Binary64} : x.eq y = true ↔ x.isNaN = false ∧ y.isNaN = false ∧ x.place = y.place := by
  simp [Binary64.eq, and_assoc]

/-- One number stands for two if they have one value, or are both NaN. -/
theorem canonical_eq_iff {x y : Binary64} :
    x.canonical = y.canonical ↔ x.eq y = true ∨ x.isNaN = true ∧ y.isNaN = true := by
  constructor
  · intro h
    have hnan : x.isNaN = y.isNaN := by rw [← isNaN_canonical x, h, isNaN_canonical]
    cases hx : x.isNaN with
    | true => exact Or.inr ⟨rfl, hnan ▸ hx⟩
    | false =>
      have hy : y.isNaN = false := hnan ▸ hx
      refine Or.inl (eq_iff_place.2 ⟨hx, hy, ?_⟩)
      rw [← place_canonical hx, h, place_canonical hy]
  · rintro (h | ⟨hx, hy⟩)
    · obtain ⟨hx, hy, hplace⟩ := eq_iff_place.1 h
      exact canonical_eq_of_place hx hy hplace
    · rw [canonical_of_isNaN hx, canonical_of_isNaN hy]

end Binary64

/-- One cell stands for two that are alike, and for no others. -/
theorem Cell.canonical_eq_iff {a b : Cell} : a.canonical = b.canonical ↔ a.Alike b := by
  constructor
  · intro h
    cases a with
    | text s =>
      cases b with
      | text t =>
        cases h
        exact .text s
      | number y => cases h
    | number x =>
      cases b with
      | text t => cases h
      | number y =>
        rcases Binary64.canonical_eq_iff.1 (Cell.number.inj h) with hvalue | ⟨hx, hy⟩
        · exact .value hvalue
        · exact .nan hx hy
  · rintro (_ | hvalue | ⟨hx, hy⟩)
    · rfl
    · exact congrArg Cell.number (Binary64.canonical_eq_iff.2 (Or.inl hvalue))
    · exact congrArg Cell.number (Binary64.canonical_eq_iff.2 (Or.inr ⟨hx, hy⟩))

namespace GroupKey

/-- Keys count as the same where they are alike. -/
theorem same_iff_alike {k l : GroupKey} : Same k l ↔ k.Alike l := by
  have hcell : ∀ a b : Option Cell, a.map Cell.canonical = b.map Cell.canonical ↔ Option.Rel Cell.Alike a b := by
    intro a b
    cases a with
    | none => cases b <;> simp
    | some a => cases b <;> simp [Cell.canonical_eq_iff]
  unfold Same canonical Alike
  rw [← List.forall₂_eq_eq_eq, List.forall₂_map_left_iff, List.forall₂_map_right_iff]
  simp only [hcell]

end GroupKey

/-! ## Buckets of places -/

namespace Bucket

variable {α β : Type}

/-- The bucket of what its members stand for. -/
def map (f : α → β) (b : Bucket α) : Bucket β := ⟨b.key, b.members.map f⟩

/-- The places of a list of some length are put into buckets by their keys. -/
structure IsPartition {n : Nat} (key : Fin n → GroupKey) (buckets : List (Bucket (Fin n))) : Prop where
  members_ne_nil : ∀ b ∈ buckets, b.members ≠ []
  keys_apart : buckets.Pairwise fun b c => ¬b.key.Alike c.key
  /-- a bucket has the key of its members, that of the first cell for cell -/
  key_alike : ∀ b ∈ buckets, ∀ i ∈ b.members, (key i).Alike b.key
  key_first : ∀ b ∈ buckets, ∀ i ∈ b.members.head?, b.key = key i
  /-- each place is in one bucket, once -/
  places : (buckets.flatMap members).Perm (List.finRange n)
  members_increasing : ∀ b ∈ buckets, b.members.Pairwise (· < ·)
  /-- buckets come in the order of their first members -/
  buckets_increasing : buckets.Pairwise fun b c => ∀ i ∈ b.members.head?, ∀ j ∈ c.members.head?, i < j

theorem insert_map (f : α → β) (key : GroupKey) (item : α) (buckets : List (Bucket α)) :
    insert key (f item) (buckets.map (map f)) = (insert key item buckets).map (map f) := by
  induction buckets with
  | nil => rfl
  | cons b rest ih =>
    have hkey : (map f b).key = b.key := rfl
    rw [List.map_cons, insert, insert, hkey, ih]
    split
    · simp [map]
    · rw [List.map_cons]

/-- Items that stand for others are put into buckets as those are. -/
theorem group_map (f : α → β) (key : β → GroupKey) (items : List α) :
    group key (items.map f) = (group (fun item => key (f item)) items).map (map f) := by
  have hfold : ∀ buckets : List (Bucket α),
      (items.map f).foldl (fun buckets item => insert (key item) item buckets) (buckets.map (map f)) =
        (items.foldl (fun buckets item => insert (key (f item)) item buckets) buckets).map (map f) := by
    induction items with
    | nil => exact fun _ => rfl
    | cons item items ih =>
      intro buckets
      rw [List.map_cons, List.foldl_cons, List.foldl_cons, insert_map, ih]
  exact hfold []

/-- The first members of buckets, in the order of the buckets. -/
def firsts (buckets : List (Bucket α)) : List α := buckets.filterMap fun b => b.members.head?

/-- An item is the first of its bucket, or comes behind others. -/
theorem firsts_insert (key : GroupKey) (item : α) {buckets : List (Bucket α)} (hne : ∀ b ∈ buckets, b.members ≠ []) :
    firsts (insert key item buckets) = firsts buckets ∨ firsts (insert key item buckets) = firsts buckets ++ [item] := by
  induction buckets with
  | nil => exact Or.inr rfl
  | cons b rest ih =>
    obtain ⟨hb, hrest⟩ := List.forall_mem_cons.1 hne
    obtain ⟨first, others, hmembers⟩ := List.exists_cons_of_ne_nil hb
    rw [insert]
    split
    · exact Or.inl (by simp [firsts, hmembers])
    · rcases ih hrest with h | h
      · exact Or.inl (by simp only [firsts, List.filterMap_cons, hmembers, List.head?_cons] at h ⊢; rw [h])
      · refine Or.inr ?_
        simp only [firsts, List.filterMap_cons, hmembers, List.head?_cons] at h ⊢
        rw [h, List.cons_append]

theorem group_concat (key : α → GroupKey) (items : List α) (item : α) :
    group key (items ++ [item]) = insert (key item) item (group key items) := by
  simp [group]

/-- The first members of buckets come as they do among the items. -/
theorem firsts_group_sublist (key : α → GroupKey) (items : List α) : (firsts (group key items)).Sublist items := by
  induction items using List.reverseRecOn with
  | nil => exact List.Sublist.refl []
  | append_singleton items item ih =>
    have hne : ∀ b ∈ group key items, b.members ≠ [] := by
      intro b hb
      obtain ⟨first, rest, hmembers, -⟩ := (isGrouping_group key items).first b hb
      simp [hmembers]
    rw [group_concat]
    rcases firsts_insert (key item) item hne with h | h
    · rw [h]
      exact ih.trans (List.sublist_append_left items [item])
    · rw [h]
      exact ih.append_right [item]

/-- Of items that differ, each is in one bucket, once. -/
theorem perm_flatMap_members {key : α → GroupKey} {items : List α} {buckets : List (Bucket α)}
    (h : IsGrouping key items buckets) (hitems : items.Nodup) : (buckets.flatMap members).Perm items := by
  have hkeys : buckets.Pairwise fun b c => b.key.canonical ≠ c.key.canonical := by
    have hnodup : (canonicalKeys buckets).Nodup := h.keys ▸ nodup_eraseDups _
    exact List.pairwise_map.1 hnodup
  have hmem : ∀ {b}, b ∈ buckets → ∀ {i}, i ∈ b.members ↔ i ∈ items ∧ (key i).canonical = b.key.canonical := by
    intro b hb i
    rw [h.members b hb, List.mem_filter, decide_eq_true_eq]
  have hnodup : (buckets.flatMap members).Nodup := by
    refine List.nodup_flatMap.2 ⟨fun b hb => h.members b hb ▸ hitems.filter _, ?_⟩
    refine (List.Pairwise.and_mem.1 hkeys).imp ?_
    rintro b c ⟨hb, hc, hne⟩ i hi hi'
    exact hne (((hmem hb).1 hi).2.symm.trans ((hmem hc).1 hi').2)
  rw [List.perm_ext_iff_of_nodup hnodup hitems]
  intro i
  rw [List.mem_flatMap]
  constructor
  · rintro ⟨b, hb, hi⟩
    exact ((hmem hb).1 hi).1
  · intro hi
    have hkey : (key i).canonical ∈ canonicalKeys buckets := by
      rw [h.keys, List.mem_eraseDups]
      exact List.mem_map_of_mem hi
    obtain ⟨b, hb, heq⟩ := List.mem_map.1 hkey
    exact ⟨b, hb, (hmem hb).2 ⟨hi, heq.symm⟩⟩

theorem isPartition_group {n : Nat} (key : Fin n → GroupKey) : IsPartition key (group key (List.finRange n)) := by
  have h := isGrouping_group key (List.finRange n)
  have hmembers : ∀ b ∈ group key (List.finRange n), ∀ i ∈ b.members, (key i).canonical = b.key.canonical := by
    intro b hb i hi
    rw [h.members b hb, List.mem_filter, decide_eq_true_eq] at hi
    exact hi.2
  refine ⟨fun b hb => ?_, ?_, fun b hb i hi => ?_, fun b hb i hi => ?_, ?_, fun b hb => ?_, ?_⟩
  · obtain ⟨first, rest, heq, -⟩ := h.first b hb
    simp [heq]
  · have hnodup : (canonicalKeys (group key (List.finRange n))).Nodup := h.keys ▸ nodup_eraseDups _
    exact (List.pairwise_map.1 hnodup).imp fun hne halike => hne (GroupKey.same_iff_alike.2 halike)
  · exact GroupKey.same_iff_alike.1 (hmembers b hb i hi)
  · obtain ⟨first, rest, heq, hkey⟩ := h.first b hb
    rw [heq] at hi
    cases hi
    exact hkey
  · exact perm_flatMap_members h (List.nodup_finRange n)
  · rw [h.members b hb]
    exact (List.pairwise_lt_finRange n).filter _
  · have hfirsts := (List.pairwise_lt_finRange n).sublist (firsts_group_sublist key (List.finRange n))
    exact List.pairwise_filterMap.1 hfirsts

/-- The buckets of records are those of their places, which are a partition. -/
theorem group_isPartition (fields : List String) (records : List Record) :
    ∃ places : List (Bucket (Fin records.length)),
      IsPartition (fun i => GroupKey.ofRecord fields records[i]) places ∧
        group (GroupKey.ofRecord fields) records = places.map (map fun i => records[i]) := by
  have hrecords : (List.finRange records.length).map (fun i => records[i]) = records := List.map_getElem_finRange records
  refine ⟨_, isPartition_group _, ?_⟩
  nth_rewrite 1 [← hrecords]
  exact group_map _ _ _

end Bucket

end SentenceQuery
