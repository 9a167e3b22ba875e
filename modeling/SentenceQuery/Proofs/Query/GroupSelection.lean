import SentenceQuery.Proofs.Query.Partition
import SentenceQuery.Proofs.Query.Unread

/-!
# Selecting by group columns

Criteria over the fields that records are grouped by may be put to the records or to the groups: the buckets of the records
selected are the buckets whose key is selected (`Bucket.group_select`). For that a criterion must not tell apart two cells that
count as the same (`Operator.holds_canonical`).
-/

namespace SentenceQuery

/-! ## Comparisons of cells that count as the same -/

/-- A comparison sees the value of a number, and nothing else of it. -/
theorem NumberOperator.holds_canonical (op : NumberOperator) (x literal : Binary64) :
    op.holds x.canonical literal = op.holds x literal := by
  have hnan := x.isNaN_canonical
  cases hx : x.isNaN with
  | true => cases op <;> simp [holds, Binary64.lt, Binary64.le, Binary64.eq, hnan, hx]
  | false =>
    have hplace := Binary64.place_canonical hx
    cases op <;> simp [holds, Binary64.lt, Binary64.le, Binary64.eq, hnan, hx, hplace]

theorem Operator.holds_canonical (op : Operator) (cell literal : Cell) :
    op.holds cell.canonical literal = op.holds cell literal := by
  cases cell with
  | text s => rfl
  | number x =>
    cases op with
    | text op => rfl
    | number op =>
      cases literal with
      | text t => rfl
      | number y => exact op.holds_canonical x y

/-- A criterion says the same of two records whose cells in its field count as the same, or are both missing. -/
theorem Criterion.holds_of_canonical_eq {c : Criterion} {r r' : Record}
    (h : (r.get? c.field).map Cell.canonical = (r'.get? c.field).map Cell.canonical) : c.holds r = c.holds r' := by
  unfold holds
  cases hr : r.get? c.field with
  | none =>
    rw [hr, Option.map_none, eq_comm, Option.map_eq_none_iff] at h
    rw [h]
  | some cell =>
    rw [hr, Option.map_some, eq_comm, Option.map_eq_some_iff] at h
    obtain ⟨cell', hr', hsame⟩ := h
    rw [hr']
    calc c.operator.holds cell c.value = c.operator.holds cell'.canonical c.value := by
          rw [hsame, c.operator.holds_canonical]
      _ = c.operator.holds cell' c.value := c.operator.holds_canonical cell' c.value

/-- Criteria over group fields say the same of records with one key. -/
theorem Criteria.accept_of_same {fields : List String} {criteria : List Criterion} (hfields : ∀ c ∈ criteria, c.field ∈ fields)
    {r r' : Record} (h : GroupKey.Same (GroupKey.ofRecord fields r) (GroupKey.ofRecord fields r')) :
    accept criteria r = accept criteria r' := by
  refine accept_congr fun c hc => Criterion.holds_of_canonical_eq ?_
  have hcells := GroupKey.same_iff.1 h
  simp only [GroupKey.ofRecord, GroupKey.canonical, List.map_map] at hcells
  exact List.map_inj_left.1 hcells c.field (hfields c hc)

namespace Bucket

variable {α : Type}

/-! ## Buckets of selected items -/

/-- Where keys that count as the same are selected alike, an item goes into the buckets selected, or is left out with its
bucket. -/
theorem filter_insert {key : GroupKey} {q : GroupKey → Bool} {buckets : List (Bucket α)}
    (hq : ∀ b ∈ buckets, GroupKey.Same b.key key → q b.key = q key) (item : α) :
    ((insert key item buckets).filter fun b => q b.key) =
      if q key then insert key item (buckets.filter fun b => q b.key) else buckets.filter fun b => q b.key := by
  induction buckets with
  | nil => cases h : q key <;> simp [insert, h]
  | cons b rest ih =>
    obtain ⟨hb, hrest⟩ := List.forall_mem_cons.1 hq
    rw [insert]
    by_cases hsame : GroupKey.Same b.key key
    · rw [if_pos hsame]
      cases h : q key with
      | true => simp [insert, hb hsame, h, hsame]
      | false => simp [hb hsame, h]
    · rw [if_neg hsame, List.filter_cons, List.filter_cons, ih hrest]
      cases hkey : q key with
      | true => cases h : q b.key <;> simp [insert, hsame]
      | false => cases h : q b.key <;> simp

/-- Where items with one key are selected alike, the buckets of the items selected are the buckets whose key is. -/
theorem group_filter {key : α → GroupKey} {p : α → Bool} {q : GroupKey → Bool} (hq : ∀ item, q (key item) = p item)
    (hsame : ∀ item item', GroupKey.Same (key item) (key item') → p item = p item') (items : List α) :
    group key (items.filter p) = (group key items).filter fun b => q b.key := by
  induction items using List.reverseRecOn with
  | nil => rfl
  | append_singleton items item ih =>
    have hkeys : ∀ b ∈ group key items, GroupKey.Same b.key (key item) → q b.key = q (key item) := by
      intro b hb h
      obtain ⟨first, rest, -, hkey⟩ := (isGrouping_group key items).first b hb
      rw [hkey] at h ⊢
      rw [hq, hq, hsame first item h]
    rw [group_concat, filter_insert hkeys, List.filter_append, ← ih, hq]
    cases h : p item with
    | true => simp [h, group_concat]
    | false => simp [h]

/-- Grouping the records that criteria over the group fields select leaves the buckets whose key they select, with the same keys
and members and in the same order. -/
theorem group_select {fields : List String} {criteria : List Criterion} (hfields : ∀ c ∈ criteria, c.field ∈ fields)
    (records : List Record) :
    group (GroupKey.ofRecord fields) (Criteria.select criteria records) =
      (group (GroupKey.ofRecord fields) records).filter fun b => Criteria.accept criteria (b.keyRecord fields) := by
  have hkey : ∀ r : Record,
      Criteria.accept criteria (keyRecord fields ⟨GroupKey.ofRecord fields r, []⟩) = Criteria.accept criteria r := by
    intro r
    refine Criteria.accept_congr fun c hc => Criterion.holds_congr ?_
    rw [get?_keyRecord rfl, if_pos (hfields c hc)]
  exact group_filter (q := fun key => Criteria.accept criteria (keyRecord fields ⟨key, []⟩)) hkey
    (fun _ _ h => Criteria.accept_of_same hfields h) records

/-- Rooms that have two zeros, no cell and a NaN in one of the group fields: the zeros share a bucket, and of four buckets three
are left. -/
theorem group_select_three_of_four :
    let fields := ["seats", "type"]
    let criteria : List Criterion :=
      [⟨"seats", .number .equalTo, .number .zero, some .or⟩, ⟨"type", .text .beginsWith, .text "b", none⟩]
    let room (seats : Option Binary64) (type : String) : Record :=
      NameMap.ofList ((seats.map fun x => ("seats", Cell.number x)).toList ++ [("type", .text type)])
    let minusZero : Binary64 := ⟨true, 0, by decide⟩
    let records := [room (some minusZero) "a", room (some (.ofNat 5)) "a", room none "b", room (some .zero) "a",
      room (some .nan) "b"]
    (∀ c ∈ criteria, c.field ∈ fields) ∧ (group (GroupKey.ofRecord fields) records).length = 4 ∧
      group (GroupKey.ofRecord fields) (Criteria.select criteria records) =
        (group (GroupKey.ofRecord fields) records).filter (fun b => Criteria.accept criteria (b.keyRecord fields)) ∧
      (group (GroupKey.ofRecord fields) (Criteria.select criteria records)).map Bucket.members =
        [[room (some minusZero) "a", room (some .zero) "a"], [room none "b"], [room (some .nan) "b"]] := by
  intro fields criteria room minusZero records
  have hfields : ∀ c ∈ criteria, c.field ∈ fields := by decide
  exact ⟨hfields, by decide +kernel, group_select hfields records, by decide +kernel⟩

end Bucket

end SentenceQuery
