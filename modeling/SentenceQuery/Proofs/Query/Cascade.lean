import SentenceQuery.Proofs.Query.Sorting

/-!
# Sorting by one field after the other

Rows are sorted by the first field by which they differ, in the direction of the order, and rows that no field tells apart stay as they
are (`Order.IsSorting`). Where each field orders the rows weakly, there is one such list, and it is what sorting gives; it comes out as
well by sorting with the later fields first and then with the first one alone (`Order.isSorting_iff_eq_sort`).
-/

namespace SentenceQuery

namespace Row

/-- The rows tie by every field. -/
def TieBy (fields : List String) (a b : Row) : Prop := ∀ f ∈ fields, compareBy f a b = .eq

instance (fields : List String) (a b : Row) : Decidable (TieBy fields a b) :=
  inferInstanceAs (Decidable (∀ f ∈ fields, compareBy f a b = .eq))

/-- The field is the first one by which the rows differ. -/
def DifferFirstBy (f : String) (fields : List String) (a b : Row) : Prop :=
  ∃ earlier later, fields = earlier ++ f :: later ∧ TieBy earlier a b ∧ compareBy f a b ≠ .eq

/-- Every row has a cell in the field, and these are texts or are numbers other than NaNs. -/
def Comparable (field : String) (rows : List Row) : Prop :=
  ∃ type, ∀ row ∈ rows, ∃ cell, row.get? field = some cell ∧ cell.fieldType = type ∧ cell.NaNFree

theorem Comparable.ordersWeakly {field : String} {rows : List Row} (h : Comparable field rows) :
    OrdersWeakly (compareBy field) rows := by
  obtain ⟨type, hcells⟩ := h
  have hall : AllOf field type rows := by
    intro row hrow
    obtain ⟨cell, hget, htype, -⟩ := hcells row hrow
    exact ⟨cell, hget, htype⟩
  refine ordersWeakly_compareBy_of_allOf hall fun row hrow cell hget => ?_
  obtain ⟨cell', hget', -, hNaN⟩ := hcells row hrow
  rw [hget, Option.some.injEq] at hget'
  exact hget' ▸ hNaN

/-- Rows tie by every field, or there is a first one by which they differ. -/
theorem tieBy_or_differFirstBy (fields : List String) (a b : Row) :
    TieBy fields a b ∨ ∃ f, DifferFirstBy f fields a b := by
  induction fields with
  | nil => exact Or.inl nofun
  | cons g fields ih =>
    by_cases hg : compareBy g a b = .eq
    · rcases ih with htie | ⟨f, earlier, later, rfl, htie, hdiffer⟩
      · exact Or.inl (List.forall_mem_cons.2 ⟨hg, htie⟩)
      · exact Or.inr ⟨f, g :: earlier, later, rfl, List.forall_mem_cons.2 ⟨hg, htie⟩, hdiffer⟩
    · exact Or.inr ⟨g, [], fields, rfl, nofun, hg⟩

end Row

/-- How what comes first compares with what comes behind it and differs from it. -/
def Direction.first : Direction → Ordering
  | .ascending => .lt
  | .descending => .gt

/-- Of two that differ, one may come first just if it compares as what comes first does. -/
theorem Direction.apply_ne_gt_iff {direction : Direction} {comparison : Ordering} (h : comparison ≠ .eq) :
    direction.apply comparison ≠ .gt ↔ comparison = direction.first := by
  cases direction <;> cases comparison <;> first | exact absurd rfl h | decide

namespace Order

variable {o : Order} {rows sorted : List Row}

/-- The rows are sorted: the same rows, each in order with those behind it by the first field by which they differ, and rows that no
field tells apart as they were, whatever the direction is. -/
structure IsSorting (o : Order) (rows sorted : List Row) : Prop where
  perm : sorted.Perm rows
  ordered : sorted.Pairwise fun a b => ∀ f, Row.DifferFirstBy f o.fields a b → Row.compareBy f a b = o.direction.first
  stable : ∀ a ∈ rows, sorted.filter (fun b => Row.TieBy o.fields a b) = rows.filter (fun b => Row.TieBy o.fields a b)

/-! ## Comparing by several fields -/

theorem compare_cons (direction : Direction) (f : String) (rest : List String) (a b : Row) :
    compare ⟨direction, f :: rest⟩ a b = (compare ⟨direction, [f]⟩ a b).then (compare ⟨direction, rest⟩ a b) := by
  cases direction with
  | ascending => simp [compare, Direction.apply]
  | descending => simp [compare, Direction.apply, Ordering.swap_then]

theorem compare_eq_iff {a b : Row} : o.compare a b = .eq ↔ Row.TieBy o.fields a b := by
  obtain ⟨direction, fields⟩ := o
  have hcascade : fields.foldr (fun field rest => (Row.compareBy field a b).then rest) .eq = .eq ↔ Row.TieBy fields a b := by
    unfold Row.TieBy
    induction fields with
    | nil => simp
    | cons f fields ih => rw [List.foldr_cons, Ordering.then_eq_eq, ih, List.forall_mem_cons]
  cases direction with
  | ascending => exact hcascade
  | descending => exact Ordering.swap_eq_eq.trans hcascade

/-- The first field by which rows differ decides. -/
theorem compare_of_differFirstBy {a b : Row} {f : String} (h : Row.DifferFirstBy f o.fields a b) :
    o.compare a b = o.direction.apply (Row.compareBy f a b) := by
  obtain ⟨earlier, later, hfields, htie, hdiffer⟩ := h
  rw [compare, hfields]
  congr 1
  clear hfields
  induction earlier with
  | nil =>
    rw [List.nil_append, List.foldr_cons]
    cases hab : Row.compareBy f a b with
    | eq => exact absurd hab hdiffer
    | lt => rfl
    | gt => rfl
  | cons g earlier ih =>
    obtain ⟨hg, htie⟩ := List.forall_mem_cons.1 htie
    rw [List.cons_append, List.foldr_cons, hg, Ordering.eq_then, ih htie]

theorem compare_ne_gt_iff {a b : Row} :
    o.compare a b ≠ .gt ↔ ∀ f, Row.DifferFirstBy f o.fields a b → Row.compareBy f a b = o.direction.first := by
  constructor
  · intro h f hf
    have hdiffer : Row.compareBy f a b ≠ .eq := by
      obtain ⟨_, _, -, -, hdiffer⟩ := hf
      exact hdiffer
    rw [compare_of_differFirstBy hf] at h
    exact (Direction.apply_ne_gt_iff hdiffer).1 h
  · intro h
    rcases Row.tieBy_or_differFirstBy o.fields a b with htie | ⟨f, hf⟩
    · rw [compare_eq_iff.2 htie]
      exact nofun
    · rw [compare_of_differFirstBy hf, h f hf]
      cases o.direction <;> exact nofun

/-! ## Sorting -/

theorem isSorting_iff : o.IsSorting rows sorted ↔ SortedStably o.compare rows sorted := by
  have htie : ∀ a (xs : List Row), xs.filter (fun b => Row.TieBy o.fields a b) = xs.filter (o.compare a · = .eq) := fun a xs => by
    simp only [compare_eq_iff]
  constructor
  · intro h
    refine ⟨h.perm, h.ordered.imp fun hab => compare_ne_gt_iff.2 hab, fun a ha => ?_⟩
    rw [← htie, ← htie, h.stable a ha]
  · intro h
    refine ⟨h.perm, h.sorted.imp fun hab => compare_ne_gt_iff.1 hab, fun a ha => ?_⟩
    rw [htie, htie, h.stable a ha]

/-- Sorting by the later fields first and then by the first one alone. -/
theorem sort_cons {direction : Direction} {f : String} {rest : List String}
    (h : ∀ g ∈ f :: rest, OrdersWeakly (Row.compareBy g) rows) :
    sort ⟨direction, f :: rest⟩ rows = sort ⟨direction, [f]⟩ (sort ⟨direction, rest⟩ rows) := by
  have hstable : ∀ (o : Order) (rows : List Row), (∀ g ∈ o.fields, OrdersWeakly (Row.compareBy g) rows) →
      SortedStably o.compare rows (o.sort rows) := fun o rows hrows => by
    rw [sort_eq_mergeSort]
    exact (ordersWeakly_of_fields hrows).sortedStably_mergeSort
  have hfirst : ∀ g ∈ [f], OrdersWeakly (Row.compareBy g) rows := fun g hg => h g (List.mem_singleton.1 hg ▸ List.mem_cons_self)
  have hrest := hstable ⟨direction, rest⟩ rows fun g hg => h g (List.mem_cons_of_mem _ hg)
  have hlast := hstable ⟨direction, [f]⟩ (sort ⟨direction, rest⟩ rows) fun g hg =>
    (hfirst g hg).mono fun _ hrow => hrest.perm.mem_iff.1 hrow
  have htwice := SortedStably.andThen (ordersWeakly_of_fields (o := ⟨direction, [f]⟩) hfirst) hrest hlast
  have hcascade : (fun a b => (compare ⟨direction, [f]⟩ a b).then (compare ⟨direction, rest⟩ a b)) =
      compare ⟨direction, f :: rest⟩ := by
    funext a b
    exact (compare_cons direction f rest a b).symm
  rw [hcascade] at htwice
  rw [sort_eq_mergeSort ⟨direction, f :: rest⟩]
  exact ((ordersWeakly_of_fields (o := ⟨direction, f :: rest⟩) h).sortedStably_iff.1 htwice).symm

/-- Rows that have cells of one type in a field, and no NaNs, are ordered weakly by it. Where each field to sort by orders the rows
weakly, sorting gives the only list that is sorted; it is found as well by sorting by one field after the other, the first one last.
Without a field to sort by the rows stay as they are. -/
theorem isSorting_iff_eq_sort (o : Order) (rows : List Row) :
    (∀ f, Row.Comparable f rows → OrdersWeakly (Row.compareBy f) rows) ∧
    ((∀ f ∈ o.fields, OrdersWeakly (Row.compareBy f) rows) →
      (∀ sorted, o.IsSorting rows sorted ↔ sorted = o.sort rows) ∧
      (∀ f rest, o.fields = f :: rest → o.sort rows = sort ⟨o.direction, [f]⟩ (sort ⟨o.direction, rest⟩ rows))) ∧
    (o.fields = [] → o.sort rows = rows) := by
  refine ⟨fun f hf => hf.ordersWeakly, fun h => ⟨fun sorted => ?_, fun f rest hfields => ?_⟩, fun hnone => ?_⟩
  · rw [isSorting_iff, sort_eq_mergeSort]
    exact (ordersWeakly_of_fields h).sortedStably_iff
  · obtain ⟨direction, fields⟩ := o
    obtain rfl : fields = f :: rest := hfields
    exact sort_cons h
  · exact sort_of_fields_eq_nil hnone rows

/-- Courses in descending order by department and average: two that tie by both stay in the order in which they were. -/
theorem isSorting_iff_eq_sort_descending :
    let row (dept : String) (avg : Nat) (title : String) : Row :=
      ⟨[("dept", .text dept), ("avg", .number (.ofNat avg)), ("title", .text title)]⟩
    let rows := [row "cpsc" 80 "a", row "math" 80 "b", row "cpsc" 80 "c", row "cpsc" 70 "d"]
    let o : Order := ⟨.descending, ["dept", "avg"]⟩
    (∀ f ∈ o.fields, OrdersWeakly (Row.compareBy f) rows) ∧
      o.sort rows = [row "math" 80 "b", row "cpsc" 80 "a", row "cpsc" 80 "c", row "cpsc" 70 "d"] ∧
      o.sort rows = sort ⟨.descending, ["dept"]⟩ (sort ⟨.descending, ["avg"]⟩ rows) := by
  intro row rows o
  have hcomparable : ∀ f ∈ o.fields, Row.Comparable f rows := by
    intro f hf
    rcases List.mem_pair.1 hf with rfl | rfl
    · exact ⟨.text, by simp [rows, row, Row.get?, Cell.fieldType, Cell.NaNFree]⟩
    · exact ⟨.number, by simp [rows, row, Row.get?, Cell.fieldType, Cell.NaNFree, Binary64.ofNat, Binary64.isNaN_ofCode]⟩
  have hords : ∀ f ∈ o.fields, OrdersWeakly (Row.compareBy f) rows := fun f hf =>
    (isSorting_iff_eq_sort o rows).1 f (hcomparable f hf)
  obtain ⟨hsorted, hcascade⟩ := (isSorting_iff_eq_sort o rows).2.1 hords
  refine ⟨hords, ((hsorted _).1 (isSorting_iff.2 ⟨?_, ?_, ?_⟩)).symm, hcascade "dept" ["avg"] rfl⟩
  · decide +kernel
  · decide +kernel
  · decide +kernel

end Order

end SentenceQuery
