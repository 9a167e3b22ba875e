import SentenceQuery.Proofs.Number.Within
import SentenceQuery.Proofs.Query.Meaning
import SentenceQuery.Proofs.Table.RowText

/-!
# Answers over finite records are finite

MIN and MAX answer one of their numbers, SUM and AVG a decimal, and COUNT counts what can be counted, so no aggregate brings in an infinity
or a NaN. Every number in a row comes from a record or from an aggregate, so the rows over records with finite numbers have
finite numbers (`Plan.isFinite_answer`).
-/

namespace SentenceQuery

/-! ## Aggregates -/

/-- A number of things that can be counted is finite. -/
theorem Binary64.isFinite_ofNat {n : Nat} (h : n < twoPow 64) : (ofNat n).isFinite = true := by
  have hcode : WithinTwoPow 64 (nearestCode n 1) := withinTwoPow_nearestCode Nat.one_pos (by omega) (by decide)
  exact hcode.isFinite false

namespace Aggregate

variable {x y : Binary64}

theorem lesser_eq_or (x y : Binary64) : lesser x y = x ∨ lesser x y = y := by
  unfold lesser
  split
  · exact Or.inl rfl
  · split
    · exact Or.inr rfl
    · exact Or.inl rfl

theorem greater_eq_or (x y : Binary64) : greater x y = x ∨ greater x y = y := by
  unfold greater
  split
  · exact Or.inl rfl
  · split
    · exact Or.inr rfl
    · exact Or.inl rfl

/-- The place of a finite number is between those of the infinities. -/
theorem place_bounds (h : x.isFinite = true) :
    x.isNaN = false ∧ (Binary64.infinity true).place < x.place ∧ x.place < (Binary64.infinity false).place := by
  obtain ⟨negative, code, _⟩ := x
  have hcode : code < Binary64.infinityCode := of_decide_eq_true h
  refine ⟨decide_eq_false (by simp only; omega), ?_, ?_⟩ <;>
    · simp only [Binary64.place, Binary64.infinity]
      cases negative <;> simp <;> omega

/-- The first number takes the place of the infinity that the least is looked for from. -/
theorem lesser_infinity (h : x.isFinite = true) : lesser (.infinity false) x = x := by
  obtain ⟨hNaN, -, hlt⟩ := place_bounds h
  have hinfinity : (Binary64.infinity false).isNaN = false := rfl
  simp [lesser, Binary64.lt, hNaN, hinfinity, hlt]

theorem greater_infinity (h : x.isFinite = true) : greater (.infinity true) x = x := by
  obtain ⟨hNaN, hlt, -⟩ := place_bounds h
  have hinfinity : (Binary64.infinity true).isNaN = false := rfl
  simp [greater, Binary64.lt, hNaN, hinfinity, hlt]

/-- A choice between numbers that begins with a finite one and goes on over finite ones ends with one. -/
theorem isFinite_foldl {f : Binary64 → Binary64 → Binary64} (hf : ∀ x y, f x y = x ∨ f x y = y) {xs : List Binary64}
    (hxs : ∀ x ∈ xs, x.isFinite = true) {first : Binary64} (hfirst : first.isFinite = true) :
    (xs.foldl f first).isFinite = true := by
  induction xs generalizing first with
  | nil => exact hfirst
  | cons x xs ih =>
    refine ih (fun y hy => hxs y (List.mem_cons_of_mem _ hy)) ?_
    rcases hf first x with heq | heq
    · rw [heq]
      exact hfirst
    · rw [heq]
      exact hxs x List.mem_cons_self

theorem isFinite_rounded {d : Option Decimal96} (h : rounded d = .ok x) : x.isFinite = true := by
  unfold rounded at h
  split at h
  · cases h
  · cases h
    exact Decimal96.isFinite_toBinary64 _

/-- Whatever is made of finite numbers, but counting them, is finite. -/
theorem isFinite_reduce {op : Aggregate} (hop : op ≠ .count) {xs : List Binary64} (hxs : ∀ y ∈ xs, y.isFinite = true)
    (h : op.reduce xs = .ok x) : x.isFinite = true := by
  unfold reduce at h
  rw [check_eq_ok] at h
  obtain ⟨hne, h⟩ := h
  obtain ⟨y, ys, rfl⟩ : ∃ y ys, xs = y :: ys := List.exists_cons_of_ne_nil fun hempty => hne ⟨hempty, hop⟩
  have hy : y.isFinite = true := hxs y List.mem_cons_self
  have hys : ∀ z ∈ ys, z.isFinite = true := fun z hz => hxs z (List.mem_cons_of_mem _ hz)
  cases op with
  | min =>
    rw [Except.ok.injEq, List.foldl_cons, lesser_infinity hy] at h
    exact h ▸ isFinite_foldl lesser_eq_or hys hy
  | max =>
    rw [Except.ok.injEq, List.foldl_cons, greater_infinity hy] at h
    exact h ▸ isFinite_foldl greater_eq_or hys hy
  | sum =>
    obtain ⟨total, -, hrounded⟩ := bind_eq_ok.1 h
    exact isFinite_rounded hrounded
  | avg =>
    obtain ⟨total, -, hrounded⟩ := bind_eq_ok.1 h
    exact isFinite_rounded hrounded
  | count => exact absurd rfl hop

end Aggregate

/-- An aggregate of finite cells is finite. -/
theorem IsAggregate.isFinite {op : Aggregate} {cells : List Cell} {cell : Cell} (h : IsAggregate op cells cell)
    (hcells : ∀ c ∈ cells, c.IsFinite) (hlength : cells.length < twoPow 64) : cell.IsFinite := by
  rintro x rfl
  cases h with
  | count =>
    refine Binary64.isFinite_ofNat (Nat.lt_of_le_of_lt ?_ hlength)
    exact (List.toFinset_card_le _).trans (Nat.le_of_eq (List.length_map _))
  | reduce hop hreduce =>
    exact Aggregate.isFinite_reduce hop (fun y hy => hcells (.number y) (List.mem_map_of_mem hy) y rfl) hreduce

/-! ## Rows -/

/-- No cell of the record is an infinity or a NaN. -/
def Record.IsFinite (r : Record) : Prop := ∀ field cell, r.get? field = some cell → cell.IsFinite

namespace Plan

variable {p : Plan}

theorem isFinite_rowOf {cell? : String → Option Cell}
    (h : ∀ f ∈ p.displayFields, ∀ cell, cell? f = some cell → cell.IsFinite) : (p.rowOf cell?).IsFinite := by
  intro c hc
  obtain ⟨f, hf, hcell⟩ := List.mem_filterMap.1 hc
  obtain ⟨cell, hget, rfl⟩ := Option.map_eq_some_iff.1 hcell
  exact h f hf cell hget

/-- A group of finite records shows a row of finite cells. -/
theorem isFinite_of_showsGroup (hp : p.WellFormed) (hgrouped : p.groupFields ≠ []) {members : List Record} {row : Row}
    (h : p.ShowsGroup members row) (hmembers : ∀ r ∈ members, Record.IsFinite r) (hlength : members.length < twoPow 64) :
    row.IsFinite := by
  obtain ⟨cell?, rfl, ⟨first, rest, rfl, hgroup⟩, hderived⟩ := h
  refine isFinite_rowOf fun f hf cell hcell => ?_
  rcases hp.mem_of_display hgrouped hf with hf | hname
  · exact hmembers first List.mem_cons_self f cell ((hgroup f hf).symm.trans hcell)
  · obtain ⟨d, hd, rfl⟩ := List.mem_map.1 hname
    obtain ⟨cell', hcell', haggregate⟩ := hderived d hd
    obtain rfl := Option.some.inj (hcell'.symm.trans hcell)
    refine haggregate.isFinite (fun c hc => ?_) (Nat.lt_of_le_of_lt (List.length_filterMap_le _ _) hlength)
    obtain ⟨r, hr, hget⟩ := List.mem_filterMap.1 hc
    exact hmembers r hr d.field c hget

/-- Rows over finite records are finite, if there are no more records than 64 bits can count. -/
theorem isFinite_answer (hp : p.WellFormed) {records : List Record} (hrecords : ∀ r ∈ records, Record.IsFinite r)
    (hlength : records.length < twoPow 64) {rows : List Row} (h : p.answer records = .ok rows) :
    ∀ row ∈ rows, row.IsFinite := by
  have hselected : ∀ r ∈ Criteria.select p.criteria records, Record.IsFinite r := fun r hr =>
    hrecords r (List.mem_filter.1 hr).1
  have hfew : (Criteria.select p.criteria records).length < twoPow 64 :=
    Nat.lt_of_le_of_lt (List.length_filter_le _ _) hlength
  intro row hrow
  by_cases hplain : p.groupFields = []
  · have hmem := ((meansRecords_answer hp hplain records).rows_perm rows h).mem_iff.1 hrow
    obtain ⟨r, hr, rfl⟩ := List.mem_map.1 hmem
    exact isFinite_rowOf fun f _ => hselected r hr f
  · obtain ⟨shown, hperm, -, hshown⟩ := (meansGroups_answer hp hplain records).rows_shown rows h
    obtain ⟨key, -, hgroup⟩ := exists_left_of_forall₂ hshown (hperm.mem_iff.1 hrow)
    exact isFinite_of_showsGroup hp hplain hgroup (fun r hr => hselected r (List.mem_filter.1 hr).1)
      (Nat.lt_of_le_of_lt (List.length_filter_le _ _) hfew)

end Plan

end SentenceQuery
