import SentenceQuery.Proofs.Aggregate
import SentenceQuery.Proofs.Query.Meaning

/-!
# Counting numbers and counting cells

The aggregate COUNT of a list of numbers takes the two zeros as one number. The derived column COUNT of a group takes the NaNs as one as
well, as cells are told apart everywhere else. The two agree on every list without two different NaNs, and each further NaN is one that
the aggregate counts and the column does not (`Aggregate.reduce_count`).
-/

namespace SentenceQuery

namespace Binary64

/-- The NaN with a sign. -/
def negativeNaN : Binary64 := { nan with negative := true }

theorem canonical_eq_mergeZeros {x : Binary64} (h : x.isNaN = false) : x.canonical = x.mergeZeros := by
  simp [canonical, mergeZeros, h]

theorem isNaN_mergeZeros (x : Binary64) : x.mergeZeros.isNaN = x.isNaN := by
  unfold mergeZeros
  split
  · rename_i hzero
    rw [isNaN_of_isZero hzero]
    rfl
  · rfl

theorem mergeZeros_of_isNaN {x : Binary64} (h : x.isNaN = true) : x.mergeZeros = x :=
  if_neg fun hzero => by rw [isNaN_of_isZero hzero] at h; cases h

/-- The NaNs of a list are told apart from each other, and are none of the other numbers. -/
theorem countDistinct_mergeZeros (xs : List Binary64) :
    countDistinct (xs.map mergeZeros) =
      countDistinct (xs.filter isNaN) + countDistinct ((xs.filter fun x => !x.isNaN).map mergeZeros) := by
  have hperm := (List.filter_append_perm isNaN xs).map mergeZeros
  have hnans : (xs.filter isNaN).map mergeZeros = xs.filter isNaN :=
    (List.map_congr_left fun x hx => mergeZeros_of_isNaN (List.mem_filter.1 hx).2).trans (List.map_id _)
  rw [List.map_append, hnans] at hperm
  rw [← countDistinct_perm hperm]
  refine countDistinct_append fun x hnan hother => ?_
  obtain ⟨y, hy, rfl⟩ := List.mem_map.1 hother
  have hnot := (List.mem_filter.1 hy).2
  rw [← isNaN_mergeZeros, (List.mem_filter.1 hnan).2] at hnot
  cases hnot

/-- The NaNs of a list count as one, and as none of the other numbers. -/
theorem countDistinct_canonical (xs : List Binary64) :
    countDistinct (xs.map canonical) =
      min 1 (countDistinct (xs.filter isNaN)) + countDistinct ((xs.filter fun x => !x.isNaN).map mergeZeros) := by
  have hothers : (xs.filter fun x => !x.isNaN).map canonical = (xs.filter fun x => !x.isNaN).map mergeZeros :=
    List.map_congr_left fun x hx => canonical_eq_mergeZeros (by simpa using (List.mem_filter.1 hx).2)
  have hnan : ∀ x ∈ (xs.filter isNaN).map canonical, x = nan := by
    intro x hx
    obtain ⟨y, hy, rfl⟩ := List.mem_map.1 hx
    exact canonical_of_isNaN (List.mem_filter.1 hy).2
  have hcount : countDistinct ((xs.filter isNaN).map canonical) = min 1 (countDistinct (xs.filter isNaN)) := by
    by_cases hnone : xs.filter isNaN = []
    · rw [hnone]
      rfl
    · have hpos : countDistinct (xs.filter isNaN) ≠ 0 := fun hzero => hnone (countDistinct_eq_zero.1 hzero)
      rw [countDistinct_of_forall_eq (by simpa using hnone) fun x hx y hy => (hnan x hx).trans (hnan y hy).symm]
      omega
  rw [← countDistinct_perm ((List.filter_append_perm isNaN xs).map canonical), List.map_append, hothers, ← hcount]
  refine countDistinct_append fun x hx hother => ?_
  obtain ⟨y, hy, rfl⟩ := List.mem_map.1 hother
  have hnot := (List.mem_filter.1 hy).2
  rw [← isNaN_mergeZeros, hnan _ hx] at hnot
  exact absurd hnot (by decide)

/-- What the column counts, and what the aggregate counts beyond it. -/
theorem countDistinct_mergeZeros_eq (xs : List Binary64) :
    countDistinct (xs.map mergeZeros) = countDistinct (xs.map canonical) + (countDistinct (xs.filter isNaN) - 1) := by
  rw [countDistinct_mergeZeros, countDistinct_canonical]
  omega

end Binary64

namespace Aggregate

open Binary64

theorem derive_count {d : ApplyDefinition} (hop : d.op = .count) {members : List Record} {xs : List Binary64}
    (hcells : cellsIn d.field members = xs.map Cell.number) :
    d.derive members = .ok (.number (.ofNat (countDistinct (xs.map canonical)))) := by
  have hnumber : Function.Injective Cell.number := fun _ _ h => Cell.number.inj h
  have hcanonical : (xs.map Cell.number).map Cell.canonical = (xs.map canonical).map Cell.number := by
    rw [List.map_map, List.map_map]
    rfl
  rw [derive_eq, if_pos hop, hcells, hcanonical, countDistinct_map hnumber]

/-- Over a group whose cells in the source field are these numbers, a column COUNT has the number of those that count as different
cells, and the aggregate COUNT of the numbers is that and one more for each further NaN. So they agree where no two NaNs differ. -/
theorem reduce_count {d : ApplyDefinition} (hop : d.op = .count) {members : List Record} {xs : List Binary64}
    (hcells : cellsIn d.field members = xs.map Cell.number) :
    d.derive members = .ok (.number (.ofNat (countDistinct (xs.map canonical)))) ∧
      count.reduce xs = .ok (.ofNat (countDistinct (xs.map canonical) + (countDistinct (xs.filter isNaN) - 1))) ∧
      ((∀ x ∈ xs, ∀ y ∈ xs, x.isNaN = true → y.isNaN = true → x = y) →
        ∃ n, count.reduce xs = .ok n ∧ d.derive members = .ok (.number n)) := by
  have hderive := derive_count hop hcells
  have hreduce : count.reduce xs =
      .ok (.ofNat (countDistinct (xs.map canonical) + (countDistinct (xs.filter isNaN) - 1))) := by
    rw [← countDistinct_mergeZeros_eq]
    exact if_neg fun h => h.2 rfl
  refine ⟨hderive, hreduce, fun hsame => ⟨_, hreduce, ?_⟩⟩
  have hone : countDistinct (xs.filter isNaN) - 1 = 0 := by
    by_cases hnone : xs.filter isNaN = []
    · rw [hnone]
      rfl
    · rw [countDistinct_of_forall_eq hnone]
      intro x hx y hy
      rw [List.mem_filter] at hx hy
      exact hsame x hx.1 y hy.1 hx.2 hy.2
  rw [hderive, hone, Nat.add_zero]

/-- The two zeros, an infinity and one NaN twice: three numbers for both. -/
theorem reduce_count_three :
    let xs := [Binary64.zero, { Binary64.zero with negative := true }, .infinity true, .nan, .nan]
    let members : List Record := xs.map fun x => NameMap.ofList [("avg", .number x)]
    cellsIn "avg" members = xs.map Cell.number ∧
      ∃ n, count.reduce xs = .ok n ∧ ApplyDefinition.derive ⟨"n", .count, "avg"⟩ members = .ok (.number n) := by
  intro xs members
  have hcells : cellsIn "avg" members = xs.map Cell.number := by decide +kernel
  exact ⟨hcells, (reduce_count (d := ⟨"n", .count, "avg"⟩) rfl hcells).2.2 (by decide +kernel)⟩

/-- NaNs with different signs are two numbers for the aggregate and one for the column. -/
theorem reduce_count_two_nans :
    let xs := [Binary64.nan, negativeNaN]
    let members : List Record := xs.map fun x => NameMap.ofList [("avg", .number x)]
    cellsIn "avg" members = xs.map Cell.number ∧ count.reduce xs = .ok (.ofNat 2) ∧
      ApplyDefinition.derive ⟨"n", .count, "avg"⟩ members = .ok (.number (.ofNat 1)) ∧ Binary64.ofNat 2 ≠ .ofNat 1 := by
  decide +kernel

end Aggregate

end SentenceQuery
