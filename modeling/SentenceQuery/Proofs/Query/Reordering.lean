import SentenceQuery.Proofs.Aggregate
import SentenceQuery.Proofs.Dataset.Service
import SentenceQuery.Proofs.Query.Meaning

/-!
# Records in another order

A plan with groups answers the same rows, in some order, if its records come in another order: COUNT, MIN and MAX whatever the records
are, SUM and AVG where the sums of each group are steady (`Plan.answer_perm`). Where they are not, a sum on the way may lose digits or
be refused, or a large one be converted from other places, and the answer depends on the order.
-/

namespace SentenceQuery

/-! ## Rows that count as the same -/

/-- The row with each cell replaced by what stands for it. -/
def Row.canonical (r : Row) : Row := ⟨r.cells.map fun c => (c.1, c.2.canonical)⟩

/-- Rows count as the same just if one row stands for both. -/
theorem Row.same_iff {r s : Row} : r.Same s ↔ r.canonical = s.canonical := by
  rw [Row.Same, Row.canonical, Row.canonical, Row.mk.injEq]

/-- If each of the cells is a number that has a decimal, these have one sum in every order. -/
def SteadyCells (cells : List Cell) : Prop := ∀ numbers, cells = numbers.map .number → Aggregate.SteadySum numbers

theorem cellsIn_perm {members members' : List Record} (h : members.Perm members') (field : String) :
    (cellsIn field members).Perm (cellsIn field members') := h.filterMap _

/-- Numbers in another order are numbers in another order. -/
theorem exists_numbers_of_perm {numbers : List Binary64} {cells : List Cell} (h : (numbers.map Cell.number).Perm cells) :
    ∃ numbers', cells = numbers'.map .number ∧ numbers.Perm numbers' := by
  have hnumbers : List.Forall₂ (fun cell x => cell = Cell.number x) (numbers.map Cell.number) numbers := by
    rw [List.forall₂_map_left_iff]
    exact List.forall₂_same.2 fun _ _ => rfl
  obtain ⟨numbers', hcells, hperm⟩ := List.perm_comp_forall₂ h.symm hnumbers
  refine ⟨numbers', ?_, hperm.symm⟩
  rw [← List.forall₂_eq_eq_eq, List.forall₂_map_right_iff]
  exact hcells

theorem SteadyCells.perm {cells cells' : List Cell} (h : SteadyCells cells) (hperm : cells.Perm cells') :
    SteadyCells cells' := by
  rintro numbers rfl
  obtain ⟨numbers', rfl, hnumbers⟩ := exists_numbers_of_perm hperm.symm
  intro ds hds
  obtain ⟨ds', hds', hperm'⟩ := List.perm_comp_forall₂ hnumbers.symm hds
  exact (h numbers' rfl ds' hds').perm hperm'

/-- The aggregate of cells is that of the same cells in another order, if their sum, where it counts, is steady. -/
theorem IsAggregate.perm {op : Aggregate} {cells cells' : List Cell} (hperm : cells.Perm cells')
    (hsteady : op = .avg ∨ op = .sum → SteadyCells cells) {cell : Cell} (h : IsAggregate op cells cell) :
    ∃ cell', IsAggregate op cells' cell' ∧ cell.Same cell' := by
  cases h with
  | count =>
    have hfinset : (cells.map Cell.canonical).toFinset = (cells'.map Cell.canonical).toFinset :=
      List.toFinset_eq_of_perm _ _ (hperm.map _)
    exact ⟨_, .count, by rw [hfinset]; rfl⟩
  | reduce hop hreduce =>
    obtain ⟨numbers', rfl, hnumbers⟩ := exists_numbers_of_perm hperm
    obtain ⟨x', hx', hsame⟩ := Aggregate.reduce_perm hnumbers (fun h => hsteady h _ rfl) hreduce
    exact ⟨.number x', .reduce hop hx', congrArg Cell.number hsame⟩

/-- Cells have one aggregate. -/
theorem IsAggregate.unique {op : Aggregate} {cells : List Cell} {cell cell' : Cell} (h : IsAggregate op cells cell)
    (h' : IsAggregate op cells cell') : cell = cell' := by
  cases h with
  | count =>
    cases h' with
    | count => rfl
    | reduce hop _ => exact absurd rfl hop
  | @reduce _ numbers x hop hreduce =>
    generalize hcells : numbers.map Cell.number = cells at h'
    cases h' with
    | count => exact absurd rfl hop
    | @reduce _ numbers' x' _ hreduce' =>
      obtain rfl : numbers = numbers' := List.map_injective_iff.2 (fun _ _ h => Cell.number.inj h) hcells
      rw [hreduce, Except.ok.injEq] at hreduce'
      rw [hreduce']

/-! ## Groups -/

namespace Plan

/-- Sums and means of the members of a group are steady. -/
def SteadyGroup (p : Plan) (members : List Record) : Prop :=
  ∀ d ∈ p.applyDefs, d.op = .avg ∨ d.op = .sum → SteadyCells (cellsIn d.field members)

/-- Sums and means of each group of the records selected are steady. -/
def SteadyOver (p : Plan) (selected : List Record) : Prop :=
  ∀ key ∈ selected.map p.keyOf, p.SteadyGroup (selected.filter (p.keyOf · = key))

variable {p : Plan}

theorem SteadyGroup.perm {members members' : List Record} (h : p.SteadyGroup members) (hperm : members.Perm members') :
    p.SteadyGroup members' :=
  fun d hd hop => (h d hd hop).perm (cellsIn_perm hperm d.field)

theorem SteadyOver.perm {selected selected' : List Record} (h : p.SteadyOver selected) (hperm : selected.Perm selected') :
    p.SteadyOver selected' :=
  fun key hkey => (h key ((hperm.map p.keyOf).mem_iff.2 hkey)).perm (hperm.filter _)

end Plan

end SentenceQuery
