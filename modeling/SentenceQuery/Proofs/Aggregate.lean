import Mathlib.Data.List.Forall2
import Mathlib.Order.Lattice
import SentenceQuery.Proofs.Distinct
import SentenceQuery.Proofs.Number.DecimalSum

/-!
# What aggregates make of numbers

No aggregate is a NaN (`isNaN_reduce`). The least and the greatest number and the number of different ones do not depend on the order
in which the numbers come, up to the sign of a zero; nor do the sum and the mean where the sum of the decimals is steady
(`reduce_perm`).
-/

namespace SentenceQuery

namespace Binary64

theorem isNaN_ofCode (negative : Bool) (code : Nat) : (ofCode negative code).isNaN = false := by
  simp [isNaN, ofCode]

theorem isNaN_of_isZero {x : Binary64} (h : x.isZero = true) : x.isNaN = false := by
  have hcode : x.code = 0 := by simpa [isZero] using h
  simp [isNaN, hcode]

theorem canonical_of_isNaN {x : Binary64} (h : x.isNaN = true) : x.canonical = nan := by
  have hzero : ¬x.isZero = true := fun hzero => by rw [isNaN_of_isZero hzero] at h; cases h
  rw [canonical, if_neg hzero, if_pos h]

/-- Numbers at one place are the same, up to the sign of a zero. -/
theorem canonical_eq_of_place {x y : Binary64} (hx : x.isNaN = false) (hy : y.isNaN = false) (h : x.place = y.place) :
    x.canonical = y.canonical := by
  obtain ⟨sign, code, _⟩ := x
  obtain ⟨sign', code', _⟩ := y
  unfold place at h
  simp only [canonical, hx, hy, isZero]
  by_cases hcode : code = 0
  · have hcode' : code' = 0 := by
      simp only [hcode] at h
      split at h <;> split at h <;> omega
    simp [hcode, hcode']
  · have hcode' : code' ≠ 0 := by
      rintro rfl
      simp only at h
      split at h <;> split at h <;> omega
    simp only [hcode, hcode', decide_false, Bool.false_eq_true, if_false, mk.injEq]
    cases sign <;> cases sign' <;> simp only [Bool.false_eq_true, if_false, if_true] at h <;>
      first | exact ⟨rfl, by omega⟩ | omega

end Binary64

namespace Aggregate

/-! ## No aggregate is a NaN -/

theorem isNaN_lesser {x y : Binary64} (hx : x.isNaN = false) : (lesser x y).isNaN = false := by
  unfold lesser
  split
  · exact hx
  · rename_i hy
    split
    · exact Bool.not_eq_true _ ▸ hy
    · exact hx

theorem isNaN_greater {x y : Binary64} (hx : x.isNaN = false) : (greater x y).isNaN = false := by
  unfold greater
  split
  · exact hx
  · rename_i hy
    split
    · exact Bool.not_eq_true _ ▸ hy
    · exact hx

theorem isNaN_foldl {f : Binary64 → Binary64 → Binary64} (hf : ∀ {x y}, x.isNaN = false → (f x y).isNaN = false)
    (xs : List Binary64) {first : Binary64} (hfirst : first.isNaN = false) : (xs.foldl f first).isNaN = false := by
  induction xs generalizing first with
  | nil => exact hfirst
  | cons x xs ih => exact ih (hf hfirst)

theorem isNaN_rounded {d : Option Decimal96} {x : Binary64} (h : rounded d = .ok x) : x.isNaN = false := by
  unfold rounded at h
  split at h
  · cases h
  · cases h
    exact Binary64.isNaN_ofCode _ _

theorem isNaN_reduce {op : Aggregate} {xs : List Binary64} {x : Binary64} (h : op.reduce xs = .ok x) : x.isNaN = false := by
  unfold reduce at h
  rw [check_eq_ok] at h
  obtain ⟨-, h⟩ := h
  cases op with
  | min =>
    cases h
    exact isNaN_foldl isNaN_lesser xs rfl
  | max =>
    cases h
    exact isNaN_foldl isNaN_greater xs rfl
  | sum =>
    obtain ⟨total, -, hrounded⟩ := bind_eq_ok.1 h
    exact isNaN_rounded hrounded
  | avg =>
    obtain ⟨total, -, hrounded⟩ := bind_eq_ok.1 h
    exact isNaN_rounded hrounded
  | count =>
    cases h
    exact Binary64.isNaN_ofCode _ _

/-! ## The least and the greatest number -/

/-- One more number, passed over if it is a NaN. -/
def step (best : Int → Int → Int) (place : Int) (y : Binary64) : Int := if y.isNaN then place else best place y.place

theorem place_lesser {x : Binary64} (hx : x.isNaN = false) (y : Binary64) :
    (lesser x y).place = step Min.min x.place y := by
  unfold lesser step Binary64.lt
  by_cases hy : y.isNaN = true
  · rw [if_pos hy, if_pos hy]
  · rw [Bool.not_eq_true] at hy
    by_cases hlt : y.place < x.place
    · simp [hx, hy, hlt, Int.min_eq_right (Int.le_of_lt hlt)]
    · simp [hx, hy, hlt, Int.min_eq_left (Int.not_lt.1 hlt)]

theorem place_greater {x : Binary64} (hx : x.isNaN = false) (y : Binary64) :
    (greater x y).place = step Max.max x.place y := by
  unfold greater step Binary64.lt
  by_cases hy : y.isNaN = true
  · rw [if_pos hy, if_pos hy]
  · rw [Bool.not_eq_true] at hy
    by_cases hlt : x.place < y.place
    · simp [hx, hy, hlt, Int.max_eq_right (Int.le_of_lt hlt)]
    · simp [hx, hy, hlt, Int.max_eq_left (Int.not_lt.1 hlt)]

theorem place_foldl {f : Binary64 → Binary64 → Binary64} {best : Int → Int → Int}
    (hf : ∀ {x y}, x.isNaN = false → (f x y).isNaN = false)
    (hplace : ∀ {x}, x.isNaN = false → ∀ y, (f x y).place = step best x.place y) (xs : List Binary64) {first : Binary64}
    (hfirst : first.isNaN = false) : (xs.foldl f first).place = xs.foldl (step best) first.place := by
  induction xs generalizing first with
  | nil => rfl
  | cons x xs ih => rw [List.foldl_cons, List.foldl_cons, ih (hf hfirst), hplace hfirst]

/-- Numbers are picked by their places in any order, if the places are. -/
theorem canonical_foldl_perm {f : Binary64 → Binary64 → Binary64} {best : Int → Int → Int}
    (hf : ∀ {x y}, x.isNaN = false → (f x y).isNaN = false)
    (hplace : ∀ {x}, x.isNaN = false → ∀ y, (f x y).place = step best x.place y)
    (hbest : ∀ a b c, best (best a b) c = best (best a c) b) {xs xs' : List Binary64} (hperm : xs.Perm xs') {first : Binary64}
    (hfirst : first.isNaN = false) : (xs.foldl f first).canonical = (xs'.foldl f first).canonical := by
  have hcomm : RightCommutative (step best) := ⟨fun place y z => by
    unfold step
    by_cases hy : y.isNaN = true <;> by_cases hz : z.isNaN = true <;> simp [hy, hz, hbest]⟩
  refine Binary64.canonical_eq_of_place (isNaN_foldl hf xs hfirst) (isNaN_foldl hf xs' hfirst) ?_
  rw [place_foldl hf hplace xs hfirst, place_foldl hf hplace xs' hfirst, hperm.foldl_eq]

/-! ## Sums -/

/-- Each number has this decimal. -/
def HaveDecimals (xs : List Binary64) (ds : List Decimal96) : Prop :=
  List.Forall₂ (fun x d => Decimal96.ofBinary64? x = some d) xs ds

/-- Numbers have a decimal sum if each has a decimal and these have a sum. -/
theorem decimalSum_eq_ok {xs : List Binary64} {sum : Decimal96} :
    decimalSum xs = .ok sum ↔ ∃ ds, HaveDecimals xs ds ∧ Decimal96.sum? ds = some sum := by
  unfold decimalSum HaveDecimals Decimal96.sum?
  generalize Decimal96.zero = acc
  induction xs generalizing acc with
  | nil => simp [pure, Except.pure]
  | cons x xs ih =>
    rw [List.foldlM_cons, bind_eq_ok]
    simp only [ih, List.forall₂_cons_left_iff]
    constructor
    · rintro ⟨acc', hadd, ds, hds, hsum⟩
      unfold addNumber at hadd
      split at hadd
      · cases hadd
      · rename_i d hd
        split at hadd
        · cases hadd
        · rename_i hsome
          cases hadd
          exact ⟨d :: ds, ⟨d, ds, hd, hds, rfl⟩, by rw [List.foldlM_cons, hsome]; exact hsum⟩
    · rintro ⟨_, ⟨d, ds, hd, hds, rfl⟩, hsum⟩
      rw [List.foldlM_cons, Option.bind_eq_bind, Option.bind_eq_some_iff] at hsum
      obtain ⟨acc', hadd, hsum⟩ := hsum
      exact ⟨acc', by simp [addNumber, hd, hadd], ds, hds, hsum⟩

/-- Sums are steady: if each number has a decimal, these have one sum in every order. -/
def SteadySum (xs : List Binary64) : Prop := ∀ ds, HaveDecimals xs ds → Decimal96.Steady ds

/-- The decimals of numbers, if they have them, decide whether their sums are steady. -/
theorem steadySum_of_haveDecimals {xs : List Binary64} {ds : List Decimal96} (hds : HaveDecimals xs ds)
    (h : Decimal96.Steady ds) : SteadySum xs := by
  intro ds' hds'
  have hunique : Relator.RightUnique fun x d => Decimal96.ofBinary64? x = some d := fun _ _ _ hd hd' =>
    Option.some.inj (hd.symm.trans hd')
  exact hunique.forall₂ hds hds' ▸ h

theorem SteadySum.decimalSum_perm {xs xs' : List Binary64} (h : SteadySum xs) (hperm : xs.Perm xs') {sum : Decimal96}
    (hsum : decimalSum xs = .ok sum) :
    ∃ sum', decimalSum xs' = .ok sum' ∧ sum.units = sum'.units ∧ (Decimal96.Small sum.units ∨ sum = sum') := by
  obtain ⟨ds, hds, hsum⟩ := decimalSum_eq_ok.1 hsum
  obtain ⟨ds', hds', hperm'⟩ := List.perm_comp_forall₂ hperm.symm hds
  obtain ⟨_, sum', hsum₁, hsum', hsame⟩ := (h ds hds).sum?_perm hperm'.symm
  rw [hsum, Option.some.injEq] at hsum₁
  subst hsum₁
  exact ⟨sum', decimalSum_eq_ok.2 ⟨ds', hds', hsum'⟩, hsame⟩

/-! ## Orders -/

/-- The aggregate of numbers is that of the same numbers in another order, if their sum, where it counts, is steady. -/
theorem reduce_perm {op : Aggregate} {xs xs' : List Binary64} (hperm : xs.Perm xs')
    (hsteady : op = .avg ∨ op = .sum → SteadySum xs) {x : Binary64} (h : op.reduce xs = .ok x) :
    ∃ x', op.reduce xs' = .ok x' ∧ x.canonical = x'.canonical := by
  unfold reduce at h ⊢
  rw [check_eq_ok] at h
  obtain ⟨hne, h⟩ := h
  have hne' : ¬(xs' = [] ∧ op ≠ count) := fun ⟨hempty, hop⟩ => hne ⟨List.perm_nil.1 (hempty ▸ hperm), hop⟩
  rw [if_neg hne']
  cases op with
  | min =>
    cases h
    exact ⟨_, rfl, canonical_foldl_perm isNaN_lesser place_lesser (fun a b c => min_right_comm a b c) hperm rfl⟩
  | max =>
    cases h
    exact ⟨_, rfl, canonical_foldl_perm isNaN_greater place_greater (fun a b c => max_right_comm a b c) hperm rfl⟩
  | sum =>
    obtain ⟨sum, hsum, hrounded⟩ := bind_eq_ok.1 h
    obtain ⟨sum', hsum', hunits, hsmall | rfl⟩ := (hsteady (Or.inr rfl)).decimalSum_perm hperm hsum
    · exact ⟨x, bind_eq_ok.2 ⟨sum', hsum', (Decimal96.rounded_congr hunits hsmall.convertible).symm.trans hrounded⟩, rfl⟩
    · exact ⟨x, bind_eq_ok.2 ⟨sum, hsum', hrounded⟩, rfl⟩
  | avg =>
    obtain ⟨sum, hsum, hrounded⟩ := bind_eq_ok.1 h
    obtain ⟨sum', hsum', hunits, hsmall | rfl⟩ := (hsteady (Or.inl rfl)).decimalSum_perm hperm hsum
    · have hpos : 0 < xs.length := List.length_pos_of_ne_nil fun hempty => hne ⟨hempty, by decide⟩
      refine ⟨x, bind_eq_ok.2 ⟨sum', hsum', ?_⟩, rfl⟩
      rw [← hperm.length_eq, ← Decimal96.rounded_divNat?_congr hunits hsmall.convertible hpos]
      exact hrounded
    · exact ⟨x, bind_eq_ok.2 ⟨sum, hsum', by rwa [← hperm.length_eq]⟩, rfl⟩
  | count =>
    cases h
    refine ⟨_, rfl, ?_⟩
    have hfinset : (xs.map Binary64.mergeZeros).toFinset = (xs'.map Binary64.mergeZeros).toFinset :=
      List.toFinset_eq_of_perm _ _ (hperm.map _)
    rw [countDistinct_eq_card, countDistinct_eq_card, hfinset]

end Aggregate

end SentenceQuery
