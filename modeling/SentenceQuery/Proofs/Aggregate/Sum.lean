import Mathlib.Algebra.Order.BigOperators.Group.List
import SentenceQuery.Proofs.Aggregate
import SentenceQuery.Proofs.Number.Exact

/-!
# Exact sums

Where the digits that numbers are shown with fit (`FitsPlaces`), the decimal sum of the numbers is exact, in every order, and it is
rounded once (`reduce_sum_exact`). Zeros change nothing at all. Orders may still differ in the places of the sum, and of a sum beyond
`2^45` these count when it is converted to binary64: there the result is the same in every order if numbers that cancel out leave one
with the most places behind (`KeepsPlaces`).
-/

namespace SentenceQuery

namespace Decimal96

/-! ## Zeros -/

/-- Decimals that are the same, or zeros with other places. -/
def Interchangeable (a b : Decimal96) : Prop := a = b ∨ a.coefficient = 0 ∧ b.coefficient = 0

theorem Interchangeable.add? {a b : Decimal96} (h : Interchangeable a b) (d : Decimal96) : a.add? d = b.add? d := by
  rcases h with rfl | ⟨ha, hb⟩
  · rfl
  · rw [add?_of_coefficient_eq_zero ha, add?_of_coefficient_eq_zero hb]

/-- A zero added to a decimal leaves it, or makes a zero of a zero. -/
theorem Interchangeable.exists_add?_zero {a b : Decimal96} (h : Interchangeable a b) :
    ∃ a', a.add? zero = some a' ∧ Interchangeable a' b := by
  by_cases ha : a.coefficient = 0
  · have hb : b.coefficient = 0 := h.elim (fun heq => heq ▸ ha) And.right
    exact ⟨zero, add?_of_coefficient_eq_zero ha, Or.inr ⟨rfl, hb⟩⟩
  · exact ⟨a, add?_zero_right ha rfl, h⟩

theorem Interchangeable.rounded_eq {a b : Decimal96} (h : Interchangeable a b) :
    Aggregate.rounded (some a) = Aggregate.rounded (some b) := by
  rcases h with rfl | ⟨ha, hb⟩
  · rfl
  · rw [← units_eq_zero] at ha hb
    exact rounded_congr (ha.trans hb.symm) (by rw [Convertible, ha]; exact Nat.zero_le _)

end Decimal96

/-- The most places that numbers are shown with, zeros aside. -/
def Binary64.mostPlaces (xs : List Binary64) : Nat :=
  ((xs.filter fun x => x.shown ≠ 0).map fun x => x.decimalForm.places).foldr max 0

namespace Aggregate

open Binary64

/-- A number that is a zero of either sign has the decimal zero. -/
theorem ofBinary64?_of_isZero {x : Binary64} (h : x.isZero = true) : Decimal96.ofBinary64? x = some .zero := by
  have hcode : x.code = 0 := of_decide_eq_true h
  have hfinite : x.isFinite = true := by simp [isFinite, hcode, infinityCode]
  rw [Decimal96.ofBinary64?, if_pos hfinite, if_pos h]

/-- The zeros among numbers can be left out of their sum: the sums on the way stay interchangeable. -/
theorem foldlM_addNumber_filter {β : Type} {f : Decimal96 → Except ReduceError β}
    (hf : ∀ {a b}, Decimal96.Interchangeable a b → f a = f b) (xs : List Binary64) {acc acc' : Decimal96}
    (h : Decimal96.Interchangeable acc acc') :
    (xs.foldlM addNumber acc >>= f) = ((xs.filter fun x => !x.isZero).foldlM addNumber acc' >>= f) := by
  induction xs generalizing acc acc' with
  | nil => exact hf h
  | cons x xs ih =>
    rw [List.foldlM_cons, bind_assoc]
    by_cases hzero : x.isZero = true
    · obtain ⟨a, hadd, ha⟩ := h.exists_add?_zero
      have hstep : addNumber acc x = .ok a := by simp [addNumber, ofBinary64?_of_isZero hzero, hadd]
      rw [hstep, ok_bind, List.filter_cons_of_neg (by simp [hzero])]
      exact ih ha
    · -- another number is added to the one sum as to the other, and from there on the sums are the same
      have hstep : addNumber acc x = addNumber acc' x := by simp only [addNumber, h.add?]
      rw [List.filter_cons_of_pos (by simp [hzero]), List.foldlM_cons, bind_assoc, hstep]
      cases addNumber acc' x with
      | error e => rfl
      | ok a => exact ih (Or.inl rfl)

theorem reduce_sum {xs : List Binary64} (hne : xs ≠ []) :
    sum.reduce xs = decimalSum xs >>= fun total => rounded (some total) :=
  if_neg fun h => hne h.1

/-- Zeros among numbers do not change their sum, or the error that there is none. -/
theorem reduce_sum_filter {xs ys : List Binary64} (hxs : xs ≠ []) (hys : ys ≠ [])
    (h : (ys.filter fun y => !y.isZero) = xs.filter fun x => !x.isZero) : sum.reduce ys = sum.reduce xs := by
  have hrest := foldlM_addNumber_filter (f := fun total => rounded (some total)) Decimal96.Interchangeable.rounded_eq
  rw [reduce_sum hxs, reduce_sum hys, decimalSum, decimalSum, hrest xs (Or.inl rfl), hrest ys (Or.inl rfl), h]

/-! ## Numbers that fit -/

/-- Finite numbers whose digits fit: they are shown with at most `k` places, and at these the sum of their magnitudes fits. -/
structure FitsPlaces (k : Nat) (xs : List Binary64) : Prop where
  places_le : k ≤ 28
  finite : ∀ x ∈ xs, x.isFinite = true
  places : ∀ x ∈ xs, x.decimalForm.places ≤ k
  magnitude_lt : (xs.map fun x => |x.shown|).sum * 10 ^ k < 2 ^ 96

/-- Numbers that cancel out leave one with the most places behind. -/
def KeepsPlaces (xs : List Binary64) : Prop :=
  ∀ part rest, xs.Perm (part ++ rest) → (part.map shown).sum = 0 → mostPlaces rest = mostPlaces xs

/-- The decimals of numbers have the values and the places that the numbers are shown with. -/
def ShownDecimals (xs : List Binary64) (ds : List Decimal96) : Prop :=
  List.Forall₂ (fun x d => Decimal96.ofBinary64? x = some d ∧ d.scale = x.decimalForm.places ∧ d.value = x.shown) xs ds

namespace ShownDecimals

variable {xs : List Binary64} {ds : List Decimal96}

theorem haveDecimals (h : ShownDecimals xs ds) : HaveDecimals xs ds := h.imp fun _ _ hd => hd.1

theorem map_value {β : Type} (h : ShownDecimals xs ds) (f : ℚ → β) :
    (ds.map fun d => f d.value) = xs.map fun x => f x.shown := by
  induction h with
  | nil => rfl
  | cons hd _ ih => rw [List.map_cons, List.map_cons, ih, hd.2.2]

theorem finest_eq (h : ShownDecimals xs ds) : Decimal96.finest ds = mostPlaces xs := by
  induction h with
  | nil => rfl
  | @cons x d xs ds hd _ ih =>
    rw [Decimal96.finest, ih]
    by_cases hzero : x.shown = 0
    · rw [if_pos (Decimal96.value_eq_zero.1 (hd.2.2.trans hzero)), mostPlaces, mostPlaces, List.filter_cons_of_neg (by simpa)]
    · rw [if_neg fun h => hzero (hd.2.2.symm.trans (Decimal96.value_eq_zero.2 h)), mostPlaces, mostPlaces,
        List.filter_cons_of_pos (by simpa), List.map_cons, List.foldr_cons, hd.2.1]

/-- Parts of the decimals are the decimals of parts of the numbers. -/
theorem exists_parts (h : ShownDecimals xs ds) {part rest : List Decimal96} (hperm : ds.Perm (part ++ rest)) :
    ∃ part' rest', xs.Perm (part' ++ rest') ∧ ShownDecimals part' part ∧ ShownDecimals rest' rest := by
  obtain ⟨xs', hshown, hperm'⟩ := List.perm_comp_forall₂ hperm.symm h.flip
  refine ⟨xs'.take part.length, xs'.drop part.length, ?_, List.forall₂_take_append _ _ _ hshown.flip,
    List.forall₂_drop_append _ _ _ hshown.flip⟩
  rw [List.take_append_drop]
  exact hperm'.symm

end ShownDecimals

namespace FitsPlaces

variable {k : Nat} {xs : List Binary64}

theorem perm {ys : List Binary64} (h : FitsPlaces k xs) (hperm : ys.Perm xs) : FitsPlaces k ys where
  places_le := h.places_le
  finite := fun y hy => h.finite y (hperm.subset hy)
  places := fun y hy => h.places y (hperm.subset hy)
  magnitude_lt := by
    rw [(hperm.map _).sum_eq]
    exact h.magnitude_lt

/-- Numbers that fit have decimals as they are shown, of which the sum of any fits. -/
theorem exists_decimals (h : FitsPlaces k xs) :
    ∃ ds, ShownDecimals xs ds ∧ (∀ d ∈ ds, d.scale ≤ k) ∧ Decimal96.Fit ds := by
  have heach : ∀ x ∈ xs,
      ∃ d, Decimal96.ofBinary64? x = some d ∧ d.scale = x.decimalForm.places ∧ d.value = x.shown := by
    intro x hx
    have hle : |x.shown| ≤ (xs.map fun x => |x.shown|).sum :=
      List.single_le_sum (by simp) _ (List.mem_map_of_mem hx)
    refine Decimal96.exists_ofBinary64? (h.finite x hx) h.places_le (h.places x hx) ?_
    exact (mul_le_mul_of_nonneg_right hle (by positivity)).trans_lt h.magnitude_lt
  obtain ⟨ds, hds⟩ := exists_forall₂ heach
  have hshown : ShownDecimals xs ds := hds
  have hscale : ∀ d ∈ ds, d.scale ≤ k := by
    intro d hd
    obtain ⟨x, hx, -, hplaces, -⟩ := exists_left_of_forall₂ hds hd
    exact hplaces ▸ h.places x hx
  have hfinest : Decimal96.finest ds ≤ k := Decimal96.finest_le hscale
  have hmagnitudes : Decimal96.magnitudes ds < twoPow 96 * tenPow (28 - k) := by
    have hfits := h.magnitude_lt
    rw [← hshown.map_value (|·|), Decimal96.sum_map_abs_value, div_mul_eq_mul_div,
      div_lt_iff₀ (Nat.cast_pos.2 (tenPow_pos 28)), ← Nat.sub_add_cancel h.places_le, tenPow_add,
      Nat.cast_mul, ← mul_assoc, tenPow_eq k] at hfits
    exact Nat.lt_of_mul_lt_mul_right (a := 10 ^ k) (by exact_mod_cast hfits)
  exact ⟨ds, hshown, hscale, Decimal96.fit_of_magnitudes
    (hmagnitudes.trans_le (Nat.mul_le_mul_left _ (tenPow_le_tenPow (Nat.sub_le_sub_left hfinest 28))))⟩

/-- The decimal sum of numbers that fit is exact. -/
theorem exists_decimalSum (h : FitsPlaces k xs) :
    ∃ total, decimalSum xs = .ok total ∧ total.value = (xs.map shown).sum ∧ (tenPow (28 - k) : Int) ∣ total.units := by
  obtain ⟨ds, hds, hscale, hfit⟩ := h.exists_decimals
  obtain ⟨total, hsum, hexact⟩ := Decimal96.exactSum_sum? hfit
  refine ⟨total, decimalSum_eq_ok.2 ⟨ds, hds.haveDecimals, hsum⟩, ?_, ?_⟩
  · rw [total.value_eq, hexact.units_eq, ← Decimal96.sum_map_value]
    exact congrArg List.sum (hds.map_value id)
  · rw [hexact.units_eq]
    exact Decimal96.tenPow_dvd_total h.places_le hscale

/-- The sum of numbers that fit is steady where those that cancel out leave one with the most places. -/
theorem steadySum (h : FitsPlaces k xs) (hkeeps : KeepsPlaces xs) : SteadySum xs := by
  obtain ⟨ds, hds, -, hfit⟩ := h.exists_decimals
  refine steadySum_of_haveDecimals hds.haveDecimals ⟨hfit, Or.inr fun part rest hperm htotal => ?_⟩
  obtain ⟨part', rest', hperm', hpart, hrest⟩ := hds.exists_parts hperm
  have hcancel : (part'.map shown).sum = 0 := by
    have hvalues : (part.map Decimal96.value).sum = 0 := by rw [Decimal96.sum_map_value, htotal, Int.cast_zero, zero_div]
    rw [← hvalues]
    exact (congrArg List.sum (hpart.map_value id)).symm
  rw [hds.finest_eq, hrest.finest_eq, hkeeps part' rest' hperm' hcancel]

/-- Numbers that fit, in two orders, have decimal sums that are rounded to one number, if the sum is not large or keeps the places. -/
theorem rounded_perm (h : FitsPlaces k xs) (horder : |(xs.map shown).sum| ≤ 2 ^ 45 ∨ KeepsPlaces xs) {ys : List Binary64}
    (hperm : ys.Perm xs) :
    (decimalSum ys >>= fun total => rounded (some total)) = decimalSum xs >>= fun total => rounded (some total) := by
  obtain ⟨total, hsum, hvalue, -⟩ := h.exists_decimalSum
  obtain ⟨total', hsum', hvalue', -⟩ := (h.perm hperm).exists_decimalSum
  have hunits : total'.units = total.units := Decimal96.value_eq_iff.1 (by rw [hvalue, hvalue', (hperm.map shown).sum_eq])
  rw [hsum, hsum', ok_bind, ok_bind]
  rcases horder with hsmall | hkeeps
  · refine Decimal96.rounded_congr hunits ?_
    rw [← hvalue, total.abs_value, div_le_iff₀ (Nat.cast_pos.2 (tenPow_pos 28))] at hsmall
    rw [hunits]
    exact_mod_cast hsmall
  · obtain ⟨total₂, hsum₂, hunits₂, hsame⟩ := (h.steadySum hkeeps).decimalSum_perm hperm.symm hsum
    rw [hsum'] at hsum₂
    cases hsum₂
    rcases hsame with hsmall | rfl
    · exact (Decimal96.rounded_congr hunits₂ hsmall.convertible).symm
    · rfl

end FitsPlaces

/-- Among numbers of one sign, only zeros cancel out. -/
theorem keepsPlaces_of_sign {xs : List Binary64} (h : (∀ x ∈ xs, 0 ≤ x.shown) ∨ ∀ x ∈ xs, x.shown ≤ 0) :
    KeepsPlaces xs := by
  intro part rest hperm hsum
  have hmem : ∀ q ∈ part.map shown, ∃ x ∈ xs, x.shown = q := by
    intro q hq
    obtain ⟨x, hx, rfl⟩ := List.mem_map.1 hq
    exact ⟨x, hperm.symm.subset (List.mem_append_left _ hx), rfl⟩
  have hzero : ∀ q ∈ part.map shown, q = 0 := by
    intro q hq
    rcases h with hnonneg | hnonpos
    · refine List.all_zero_of_le_zero_le_of_sum_eq_zero (fun q hq => ?_) hsum hq
      obtain ⟨x, hx, rfl⟩ := hmem q hq
      exact hnonneg x hx
    · have hneg : ((part.map shown).map fun q => -q).sum = 0 := by rw [← List.sum_neg, hsum, neg_zero]
      refine neg_eq_zero.1 (List.all_zero_of_le_zero_le_of_sum_eq_zero (fun q hq => ?_) hneg (List.mem_map_of_mem hq))
      obtain ⟨q', hq', rfl⟩ := List.mem_map.1 hq
      obtain ⟨x, hx, rfl⟩ := hmem q' hq'
      exact neg_nonneg.2 (hnonpos x hx)
  have hnone : (part.filter fun x => x.shown ≠ 0) = [] := by
    rw [List.filter_eq_nil_iff]
    simpa using hzero
  have hfilter := hperm.filter fun x => x.shown ≠ 0
  rw [List.filter_append, hnone, List.nil_append] at hfilter
  exact ((hfilter.map _).foldr_eq _).symm

/-- The decimal sum of numbers that fit is exact in every order, and the aggregate SUM converts that sum rounded once to two places.
Zeros make no difference to the result; nor does the order, if the sum is not beyond `2^45` or numbers that cancel out leave one with
the most places behind. -/
theorem reduce_sum_exact {k : Nat} {xs : List Binary64} (hne : xs ≠ []) (h : FitsPlaces k xs) :
    (∀ ys : List Binary64, ys.Perm xs → ∃ total r, decimalSum ys = .ok total ∧ total.roundTo? places = some r ∧
        sum.reduce ys = .ok r.toBinary64 ∧ r.value = roundAway places (xs.map shown).sum) ∧
      (∀ ys, ys ≠ [] → (ys.filter fun y => !y.isZero) = (xs.filter fun x => !x.isZero) → sum.reduce ys = sum.reduce xs) ∧
      (|(xs.map shown).sum| ≤ 2 ^ 45 ∨ KeepsPlaces xs → ∀ ys : List Binary64, ys.Perm xs → sum.reduce ys = sum.reduce xs) := by
  have hother : ∀ {ys : List Binary64}, ys.Perm xs → ys ≠ [] := fun hperm hempty =>
    hne (List.nil_perm.1 (hempty ▸ hperm))
  refine ⟨fun ys hperm => ?_, fun ys hys hzeros => reduce_sum_filter hne hys hzeros, fun horder ys hperm => ?_⟩
  · obtain ⟨total, hsum, hvalue, -⟩ := (h.perm hperm).exists_decimalSum
    obtain ⟨r, hr, -, hrounded⟩ := total.exists_value_roundTo? (show places ≤ 28 by decide)
    refine ⟨total, r, hsum, hr, ?_, ?_⟩
    · rw [reduce_sum (hother hperm), hsum, ok_bind, rounded, Option.bind_some, hr]
    · rw [hrounded, hvalue, (hperm.map shown).sum_eq]
  · rw [reduce_sum hne, reduce_sum (hother hperm)]
    exact h.rounded_perm horder hperm

/-- A sum beyond `2^45`, in another order and with a zero. -/
theorem reduce_sum_exact_one_sign :
    let a := ofCode false (DecimalForm.nearestCode ⟨351843720888322, -1⟩)
    let b := ofCode false (DecimalForm.nearestCode ⟨25, -2⟩)
    [a, b, b] ≠ [] ∧ FitsPlaces 2 [a, b, b] ∧ KeepsPlaces [a, b, b] ∧
      (∃ total r, decimalSum [b, a, b] = .ok total ∧ total.roundTo? places = some r ∧
        sum.reduce [b, a, b] = .ok r.toBinary64 ∧ r.value = roundAway places ([a, b, b].map shown).sum) ∧
      sum.reduce [a, .zero, b, b] = sum.reduce [a, b, b] ∧ sum.reduce [b, a, b] = sum.reduce [a, b, b] := by
  intro a b
  have hfits : FitsPlaces 2 [a, b, b] := ⟨by decide, by decide +kernel, by decide +kernel, by decide +kernel⟩
  have hkeeps : KeepsPlaces [a, b, b] := keepsPlaces_of_sign (Or.inl (by decide +kernel))
  obtain ⟨hexact, hzeros, hperm⟩ := reduce_sum_exact (List.cons_ne_nil _ _) hfits
  have horder : [b, a, b].Perm [a, b, b] := List.Perm.swap _ _ _
  exact ⟨List.cons_ne_nil _ _, hfits, hkeeps, hexact _ horder, hzeros _ (List.cons_ne_nil _ _) (by decide +kernel),
    hperm (Or.inr hkeeps) _ horder⟩

/-- A sum that keeps the places of numbers that cancelled out comes to another number than in the order in which it does not. -/
theorem reduce_sum_left_places :
    let a := ofCode false (DecimalForm.nearestCode ⟨351843720888322, -1⟩)
    let b := ofCode false (DecimalForm.nearestCode ⟨25, -2⟩)
    let c := ofCode true (DecimalForm.nearestCode ⟨25, -2⟩)
    let a' := ofCode false (DecimalForm.nearestCode ⟨3518437208883221, -2⟩)
    FitsPlaces 2 [a, b, c] ∧ [b, c, a].Perm [a, b, c] ∧ sum.reduce [b, c, a] = .ok a ∧ sum.reduce [a, b, c] = .ok a' ∧
      a' ≠ a := by
  intro a b c a'
  have hfits : FitsPlaces 2 [a, b, c] := ⟨by decide, by decide +kernel, by decide +kernel, by decide +kernel⟩
  exact ⟨hfits, by decide +kernel, by decide +kernel, by decide +kernel, by decide +kernel⟩

end Aggregate

end SentenceQuery
