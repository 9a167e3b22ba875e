import Mathlib.Algebra.BigOperators.Group.List.Basic
import Mathlib.Algebra.BigOperators.Ring.List
import Mathlib.Data.List.Perm.Subperm
import Mathlib.Tactic.Ring
import SentenceQuery.Proofs.Number.DecimalValue
import SentenceQuery.Proofs.Steps

/-!
# Sums that do not depend on the order

Decimals are added from the left, and a sum on the way that has too many digits is rounded, or there is none. Where no sum of some of
the decimals has too many digits, every sum on the way is exact, and has the places of what was added since it was zero for the last
time (`ExactSum`). So the sum has one value in every order. Its places are the same too, unless the decimals with the most places
cancel out in some order and not in others; they count where the sum is not small (`Steady`, `Steady.sum?_perm`).
-/

namespace SentenceQuery

namespace Decimal96

/-! ## The values of decimals -/

/-- The exact sum of decimals, in units. -/
def total (ds : List Decimal96) : Int := (ds.map units).sum

/-- The most places of the decimals that are not zero. -/
def finest : List Decimal96 → Nat
  | [] => 0
  | d :: ds => if d.coefficient = 0 then finest ds else max d.scale (finest ds)

theorem total_append (ds ds' : List Decimal96) : total (ds ++ ds') = total ds + total ds' := by
  rw [total, List.map_append, List.sum_append]
  rfl

theorem total_concat (ds : List Decimal96) (d : Decimal96) : total (ds ++ [d]) = total ds + d.units := by
  rw [total_append, total, total, List.map_singleton, List.sum_singleton]

theorem total_perm {ds ds' : List Decimal96} (h : ds.Perm ds') : total ds = total ds' := (h.map units).sum_eq

theorem finest_append (ds ds' : List Decimal96) : finest (ds ++ ds') = max (finest ds) (finest ds') := by
  induction ds with
  | nil => exact (Nat.zero_max _).symm
  | cons d ds ih =>
    rw [List.cons_append, finest, finest, ih]
    split
    · rfl
    · rw [Nat.max_assoc]

theorem finest_perm {ds ds' : List Decimal96} (h : ds.Perm ds') : finest ds = finest ds' := by
  induction h with
  | nil => rfl
  | cons d _ ih => rw [finest, finest, ih]
  | swap d d' ds =>
    have hmax := Nat.max_left_comm d'.scale d.scale (finest ds)
    by_cases hd : d.coefficient = 0 <;> by_cases hd' : d'.coefficient = 0 <;> simp [finest, hd, hd', hmax]
  | trans _ _ ih ih' => exact ih.trans ih'

theorem finest_le {ds : List Decimal96} {k : Nat} (h : ∀ d ∈ ds, d.scale ≤ k) : finest ds ≤ k := by
  induction ds with
  | nil => exact Nat.zero_le k
  | cons d ds ih =>
    have hrest : finest ds ≤ k := ih fun d' hd' => h d' (List.mem_cons_of_mem _ hd')
    unfold finest
    split
    · exact hrest
    · exact Nat.max_le.2 ⟨h d List.mem_cons_self, hrest⟩

/-- A sum has no more places than what is added. -/
theorem tenPow_dvd_total {ds : List Decimal96} {k : Nat} (hk : k ≤ 28) (h : ∀ d ∈ ds, d.scale ≤ k) :
    (tenPow (28 - k) : Int) ∣ total ds := by
  refine List.dvd_sum fun u hu => ?_
  obtain ⟨d, hd, rfl⟩ := List.mem_map.1 hu
  exact ⟨d.coefficientAt k, by rw [← coefficientAt_mul_tenPow (h d hd) hk, Int.mul_comm]⟩

/-! ## Adding -/

theorem add?_of_coefficient_eq_zero {a b : Decimal96} (h : a.coefficient = 0) : a.add? b = some b := if_pos h

theorem add?_zero_right {a b : Decimal96} (ha : a.coefficient ≠ 0) (hb : b.coefficient = 0) : a.add? b = some a := by
  rw [add?, if_neg ha, if_pos hb]

theorem roundHalfEven_one (n : Nat) : roundHalfEven n 1 = n := by
  simp [roundHalfEven, Nat.mod_one]

/-- A sum that fits is exact, at the larger number of places. -/
theorem add?_of_fits {a b : Decimal96} (ha : a.coefficient ≠ 0) (hb : b.coefficient ≠ 0)
    (h : (a.units + b.units).natAbs < twoPow 96 * tenPow (28 - max a.scale b.scale)) :
    ∃ d, a.add? b = some d ∧ d.units = a.units + b.units ∧ d.scale = max a.scale b.scale := by
  have htop : max a.scale b.scale ≤ 28 := Nat.max_le.2 ⟨a.scale_le, b.scale_le⟩
  have hunits : (a.coefficientAt (max a.scale b.scale) + b.coefficientAt (max a.scale b.scale)) *
      tenPow (28 - max a.scale b.scale) = a.units + b.units := by
    rw [Int.add_mul, coefficientAt_mul_tenPow (Nat.le_max_left _ _) htop, coefficientAt_mul_tenPow (Nat.le_max_right _ _) htop]
  generalize hsum : a.coefficientAt (max a.scale b.scale) + b.coefficientAt (max a.scale b.scale) = sum at hunits
  have hfits : sum.natAbs < twoPow 96 := by
    rw [← hunits, Int.natAbs_mul, Int.natAbs_natCast] at h
    exact Nat.lt_of_mul_lt_mul_right h
  have hone : tenPow (max a.scale b.scale - max a.scale b.scale) = 1 := by rw [Nat.sub_self]; rfl
  have hfit : fit? (fun s => roundHalfEven sum.natAbs (tenPow (max a.scale b.scale - s))) (max a.scale b.scale) =
      some (sum.natAbs, max a.scale b.scale) := by
    unfold fit?
    simp only [hone, roundHalfEven_one, if_pos hfits]
  have hsign : (if sum < 0 then -(sum.natAbs : Int) else sum.natAbs) = sum := by
    split <;> omega
  refine ⟨⟨sum, max a.scale b.scale, hfits, htop⟩, ?_, hunits, rfl⟩
  rw [add?, if_neg ha, if_neg hb]
  simp only [hsum, hfit, Option.bind_eq_bind, Option.bind_some, ofParts?, dif_pos (And.intro hfits htop), decide_eq_true_eq,
    hsign]

/-- Decimals added from the left, beginning with zero. -/
def sum? (ds : List Decimal96) : Option Decimal96 := ds.foldlM add? zero

/-- A sum is exact, and has the places of what was added since it was zero for the last time. -/
structure ExactSum (added : List Decimal96) (sum : Decimal96) : Prop where
  units_eq : sum.units = total added
  scale_eq : sum.coefficient ≠ 0 → ∃ earlier last, added = earlier ++ last ∧ total earlier = 0 ∧ sum.scale = finest last

/-- The sum of any of the decimals fits at the places that they have. -/
def Fit (ds : List Decimal96) : Prop :=
  ∀ part, List.Subperm part ds → (total part).natAbs < twoPow 96 * tenPow (28 - finest part)

/-- One more decimal is added exactly, if its sum with any of those before fits. -/
theorem exactSum_add? {added : List Decimal96} {sum d : Decimal96} (h : ExactSum added sum) (hfit : Fit (added ++ [d])) :
    ∃ sum', sum.add? d = some sum' ∧ ExactSum (added ++ [d]) sum' := by
  by_cases hsum : sum.coefficient = 0
  · have htotal : total added = 0 := by rw [← h.units_eq, units_eq_zero, hsum]
    refine ⟨d, add?_of_coefficient_eq_zero hsum, ?_, fun hd => ⟨added, [d], rfl, htotal, ?_⟩⟩
    · rw [total_concat, htotal, Int.zero_add]
    · simp [finest, hd]
  · obtain ⟨earlier, last, hadded, hearlier, hscale⟩ := h.scale_eq hsum
    by_cases hd : d.coefficient = 0
    · refine ⟨sum, add?_zero_right hsum hd, ?_, fun _ => ⟨earlier, last ++ [d], ?_, hearlier, ?_⟩⟩
      · rw [total_concat, units_eq_zero.2 hd, Int.add_zero, h.units_eq]
      · rw [hadded, List.append_assoc]
      · simp [finest_append, finest, hd, hscale]
    · -- what was added since the sum was zero makes it up, and is one of the parts that fit
      have htotal : total (last ++ [d]) = sum.units + d.units := by
        rw [total_concat, h.units_eq, hadded, total_append, hearlier, Int.zero_add]
      have hfinest : finest (last ++ [d]) = max sum.scale d.scale := by
        simp [finest_append, finest, hd, hscale]
      have hpart : List.Subperm (last ++ [d]) (added ++ [d]) := by
        rw [hadded, List.append_assoc]
        exact (List.sublist_append_right _ _).subperm
      have hfits := hfit _ hpart
      rw [htotal, hfinest] at hfits
      obtain ⟨sum', hadd, hunits, hscale'⟩ := add?_of_fits hsum hd hfits
      refine ⟨sum', hadd, ?_, fun _ => ⟨earlier, last ++ [d], ?_, hearlier, ?_⟩⟩
      · rw [hunits, total_concat, h.units_eq]
      · rw [hadded, List.append_assoc]
      · rw [hscale', hfinest]

/-- Decimals of which the sum of any fits have an exact sum. -/
theorem exactSum_sum? {ds : List Decimal96} (hfit : Fit ds) : ∃ sum, sum? ds = some sum ∧ ExactSum ds sum := by
  have hfold : ∀ (rest added : List Decimal96) (acc : Decimal96), ExactSum added acc → Fit (added ++ rest) →
      ∃ sum, rest.foldlM add? acc = some sum ∧ ExactSum (added ++ rest) sum := by
    intro rest
    induction rest with
    | nil =>
      intro added acc hacc _
      exact ⟨acc, rfl, by rwa [List.append_nil]⟩
    | cons d rest ih =>
      intro added acc hacc hfit
      rw [← List.singleton_append, ← List.append_assoc] at hfit
      obtain ⟨acc', hadd, hacc'⟩ := exactSum_add? hacc fun part hpart =>
        hfit part (hpart.trans (List.sublist_append_left _ _).subperm)
      obtain ⟨sum, hsum, hexact⟩ := ih (added ++ [d]) acc' hacc' hfit
      refine ⟨sum, ?_, ?_⟩
      · rw [List.foldlM_cons, hadd]
        exact hsum
      · rwa [List.append_assoc, List.singleton_append] at hexact
  exact hfold ds [] zero ⟨rfl, fun h => absurd rfl h⟩ hfit

/-! ## Orders -/

/-- The sum of any of the decimals fits. If the sum of all is not small, those that cancel out leave one of the most places behind:
else it would have other places where they come first. -/
structure Steady (ds : List Decimal96) : Prop where
  fit : Fit ds
  places : Small (total ds) ∨ ∀ part rest, ds.Perm (part ++ rest) → total part = 0 → finest rest = finest ds

theorem Steady.perm {ds ds' : List Decimal96} (h : Steady ds) (hperm : ds.Perm ds') : Steady ds' where
  fit := fun part hpart => h.fit part (hpart.trans hperm.symm.subperm)
  places := by
    rw [← total_perm hperm, ← finest_perm hperm]
    exact h.places.imp_right fun hplaces part rest hsplit hpart => hplaces part rest (hperm.trans hsplit) hpart

/-- A steady sum is exact, and has the most places if it is not small. -/
theorem Steady.sum?_eq {ds : List Decimal96} (h : Steady ds) :
    ∃ sum, sum? ds = some sum ∧ sum.units = total ds ∧ (Small (total ds) ∨ sum.scale = finest ds) := by
  obtain ⟨sum, hsum, hexact⟩ := exactSum_sum? h.fit
  refine ⟨sum, hsum, hexact.units_eq, ?_⟩
  by_cases hsmall : Small (total ds)
  · exact Or.inl hsmall
  · have hne : sum.coefficient ≠ 0 := fun hzero => hsmall (by
      rw [← hexact.units_eq, units_eq_zero.2 hzero]
      exact Nat.zero_le _)
    obtain ⟨earlier, last, hds, hearlier, hscale⟩ := hexact.scale_eq hne
    exact Or.inr (by rw [hscale, h.places.resolve_left hsmall earlier last (by rw [hds]) hearlier])

/-- Decimals with a steady sum have one sum in every order, up to the places of a small one. -/
theorem Steady.sum?_perm {ds ds' : List Decimal96} (h : Steady ds) (hperm : ds.Perm ds') :
    ∃ sum sum', sum? ds = some sum ∧ sum? ds' = some sum' ∧ sum.units = sum'.units ∧ (Small sum.units ∨ sum = sum') := by
  obtain ⟨sum, hsum, hunits, hscale⟩ := h.sum?_eq
  obtain ⟨sum', hsum', hunits', hscale'⟩ := (h.perm hperm).sum?_eq
  rw [← total_perm hperm] at hunits' hscale'
  rw [← finest_perm hperm] at hscale'
  have hsame : sum.units = sum'.units := hunits.trans hunits'.symm
  refine ⟨sum, sum', hsum, hsum', hsame, ?_⟩
  rw [hunits]
  rcases hscale with hsmall | hscale
  · exact Or.inl hsmall
  · exact hscale'.imp_right fun hscale' => eq_of_units hsame (hscale.trans hscale'.symm)

/-- The magnitudes of decimals, in units, added up. -/
def magnitudes (ds : List Decimal96) : Nat := (ds.map fun d => d.units.natAbs).sum

theorem magnitudes_append (ds ds' : List Decimal96) : magnitudes (ds ++ ds') = magnitudes ds + magnitudes ds' := by
  rw [magnitudes, List.map_append, List.sum_append]
  rfl

theorem magnitudes_perm {ds ds' : List Decimal96} (h : ds.Perm ds') : magnitudes ds = magnitudes ds' := (h.map _).sum_eq

theorem natAbs_total_le (ds : List Decimal96) : (total ds).natAbs ≤ magnitudes ds := by
  induction ds with
  | nil => exact Nat.le_refl 0
  | cons d ds ih => exact Nat.le_trans (Int.natAbs_add_le _ _) (Nat.add_le_add_left ih _)

theorem exists_rest {α : Type} {part xs : List α} (h : List.Subperm part xs) : ∃ rest, xs.Perm (part ++ rest) := by
  obtain ⟨part', hperm, hsub⟩ := h
  obtain ⟨rest, hsplit⟩ := hsub.exists_perm_append
  exact ⟨rest, hsplit.trans (hperm.append_right rest)⟩

theorem magnitudes_part_le {part ds : List Decimal96} (h : List.Subperm part ds) : magnitudes part ≤ magnitudes ds := by
  obtain ⟨rest, hsplit⟩ := exists_rest h
  rw [magnitudes_perm hsplit, magnitudes_append]
  exact Nat.le_add_right _ _

theorem finest_part_le {part ds : List Decimal96} (h : List.Subperm part ds) : finest part ≤ finest ds := by
  obtain ⟨rest, hsplit⟩ := exists_rest h
  rw [finest_perm hsplit, finest_append]
  exact Nat.le_max_left _ _

/-- Decimals whose magnitudes have a sum that fits have sums that fit, whatever their signs. -/
theorem fit_of_magnitudes {ds : List Decimal96} (h : magnitudes ds < twoPow 96 * tenPow (28 - finest ds)) : Fit ds := by
  intro part hpart
  have hfinest := finest_part_le hpart
  calc (total part).natAbs
      ≤ magnitudes part := natAbs_total_le part
    _ ≤ magnitudes ds := magnitudes_part_le hpart
    _ < twoPow 96 * tenPow (28 - finest ds) := h
    _ ≤ twoPow 96 * tenPow (28 - finest part) := Nat.mul_le_mul_left _ (tenPow_le_tenPow (by omega))

end Decimal96

end SentenceQuery
