import Mathlib.Tactic.Ring
import SentenceQuery.Aggregate
import SentenceQuery.Proofs.Number.Rounding

/-!
# What a decimal comes to depends on its value

One value has several decimals, with more or fewer zeros at the end of their places. Which of them is rounded or divided makes no
difference to the value (`exists_roundTo?`, `exists_divNat?`). Converted to binary64, a decimal with at most two places becomes the
number nearest to it if it is no larger than `2^45` (`magnitudeCode_eq`); of larger ones the places count. So the places of such a sum
do not count in the end (`rounded_congr`, `rounded_divNat?_congr`).
-/

namespace SentenceQuery

namespace Decimal96

/-! ## Values -/

/-- The value in units of the last place that there can be. -/
def units (d : Decimal96) : Int := d.coefficientAt 28

theorem units_eq_zero {d : Decimal96} : d.units = 0 ↔ d.coefficient = 0 := by
  have hpow : (tenPow (28 - d.scale) : Int) ≠ 0 := Int.natCast_ne_zero.2 (Nat.ne_of_gt (tenPow_pos _))
  rw [units, coefficientAt, Int.mul_eq_zero, or_iff_left hpow]

theorem units_neg {d : Decimal96} : d.units < 0 ↔ d.coefficient < 0 := by
  have hpow : (0 : Int) < tenPow (28 - d.scale) := Int.natCast_pos.2 (tenPow_pos _)
  rw [units, coefficientAt]
  refine ⟨fun h => Int.not_le.1 fun hle => ?_, fun h => Int.mul_neg_of_neg_of_pos h hpow⟩
  exact Int.not_le.2 h (Int.mul_nonneg hle (Int.le_of_lt hpow))

theorem natAbs_units (d : Decimal96) : d.units.natAbs = d.coefficient.natAbs * tenPow (28 - d.scale) := by
  rw [units, coefficientAt, Int.natAbs_mul, Int.natAbs_natCast]

/-- The value of a decimal that is written with more places. -/
theorem coefficientAt_mul_tenPow {d : Decimal96} {scale : Nat} (h : d.scale ≤ scale) (hscale : scale ≤ 28) :
    d.coefficientAt scale * tenPow (28 - scale) = d.units := by
  rw [units, coefficientAt, coefficientAt, Int.mul_assoc, ← Int.natCast_mul, ← tenPow_add]
  congr 3
  omega

/-- A decimal is known by its value and its number of places. -/
theorem eq_of_units {d d' : Decimal96} (hunits : d.units = d'.units) (hscale : d.scale = d'.scale) : d = d' := by
  have hpow : (tenPow (28 - d'.scale) : Int) ≠ 0 := Int.natCast_ne_zero.2 (Nat.ne_of_gt (tenPow_pos _))
  rw [units, units, coefficientAt, coefficientAt, hscale] at hunits
  have hcoefficient := Int.eq_of_mul_eq_mul_right hpow hunits
  obtain ⟨c, s, _, _⟩ := d
  obtain ⟨c', s', _, _⟩ := d'
  subst hscale
  subst hcoefficient
  rfl

/-- A whole number with a sign. -/
def signed (negative : Bool) (n : Nat) : Int := if negative then -(n : Int) else n

theorem signed_natAbs (i : Int) : signed (decide (i < 0)) i.natAbs = i := by
  unfold signed
  by_cases h : i < 0
  · rw [if_pos (decide_eq_true h)]
    omega
  · rw [if_neg (by simpa using h)]
    omega

theorem natAbs_signed (negative : Bool) (n : Nat) : (signed negative n).natAbs = n := by
  cases negative <;> simp [signed]

theorem exists_ofParts? (negative : Bool) {magnitude scale : Nat} (hmagnitude : magnitude < twoPow 96) (hscale : scale ≤ 28) :
    ∃ d, ofParts? negative magnitude scale = some d ∧ d.scale = scale ∧
      d.units = signed negative (magnitude * tenPow (28 - scale)) := by
  refine ⟨_, dif_pos ⟨hmagnitude, hscale⟩, rfl, ?_⟩
  cases negative <;> simp [units, coefficientAt, signed]

/-! ## Rounding to places -/

/-- A decimal is rounded to places by its value. -/
theorem exists_roundTo? (d : Decimal96) (places : Nat) (hplaces : places ≤ 28) :
    ∃ r, d.roundTo? places = some r ∧ r.scale ≤ places ∧ r.units = signed (decide (d.units < 0))
      (roundHalfUp d.units.natAbs (tenPow (28 - places)) * tenPow (28 - places)) := by
  unfold roundTo?
  split
  · rename_i hscale
    have hsplit : d.units.natAbs = d.coefficient.natAbs * tenPow (places - d.scale) * tenPow (28 - places) := by
      rw [natAbs_units, Nat.mul_assoc, ← tenPow_add]
      congr 2
      omega
    refine ⟨d, rfl, hscale, ?_⟩
    rw [hsplit, roundHalfUp_mul_self _ (tenPow_pos _), ← hsplit, signed_natAbs]
  · rename_i hscale
    have hround : roundHalfUp d.units.natAbs (tenPow (28 - places)) =
        roundHalfUp d.coefficient.natAbs (tenPow (d.scale - places)) := by
      have hsplit : tenPow (28 - places) = tenPow (d.scale - places) * tenPow (28 - d.scale) := by
        rw [← tenPow_add]
        have := d.scale_le
        congr 1
        omega
      rw [natAbs_units, hsplit, roundHalfUp_mul_right _ _ (tenPow_pos _)]
    have hfits : roundHalfUp d.coefficient.natAbs (tenPow (d.scale - places)) < twoPow 96 :=
      Nat.lt_of_le_of_lt (roundHalfUp_le_self _ (tenPow_pos _)) d.coefficient_lt
    obtain ⟨r, hr, hrscale, hrunits⟩ := exists_ofParts? (decide (d.coefficient < 0)) hfits hplaces
    refine ⟨r, hr, Nat.le_of_eq hrscale, ?_⟩
    rw [hrunits, hround]
    simp only [units_neg]

/-! ## Quotients -/

/-- What fits is found at the most places at which it does. -/
theorem exists_fit? (rounded : Nat → Nat) (h : rounded 0 < twoPow 96) (top : Nat) :
    ∃ p, fit? rounded top = some (rounded p, p) ∧ p ≤ top ∧ rounded p < twoPow 96 ∧
      ∀ more, p < more → more ≤ top → twoPow 96 ≤ rounded more := by
  induction top with
  | zero => exact ⟨0, by rw [fit?, if_pos h], Nat.le_refl 0, h, fun more hmore htop => by omega⟩
  | succ top ih =>
    by_cases hfits : rounded (top + 1) < twoPow 96
    · exact ⟨top + 1, by rw [fit?, if_pos hfits], Nat.le_refl _, hfits, fun more hmore htop => by omega⟩
    · obtain ⟨p, heq, hp, hrounded, hbeyond⟩ := ih
      refine ⟨p, ?_, by omega, hrounded, fun more hmore htop => ?_⟩
      · rw [fit?, if_neg hfits]
        exact heq
      · rcases Nat.lt_or_eq_of_le htop with hlt | rfl
        · exact hbeyond more hmore (by omega)
        · exact Nat.not_lt.1 hfits

theorem room_le (coefficient top : Nat) : room coefficient top ≤ top := by
  induction top with
  | zero => exact Nat.le_refl 0
  | succ top ih =>
    unfold room
    split <;> omega

/-- Where there is no room, not even one place fits. -/
theorem le_of_room_eq_zero {coefficient top : Nat} (htop : 0 < top) (h : room coefficient top = 0) :
    twoPow 96 ≤ coefficient * 10 := by
  induction top with
  | zero => exact absurd htop (Nat.lt_irrefl 0)
  | succ top ih =>
    unfold room at h
    split at h
    · cases h
    · rename_i hfits
      cases top with
      | zero => exact Nat.not_lt.1 hfits
      | succ top => exact ih (Nat.succ_pos top) h

/-- Places are added until the division leaves no remainder or there is no room for one more. -/
theorem quotientScale_spec (m n scale : Nat) {steps places : Nat} (hplaces : places ≤ 28) (hsteps : 28 ≤ steps + places) :
    places ≤ quotientScale m n scale steps places ∧ quotientScale m n scale steps places ≤ 28 ∧
      (m * tenPow (quotientScale m n scale steps places - scale) % n = 0 ∨ quotientScale m n scale steps places = 28 ∨
        twoPow 96 ≤ m * tenPow (quotientScale m n scale steps places - scale) / n * 10) := by
  induction steps generalizing places with
  | zero => exact ⟨Nat.le_refl _, hplaces, Or.inr (Or.inl (by rw [quotientScale]; omega))⟩
  | succ steps ih =>
    unfold quotientScale
    dsimp only
    have hroom := room_le (m * tenPow (places - scale) / n) (min 9 (28 - places))
    split
    · rename_i hstop
      refine ⟨Nat.le_refl _, hplaces, hstop.imp_right fun hnone => ?_⟩
      by_cases htop : places = 28
      · exact Or.inl htop
      · exact Or.inr (le_of_room_eq_zero (by omega) hnone)
    · rename_i hmore
      rw [not_or] at hmore
      have hplaces' : places + room (m * tenPow (places - scale) / n) (min 9 (28 - places)) ≤ 28 := by omega
      obtain ⟨hle, hspec⟩ := ih hplaces' (by omega)
      exact ⟨by omega, hspec⟩

/-- A magnitude and its places are those of another without zeros at their end. -/
def Shortens (long short : Nat × Nat) : Prop := short.2 ≤ long.2 ∧ long.1 = short.1 * tenPow (long.2 - short.2)

theorem Shortens.refl (x : Nat × Nat) : Shortens x x := ⟨Nat.le_refl _, by rw [Nat.sub_self]; exact (Nat.mul_one _).symm⟩

theorem Shortens.trans {x y z : Nat × Nat} (h : Shortens x y) (h' : Shortens y z) : Shortens x z := by
  refine ⟨Nat.le_trans h'.1 h.1, ?_⟩
  rw [h.2, h'.2, Nat.mul_assoc, ← tenPow_add]
  have := h.1
  have := h'.1
  congr 2
  omega

theorem Shortens.le {x y : Nat × Nat} (h : Shortens x y) : y.1 ≤ x.1 := by
  rw [h.2]
  exact Nat.le_mul_of_pos_right _ (tenPow_pos _)

theorem Shortens.value {x y : Nat × Nat} (h : Shortens x y) (hplaces : x.2 ≤ 28) :
    y.1 * tenPow (28 - y.2) = x.1 * tenPow (28 - x.2) := by
  rw [h.2, Nat.mul_assoc, ← tenPow_add]
  have := h.1
  congr 2
  omega

theorem shortens_of_mod_eq_zero {m s count : Nat} (hcount : count ≤ s) (h : m % tenPow count = 0) :
    Shortens (m, s) (m / tenPow count, s - count) := by
  refine ⟨Nat.sub_le _ _, ?_⟩
  dsimp only
  rw [Nat.sub_sub_self hcount, Nat.div_mul_cancel (Nat.dvd_of_mod_eq_zero h)]

theorem shortens_dropEights (m s : Nat) : Shortens (m, s) (dropEights m s) := by
  fun_induction dropEights m s with
  | case1 m s h ih => exact (shortens_of_mod_eq_zero (Nat.le_add_left 8 s) h.2).trans ih
  | case2 => exact Shortens.refl _
  | case3 => exact Shortens.refl _

theorem shortens_dropZeros (count : Nat) (x : Nat × Nat) : Shortens x (dropZeros count x) := by
  unfold dropZeros
  dsimp only
  split
  · rename_i h
    exact shortens_of_mod_eq_zero h.1 h.2
  · exact Shortens.refl _

theorem shortens_shorten (m s : Nat) : Shortens (m, s) (shorten m s) :=
  (((shortens_dropEights m s).trans (shortens_dropZeros 4 _)).trans (shortens_dropZeros 2 _)).trans (shortens_dropZeros 1 _)

/-- A value in units, divided and rounded to places. -/
def quotientAt (u n places : Nat) : Nat := roundHalfEven (u * tenPow places) (n * tenPow 28)

/-- A value in units is the quotient of another at the most places at which it fits. -/
def IsQuotient (u n r : Nat) : Prop :=
  ∃ places ≤ 28, quotientAt u n places < twoPow 96 ∧
    (∀ more, places < more → more ≤ 28 → twoPow 96 ≤ quotientAt u n more) ∧ r = quotientAt u n places * tenPow (28 - places)

theorem IsQuotient.unique {u n r r' : Nat} (h : IsQuotient u n r) (h' : IsQuotient u n r') : r = r' := by
  obtain ⟨p, hp, hfits, hbeyond, rfl⟩ := h
  obtain ⟨p', hp', hfits', hbeyond', rfl⟩ := h'
  rcases Nat.lt_trichotomy p p' with hlt | rfl | hlt
  · exact absurd hfits' (Nat.not_lt.2 (hbeyond p' hlt hp'))
  · rfl
  · exact absurd hfits (Nat.not_lt.2 (hbeyond' p hlt hp))

variable {n : Nat}

/-- No quotient is too large without places. -/
theorem quotientAt_zero_lt (d : Decimal96) (hn : 0 < n) : quotientAt d.units.natAbs n 0 < twoPow 96 := by
  have hpow : tenPow (28 - d.scale) ≤ n * tenPow 28 :=
    Nat.le_trans (tenPow_le_tenPow (Nat.sub_le _ _)) (Nat.le_mul_of_pos_left _ hn)
  refine Nat.lt_of_le_of_lt ?_ d.coefficient_lt
  rw [quotientAt, ← roundHalfEven_mul_self d.coefficient.natAbs (Nat.mul_pos hn (tenPow_pos 28)), natAbs_units]
  refine roundHalfEven_mono ?_ _
  rw [show tenPow 0 = 1 from rfl, Nat.mul_one]
  exact Nat.mul_le_mul_left _ hpow

theorem quotientAt_mono (u n : Nat) {places more : Nat} (h : places ≤ more) :
    quotientAt u n places ≤ quotientAt u n more :=
  roundHalfEven_mono (Nat.mul_le_mul_left _ (tenPow_le_tenPow h)) _

/-- A quotient that is exact at some places has its value. -/
theorem isQuotient_of_exact (d : Decimal96) (hn : 0 < n) {places k : Nat} (hplaces : places ≤ 28) (hk : k < twoPow 96)
    (h : d.units.natAbs * tenPow places = k * (n * tenPow 28)) : IsQuotient d.units.natAbs n (k * tenPow (28 - places)) := by
  have hexact : ∀ more, places ≤ more → quotientAt d.units.natAbs n more = k * tenPow (more - places) := by
    intro more hmore
    have hsplit : d.units.natAbs * tenPow more = k * tenPow (more - places) * (n * tenPow 28) := by
      rw [Nat.mul_right_comm, ← h, Nat.mul_assoc, ← tenPow_add, Nat.add_sub_cancel' hmore]
    rw [quotientAt, hsplit, roundHalfEven_mul_self _ (Nat.mul_pos hn (tenPow_pos 28))]
  obtain ⟨p, -, hp, hfits, hbeyond⟩ := exists_fit? (quotientAt d.units.natAbs n) (quotientAt_zero_lt d hn) 28
  have hle : places ≤ p := by
    by_contra hlt
    have habsurd := hbeyond places (by omega) hplaces
    rw [hexact places (Nat.le_refl _), Nat.sub_self, show tenPow 0 = 1 from rfl, Nat.mul_one] at habsurd
    omega
  refine ⟨p, hp, hfits, hbeyond, ?_⟩
  rw [hexact p hle, Nat.mul_assoc, ← tenPow_add]
  congr 2
  omega

/-- A quotient that does not fit with one more place is at the most places at which it fits. -/
theorem isQuotient_of_last {u places : Nat} (hplaces : places ≤ 28) (hfits : quotientAt u n places < twoPow 96)
    (hnext : places < 28 → twoPow 96 ≤ quotientAt u n (places + 1)) :
    IsQuotient u n (quotientAt u n places * tenPow (28 - places)) :=
  ⟨places, hplaces, hfits, fun _ hmore htop => Nat.le_trans (hnext (Nat.lt_of_lt_of_le hmore htop)) (quotientAt_mono u n hmore),
    rfl⟩

theorem units_mul_tenPow (d : Decimal96) {top : Nat} (hscale : d.scale ≤ top) :
    d.units.natAbs * tenPow top = d.coefficient.natAbs * tenPow (top - d.scale) * tenPow 28 := by
  rw [natAbs_units, Nat.mul_assoc, Nat.mul_assoc, ← tenPow_add, ← tenPow_add]
  have := d.scale_le
  congr 2
  omega

/-- A quotient that is found by adding places is at the most places at which it fits, or exact. -/
theorem isQuotient_of_fit (d : Decimal96) (hn : 0 < n) {top places : Nat} (hscale : d.scale ≤ top) (htop : top ≤ 28)
    (hplaces : places ≤ top) (hfits : quotientAt d.units.natAbs n places < twoPow 96)
    (hbeyond : ∀ more, places < more → more ≤ top → twoPow 96 ≤ quotientAt d.units.natAbs n more)
    (hstop : d.coefficient.natAbs * tenPow (top - d.scale) % n = 0 ∨ top = 28 ∨
      twoPow 96 ≤ d.coefficient.natAbs * tenPow (top - d.scale) / n * 10) :
    IsQuotient d.units.natAbs n (quotientAt d.units.natAbs n places * tenPow (28 - places)) := by
  rcases Nat.lt_or_eq_of_le hplaces with hless | rfl
  · exact isQuotient_of_last (by omega) hfits fun _ => hbeyond (places + 1) (Nat.lt_succ_self places) hless
  · have hunits := units_mul_tenPow d hscale
    generalize d.coefficient.natAbs * tenPow (places - d.scale) = scaled at hunits hstop
    rcases hstop with hexact | hstop
    · have hdiv : d.units.natAbs * tenPow places = scaled / n * (n * tenPow 28) := by
        rw [← Nat.mul_assoc, Nat.div_mul_cancel (Nat.dvd_of_mod_eq_zero hexact), hunits]
      have hquotient : quotientAt d.units.natAbs n places = scaled / n := by
        rw [quotientAt, hdiv, roundHalfEven_mul_self _ (Nat.mul_pos hn (tenPow_pos 28))]
      rw [hquotient] at hfits ⊢
      exact isQuotient_of_exact d hn htop hfits hdiv
    · refine isQuotient_of_last htop hfits fun hlt => ?_
      have hscaled : d.units.natAbs * tenPow (places + 1) = scaled * 10 * tenPow 28 := by
        rw [tenPow_add, ← Nat.mul_assoc, hunits, show tenPow 1 = 10 from rfl, Nat.mul_right_comm]
      calc twoPow 96
          ≤ scaled / n * 10 := hstop.resolve_left (Nat.ne_of_lt hlt)
        _ ≤ scaled * 10 / n := by
          rw [Nat.le_div_iff_mul_le hn, Nat.mul_right_comm]
          exact Nat.mul_le_mul_right _ (Nat.div_mul_le_self _ _)
        _ = d.units.natAbs * tenPow (places + 1) / (n * tenPow 28) := by
          rw [hscaled, Nat.mul_div_mul_right _ _ (tenPow_pos 28)]
        _ ≤ quotientAt d.units.natAbs n (places + 1) := div_le_roundHalfEven _ _

/-- A quotient is rounded to fewer places than those at which it is taken by its value. -/
theorem roundHalfEven_eq_quotientAt (d : Decimal96) (hn : 0 < n) {top places : Nat} (hscale : d.scale ≤ top)
    (hplaces : places ≤ top) : roundHalfEven (d.coefficient.natAbs * tenPow (top - d.scale)) (n * tenPow (top - places)) =
      quotientAt d.units.natAbs n places := by
  refine roundHalfEven_congr (Nat.mul_pos hn (tenPow_pos _)) (Nat.mul_pos hn (tenPow_pos _)) ?_
  calc d.coefficient.natAbs * tenPow (top - d.scale) * (n * tenPow 28)
      = d.coefficient.natAbs * tenPow (top - d.scale) * tenPow 28 * n := by ring
    _ = d.units.natAbs * tenPow top * n := by rw [units_mul_tenPow d hscale]
    _ = d.units.natAbs * (tenPow places * tenPow (top - places)) * n := by rw [← tenPow_add, Nat.add_sub_cancel' hplaces]
    _ = d.units.natAbs * tenPow places * (n * tenPow (top - places)) := by ring

/-- A decimal is divided by its value. -/
theorem exists_divNat? (d : Decimal96) (hn : 0 < n) :
    ∃ q r, d.divNat? n = some q ∧ IsQuotient d.units.natAbs n r ∧ q.units = signed (decide (d.units < 0)) r := by
  unfold divNat?
  rw [if_neg (by omega)]
  split
  · rename_i hzero
    have hunits : d.units = 0 := units_eq_zero.2 hzero
    have hquotient := isQuotient_of_exact d hn (Nat.zero_le 28) (twoPow_pos 96) (by simp [hunits])
    rw [Nat.zero_mul] at hquotient
    exact ⟨zero, 0, rfl, hquotient, by simp [hunits]; rfl⟩
  · dsimp only
    split
    · -- no remainder: the quotient keeps the places of the dividend, which may be fewer than would fit
      rename_i hexact
      have hunits : d.units.natAbs * tenPow d.scale = d.coefficient.natAbs / n * (n * tenPow 28) := by
        rw [← Nat.mul_assoc, Nat.div_mul_cancel (Nat.dvd_of_mod_eq_zero hexact), natAbs_units, Nat.mul_assoc, ← tenPow_add,
          Nat.sub_add_cancel d.scale_le]
      have hfits : d.coefficient.natAbs / n < twoPow 96 := Nat.lt_of_le_of_lt (Nat.div_le_self _ _) d.coefficient_lt
      obtain ⟨q, hq, -, hqunits⟩ := exists_ofParts? (decide (d.coefficient < 0)) hfits d.scale_le
      refine ⟨q, _, hq, isQuotient_of_exact d hn d.scale_le hfits hunits, ?_⟩
      rw [hqunits]
      simp only [units_neg]
    · obtain ⟨hscale, htop, hstop⟩ := quotientScale_spec d.coefficient.natAbs n d.scale d.scale_le
        (Nat.le_add_right 28 d.scale)
      generalize quotientScale d.coefficient.natAbs n d.scale 28 d.scale = top at hscale htop hstop ⊢
      have hrounded : ∀ places ≤ top, roundHalfEven (d.coefficient.natAbs * tenPow (top - d.scale)) (n * tenPow (top - places)) =
          quotientAt d.units.natAbs n places := fun _ hplaces => roundHalfEven_eq_quotientAt d hn hscale hplaces
      have hzero := quotientAt_zero_lt d hn
      rw [← hrounded 0 (Nat.zero_le top)] at hzero
      obtain ⟨p, hfit, hp, hfits, hbeyond⟩ := exists_fit? (fun places =>
        roundHalfEven (d.coefficient.natAbs * tenPow (top - d.scale)) (n * tenPow (top - places))) hzero top
      simp only [hrounded p hp] at hfit hfits
      have hshort := shortens_shorten (quotientAt d.units.natAbs n p) p
      obtain ⟨q, hq, -, hqunits⟩ := exists_ofParts? (decide (d.coefficient < 0))
        (Nat.lt_of_le_of_lt hshort.le hfits) (Nat.le_trans hshort.1 (Nat.le_trans hp htop))
      refine ⟨q, _, ?_, isQuotient_of_fit d hn hscale htop hp hfits (fun more hmore hmoretop => ?_) hstop, ?_⟩
      · rw [hfit]
        exact hq
      · rw [← hrounded more hmoretop]
        exact hbeyond more hmore hmoretop
      · rw [hqunits, hshort.value (Nat.le_trans hp htop)]
        simp only [units_neg]

end Decimal96

/-! ## Conversion -/

namespace Binary64

/-- The fraction `c / den` has two digits behind the point at most, and is below `2^45`. -/
structure FewDigits (c den : Nat) : Prop where
  den_pos : 0 < den
  den_le : den ≤ 100
  lt : c < 35184372088832 * den

namespace FewDigits

variable {c den : Nat}

/-- The rounded fraction, as a multiple of the last digit. -/
theorem units_part_bounds (h : FewDigits c den) :
    2 * (units (nearestCode (c % den) den) * den) ≤ 2 * (c % den * unitsPerOne) + den * twoPow 1021 ∧
      2 * (c % den * unitsPerOne) ≤ 2 * (units (nearestCode (c % den) den) * den) + den * twoPow 1021 := by
  refine units_nearestCode_bounds (k := 0) h.den_pos ?_ (Nat.zero_le _)
  rw [show twoPow 0 = 1 from rfl, Nat.one_mul]
  exact Nat.mod_lt c h.den_pos

theorem whole_lt (h : FewDigits c den) : c / den < 35184372088832 := (Nat.div_lt_iff_lt_mul h.den_pos).2 h.lt

theorem le_total (h : FewDigits c den) : c ≤ 3518437208883200 :=
  Nat.le_trans (Nat.le_of_lt h.lt) (Nat.mul_le_mul_left 35184372088832 h.den_le)

theorem exact_eq (c den : Nat) :
    c * unitsPerOne = c / den * unitsPerOne * den + c % den * unitsPerOne := by
  rw [Nat.mul_right_comm, ← Nat.add_mul, Nat.div_add_mod']

/-- The rounded fraction is below one. -/
theorem units_part_lt (h : FewDigits c den) : units (nearestCode (c % den) den) < unitsPerOne := by
  obtain ⟨hle, -⟩ := h.units_part_bounds
  have hfraction : (c % den + 1) * unitsPerOne ≤ den * unitsPerOne := Nat.mul_le_mul_right _ (Nat.mod_lt c h.den_pos)
  have herror : den * twoPow 1021 ≤ 100 * twoPow 1021 := Nat.mul_le_mul_right _ h.den_le
  have hunits := unitsPerOne_eq
  have hpos : 0 < twoPow 1021 := twoPow_pos 1021
  rw [Nat.succ_mul] at hfraction
  refine Nat.lt_of_mul_lt_mul_right (a := den) ?_
  rw [Nat.mul_comm unitsPerOne]
  omega

/-- The fraction is not rounded to zero, unless it is zero. -/
theorem fraction_eq_zero (h : FewDigits c den) (hzero : nearestCode (c % den) den = 0) : c % den = 0 := by
  obtain ⟨-, hge⟩ := h.units_part_bounds
  have hzeroUnits : units 0 = 0 := rfl
  rw [hzero, hzeroUnits, Nat.zero_mul] at hge
  have hsmall : den * twoPow 1021 ≤ 100 * twoPow 1021 := Nat.mul_le_mul_right _ h.den_le
  have hunits := unitsPerOne_eq
  have hpos : 0 < twoPow 1021 := twoPow_pos 1021
  by_contra hne
  have hone : unitsPerOne ≤ c % den * unitsPerOne := Nat.le_mul_of_pos_left _ (Nat.pos_of_ne_zero hne)
  omega

/-- The whole part and the rounded fraction, added up. -/
def sum (c den : Nat) : Nat := nearestCode (c / den * unitsPerOne + units (nearestCode (c % den) den)) unitsPerOne

/-- The sum, as a multiple of the last digit, is off by less than a tenth of that digit. -/
theorem units_sum_bounds (h : FewDigits c den) :
    2 * (units (sum c den) * den) ≤ 2 * (c * unitsPerOne) + 3518437208883300 * twoPow 1021 ∧
      2 * (c * unitsPerOne) ≤ 2 * (units (sum c den) * den) + 3518437208883300 * twoPow 1021 := by
  have hpart := h.units_part_lt
  have hexact := exact_eq c den
  obtain ⟨hle, hge⟩ := h.units_part_bounds
  unfold sum
  generalize units (nearestCode (c % den) den) = part at *
  have hbelow : c / den * unitsPerOne + part < twoPow 45 * unitsPerOne := by
    have hwhole : (c / den + 1) * unitsPerOne ≤ 35184372088832 * unitsPerOne := Nat.mul_le_mul_right _ h.whole_lt
    rw [Nat.succ_mul] at hwhole
    rw [show twoPow 45 = 35184372088832 from rfl]
    omega
  obtain ⟨hsumLe, hsumGe⟩ := units_nearestCode_unitsPerOne hbelow (by decide)
  rw [show 1021 + 45 = 45 + 1021 from rfl, twoPow_add, show twoPow 45 = 35184372088832 from rfl] at hsumLe hsumGe
  generalize units (nearestCode (c / den * unitsPerOne + part) unitsPerOne) = sum at *
  have herror : den * twoPow 1021 ≤ 100 * twoPow 1021 := Nat.mul_le_mul_right _ h.den_le
  have hsumLe' := Nat.mul_le_mul_right den hsumLe
  have hsumGe' := Nat.mul_le_mul_right den hsumGe
  constructor
  · linarith
  · linarith

/-- What is converted in parts comes to the nearest number: its digits are found again in the sum. -/
theorem wholeCode_eq (h : FewDigits c den) :
    wholeCode (nearestCode (units (sum c den) * den) unitsPerOne) = nearestCode c 1 := by
  obtain ⟨hle, hge⟩ := h.units_sum_bounds
  generalize units (sum c den) * den = scaled at hle hge ⊢
  have hunits := unitsPerOne_eq
  have hpos : 0 < twoPow 1021 := twoPow_pos 1021
  have hc : c * unitsPerOne ≤ 3518437208883200 * unitsPerOne := Nat.mul_le_mul_right _ h.le_total
  have hbelow : scaled < twoPow 52 * unitsPerOne := by
    rw [show twoPow 52 = 4503599627370496 from rfl]
    omega
  obtain ⟨hproductLe, hproductGe⟩ := units_nearestCode_unitsPerOne hbelow (by decide)
  rw [show 1021 + 52 = 52 + 1021 from rfl, twoPow_add, show twoPow 52 = 4503599627370496 from rfl] at hproductLe hproductGe
  have hround : roundHalfUp (units (nearestCode scaled unitsPerOne)) unitsPerOne = c :=
    (roundHalfUp_eq_iff unitsPerOne_pos c).2 ⟨by omega, by omega⟩
  rw [wholeCode, hround]

end FewDigits

end Binary64

namespace Decimal96

/-- A value in units that is `10^13` at most. -/
def Small (u : Int) : Prop := u.natAbs ≤ tenPow 13 * tenPow 28

/-- A value in units that is `2^45` at most: two digits behind its point outlast the conversion. -/
def Convertible (u : Int) : Prop := u.natAbs ≤ twoPow 45 * tenPow 28

theorem Small.convertible {u : Int} (h : Small u) : Convertible u :=
  Nat.le_trans h (Nat.mul_le_mul_right _ (by decide))

open Binary64 in
/-- A decimal with two places at most that is not too large is converted to the nearest number. -/
theorem magnitudeCode_eq {d : Decimal96} (hscale : d.scale ≤ 2) (h : Convertible d.units) :
    d.magnitudeCode = Binary64.nearestCode d.coefficient.natAbs (tenPow d.scale) := by
  unfold magnitudeCode
  dsimp only
  split
  · rename_i hzero
    rw [hzero]
    rfl
  · have hbound : d.coefficient.natAbs ≤ 35184372088832 * tenPow d.scale := by
      refine Nat.le_of_mul_le_mul_right (c := tenPow (28 - d.scale)) ?_ (tenPow_pos _)
      rw [Convertible, natAbs_units] at h
      rwa [Nat.mul_assoc, ← tenPow_add, Nat.add_sub_cancel' d.scale_le]
    have hden_le : tenPow d.scale ≤ 100 := tenPow_le_tenPow hscale
    have hden : 0 < tenPow d.scale := tenPow_pos _
    generalize d.coefficient.natAbs = c at hbound ⊢
    generalize tenPow d.scale = den at hbound hden_le hden ⊢
    have hsmall : ∀ {n}, n ≤ 3518437208883200 → n < twoPow 53 := fun hn => Nat.lt_of_le_of_lt hn (by decide)
    have hunit := units_nearestCode_whole (hsmall (Nat.le_trans hden_le (by decide)))
    have hmod : c % den < den := Nat.mod_lt c hden
    have hfraction : Binary64.units (nearestCode (c % den) 1) = c % den * unitsPerOne :=
      units_nearestCode_whole (hsmall (by omega))
    rw [divCodes_of_whole hfraction hunit hden]
    -- without a fraction the whole part is all; else its sum with the fraction has the digits of both
    by_cases hwhole : c % den = 0
    · have hexact := Nat.div_add_mod' c den
      rw [hwhole, Nat.add_zero] at hexact
      rw [hwhole, if_pos (nearestCode_zero hden)]
      exact nearestCode_congr Nat.one_pos hden (hexact.trans (Nat.mul_one c).symm)
    · have hfew : FewDigits c den := by
        refine ⟨hden, hden_le, Nat.lt_of_le_of_ne hbound fun heq => hwhole ?_⟩
        rw [heq, Nat.mul_mod_left]
      have hsum : addCodes (nearestCode (c / den) 1) (nearestCode (c % den) den) = FewDigits.sum c den := by
        rw [addCodes, units_nearestCode_whole (hsmall (Nat.le_trans (Nat.le_of_lt hfew.whole_lt) (by decide)))]
        rfl
      rw [if_neg fun hzero => hwhole (hfew.fraction_eq_zero hzero), hsum, mulCodes_of_whole hunit, hfew.wholeCode_eq]
      exact divCodes_of_whole (units_nearestCode_whole (hsmall hfew.le_total)) hunit hden

/-- Decimals of one value that are not too large are converted to one number. -/
theorem toBinary64_congr {d d' : Decimal96} (hscale : d.scale ≤ 2) (hscale' : d'.scale ≤ 2) (hunits : d.units = d'.units)
    (h : Convertible d.units) : d.toBinary64 = d'.toBinary64 := by
  have hsign : (d.coefficient < 0) = (d'.coefficient < 0) := by rw [← units_neg, ← units_neg, hunits]
  have hvalue : d.coefficient.natAbs * tenPow d'.scale = d'.coefficient.natAbs * tenPow d.scale := by
    have hsame : d.coefficient.natAbs * tenPow (28 - d.scale) = d'.coefficient.natAbs * tenPow (28 - d'.scale) := by
      rw [← natAbs_units, ← natAbs_units, hunits]
    have hsplit : ∀ e : Decimal96, tenPow 28 = tenPow (28 - e.scale) * tenPow e.scale := fun e => by
      rw [← tenPow_add, Nat.sub_add_cancel e.scale_le]
    refine Nat.eq_of_mul_eq_mul_right (tenPow_pos 28) ?_
    calc d.coefficient.natAbs * tenPow d'.scale * tenPow 28
        = d.coefficient.natAbs * tenPow (28 - d.scale) * (tenPow d.scale * tenPow d'.scale) := by rw [hsplit d]; ring
      _ = d'.coefficient.natAbs * tenPow (28 - d'.scale) * (tenPow d.scale * tenPow d'.scale) := by rw [hsame]
      _ = d'.coefficient.natAbs * tenPow d.scale * tenPow 28 := by rw [hsplit d']; ring
  have hcode : d.magnitudeCode = d'.magnitudeCode := by
    rw [magnitudeCode_eq hscale h, magnitudeCode_eq hscale' (hunits ▸ h)]
    exact Binary64.nearestCode_congr (tenPow_pos _) (tenPow_pos _) hvalue
  simp only [toBinary64, hsign, hcode]

/-! ## Values that are rounded -/

/-- A quotient is no larger than what is divided. -/
theorem IsQuotient.le {u m r : Nat} (h : IsQuotient u n r) (hn : 0 < n) (hu : u ≤ m * tenPow 28) : r ≤ m * tenPow 28 := by
  obtain ⟨places, hplaces, -, -, rfl⟩ := h
  have hquotient : quotientAt u n places ≤ m * tenPow places := by
    rw [quotientAt, ← roundHalfEven_mul_self (m * tenPow places) (Nat.mul_pos hn (tenPow_pos 28))]
    refine roundHalfEven_mono ?_ _
    calc u * tenPow places
        ≤ m * tenPow 28 * tenPow places := Nat.mul_le_mul_right _ hu
      _ = m * tenPow places * tenPow 28 := Nat.mul_right_comm _ _ _
      _ ≤ m * tenPow places * (n * tenPow 28) := Nat.mul_le_mul_left _ (Nat.le_mul_of_pos_left _ hn)
  calc quotientAt u n places * tenPow (28 - places)
      ≤ m * tenPow places * tenPow (28 - places) := Nat.mul_le_mul_right _ hquotient
    _ = m * tenPow 28 := by rw [Nat.mul_assoc, ← tenPow_add, Nat.add_sub_cancel' hplaces]

/-- Decimals of one value that are not too large are rounded to one number. -/
theorem rounded_congr {d d' : Decimal96} (hunits : d.units = d'.units) (h : Convertible d.units) :
    Aggregate.rounded (some d) = Aggregate.rounded (some d') := by
  obtain ⟨r, hr, hscale, hrunits⟩ := d.exists_roundTo? Aggregate.places (by decide)
  obtain ⟨r', hr', hscale', hrunits'⟩ := d'.exists_roundTo? Aggregate.places (by decide)
  rw [← hunits, ← hrunits] at hrunits'
  have hconvertible : Convertible r.units := by
    have hbound : d.units.natAbs ≤ twoPow 45 * tenPow 2 * tenPow 26 := h
    rw [Convertible, hrunits, natAbs_signed]
    calc roundHalfUp d.units.natAbs (tenPow 26) * tenPow 26
        ≤ roundHalfUp (twoPow 45 * tenPow 2 * tenPow 26) (tenPow 26) * tenPow 26 :=
          Nat.mul_le_mul_right _ (roundHalfUp_mono hbound _)
      _ = twoPow 45 * tenPow 2 * tenPow 26 := by rw [roundHalfUp_mul_self _ (tenPow_pos 26)]
      _ = twoPow 45 * tenPow 28 := by rw [Nat.mul_assoc, ← tenPow_add]
  simp only [Aggregate.rounded, Option.bind_some, hr, hr', toBinary64_congr hscale hscale' hrunits'.symm hconvertible]

/-- So are their quotients. -/
theorem rounded_divNat?_congr {d d' : Decimal96} (hunits : d.units = d'.units) (h : Convertible d.units) (hn : 0 < n) :
    Aggregate.rounded (d.divNat? n) = Aggregate.rounded (d'.divNat? n) := by
  obtain ⟨q, r, hq, hquotient, hqunits⟩ := d.exists_divNat? hn
  obtain ⟨q', r', hq', hquotient', hqunits'⟩ := d'.exists_divNat? hn
  rw [← hunits] at hquotient' hqunits'
  rw [← hquotient.unique hquotient', ← hqunits] at hqunits'
  have hconvertible : Convertible q.units := by
    rw [Convertible, hqunits, natAbs_signed]
    exact hquotient.le hn h
  rw [hq, hq']
  exact rounded_congr hqunits'.symm hconvertible

end Decimal96

end SentenceQuery
