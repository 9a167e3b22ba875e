import Mathlib.Algebra.Order.Floor.Semifield
import Mathlib.Data.Rat.Floor
import SentenceQuery.Proofs.Number.DecimalSum

/-!
# Decimals as rational numbers

A decimal stands for a rational number (`Decimal96.value`), and so do the digits that a finite number is shown with (`Binary64.shown`).
Rounding a decimal to places rounds its value, a half away from zero (`Decimal96.exists_value_roundTo?`). A number that is shown with few
enough digits has a decimal of exactly the value that is shown (`Decimal96.exists_ofBinary64?`).
-/

namespace SentenceQuery

/-- A rational number rounded to decimal places, a half away from zero. -/
def roundAway (places : Nat) (q : ℚ) : ℚ :=
  (if q < 0 then -1 else 1) * (⌊|q| * 10 ^ places + 1 / 2⌋₊ / 10 ^ places)

/-- The rational number that a decimal stands for. -/
def DecimalForm.value (d : DecimalForm) : ℚ := d.coefficient * 10 ^ d.exponent

/-- The number of digits behind the point of a decimal. -/
def DecimalForm.places (d : DecimalForm) : Nat := (-d.exponent).toNat

/-- The decimal that a finite number is shown as in plain form, without its sign. -/
def Binary64.decimalForm (x : Binary64) : DecimalForm :=
  if x.isZero then ⟨0, 0⟩ else .shortest .upwards x.code

/-- The rational number that a finite number is shown as. -/
def Binary64.shown (x : Binary64) : ℚ := (if x.negative then -1 else 1) * x.decimalForm.value

/-- The rational number that a decimal stands for. -/
def Decimal96.value (d : Decimal96) : ℚ := d.coefficient / 10 ^ d.scale

/-! ## Rounding -/

theorem roundHalfUp_eq_floor (num : Nat) {den : Nat} (hden : 0 < den) :
    roundHalfUp num den = ⌊(num : ℚ) / den + 1 / 2⌋₊ := by
  have hden' : (den : ℚ) ≠ 0 := by positivity
  have hsum : (num : ℚ) / den + 1 / 2 = ((2 * num + den : Nat) : ℚ) / (2 * den : Nat) := by
    push_cast
    field_simp
  rw [hsum, Nat.floor_div_eq_div, roundHalfUp]

theorem cast_signed (negative : Bool) (n : Nat) :
    (Decimal96.signed negative n : ℚ) = (if negative then -1 else 1) * n := by
  cases negative <;> simp [Decimal96.signed]

/-- A quotient is rounded by its magnitude, and keeps its sign. -/
theorem roundAway_div (places : Nat) (i : Int) {den : Nat} (hden : 0 < den) :
    roundAway places (i / den) =
      Decimal96.signed (decide (i < 0)) (roundHalfUp (i.natAbs * tenPow places) den) / 10 ^ places := by
  have hpos : (0 : ℚ) < den := by exact_mod_cast hden
  have hsign : ((i : ℚ) / den < 0) ↔ i < 0 := by
    rw [div_neg_iff]
    constructor
    · rintro (⟨-, h⟩ | ⟨h, -⟩)
      · exact absurd h (not_lt.2 hpos.le)
      · exact_mod_cast h
    · exact fun h => Or.inr ⟨by exact_mod_cast h, hpos⟩
  have hmagnitude : |(i : ℚ) / den| * 10 ^ places = ((i.natAbs * tenPow places : Nat) : ℚ) / den := by
    rw [abs_div, abs_of_pos hpos, Nat.cast_mul, tenPow_eq, Nat.cast_natAbs, Int.cast_abs, Nat.cast_pow]
    push_cast
    ring
  rw [roundAway, hmagnitude, cast_signed, roundHalfUp_eq_floor _ hden, mul_div_assoc]
  simp only [hsign, decide_eq_true_eq]

theorem roundAway_signed (places : Nat) (negative : Bool) (n : Nat) {den : Nat} (hden : 0 < den) :
    roundAway places ((Decimal96.signed negative n : ℚ) / den) =
      Decimal96.signed negative (roundHalfUp (n * tenPow places) den) / 10 ^ places := by
  rw [roundAway_div places _ hden, Decimal96.natAbs_signed]
  rcases Nat.eq_zero_or_pos n with rfl | hn
  · have hzero : roundHalfUp (0 * tenPow places) den = 0 := (roundHalfUp_eq_iff hden 0).2 ⟨by omega, by omega⟩
    rw [hzero]
    cases negative <;> simp [Decimal96.signed]
  · have hsign : decide (Decimal96.signed negative n < 0) = negative := by
      cases negative <;> simp [Decimal96.signed, hn]
    rw [hsign]

namespace Decimal96

/-! ## Values -/

theorem value_eq (d : Decimal96) : d.value = d.units / (tenPow 28 : Nat) := by
  have hsplit : tenPow 28 = tenPow (28 - d.scale) * tenPow d.scale := by
    rw [← tenPow_add, Nat.sub_add_cancel d.scale_le]
  have hpos : ((tenPow (28 - d.scale) : Nat) : ℚ) ≠ 0 := Nat.cast_ne_zero.2 (tenPow_pos _).ne'
  rw [value, units, coefficientAt, hsplit]
  push_cast
  rw [mul_comm, mul_div_mul_left _ _ hpos, tenPow_eq]
  push_cast
  rfl

theorem value_eq_iff {d d' : Decimal96} : d.value = d'.value ↔ d.units = d'.units := by
  have hpos : ((tenPow 28 : Nat) : ℚ) ≠ 0 := Nat.cast_ne_zero.2 (tenPow_pos _).ne'
  rw [value_eq, value_eq, div_left_inj' hpos, Int.cast_inj]

theorem value_eq_zero {d : Decimal96} : d.value = 0 ↔ d.coefficient = 0 := by
  rw [d.value_eq, div_eq_zero_iff, or_iff_left (Nat.cast_ne_zero.2 (tenPow_pos 28).ne'), Int.cast_eq_zero, units_eq_zero]

theorem abs_value (d : Decimal96) : |d.value| = (d.units.natAbs : ℚ) / (tenPow 28 : Nat) := by
  rw [d.value_eq, abs_div, Nat.abs_cast, Nat.cast_natAbs, Int.cast_abs]

/-! ### Sums -/

theorem sum_map_value (ds : List Decimal96) : (ds.map value).sum = total ds / (tenPow 28 : Nat) := by
  induction ds with
  | nil => simp [total]
  | cons d ds ih =>
    have htotal : total (d :: ds) = d.units + total ds := List.sum_cons
    rw [List.map_cons, List.sum_cons, ih, d.value_eq, htotal, Int.cast_add, add_div]

theorem sum_map_abs_value (ds : List Decimal96) :
    (ds.map fun d => |d.value|).sum = magnitudes ds / (tenPow 28 : Nat) := by
  induction ds with
  | nil => simp [magnitudes]
  | cons d ds ih =>
    have hmagnitudes : magnitudes (d :: ds) = d.units.natAbs + magnitudes ds := List.sum_cons
    rw [List.map_cons, List.sum_cons, ih, d.abs_value, hmagnitudes, Nat.cast_add, add_div]

/-! ### Rounding -/

/-- A decimal is rounded to places as its value is. -/
theorem exists_value_roundTo? (d : Decimal96) {places : Nat} (hplaces : places ≤ 28) :
    ∃ r, d.roundTo? places = some r ∧ r.scale ≤ places ∧ r.value = roundAway places d.value := by
  obtain ⟨r, hr, hscale, hunits⟩ := d.exists_roundTo? places hplaces
  refine ⟨r, hr, hscale, ?_⟩
  have hsplit : tenPow 28 = tenPow (28 - places) * tenPow places := by
    rw [← tenPow_add, Nat.sub_add_cancel hplaces]
  have hround : roundHalfUp (d.units.natAbs * tenPow places) (tenPow 28) =
      roundHalfUp d.units.natAbs (tenPow (28 - places)) := by
    rw [hsplit, roundHalfUp_mul_right _ _ (tenPow_pos places)]
  rw [d.value_eq, roundAway_div places d.units (tenPow_pos 28), hround, r.value_eq, hunits, cast_signed, cast_signed, hsplit]
  generalize roundHalfUp d.units.natAbs (tenPow (28 - places)) = rounded
  have hpos : ((tenPow (28 - places) : Nat) : ℚ) ≠ 0 := Nat.cast_ne_zero.2 (tenPow_pos _).ne'
  rw [Nat.cast_mul, Nat.cast_mul, ← mul_assoc, mul_comm ((tenPow (28 - places) : Nat) : ℚ), mul_div_mul_right _ _ hpos,
    tenPow_eq places]
  push_cast
  rfl

/-! ## Decimals of numbers -/

theorem exists_value_ofParts? (negative : Bool) {magnitude scale : Nat} (hmagnitude : magnitude < twoPow 96) (hscale : scale ≤ 28) :
    ∃ d, ofParts? negative magnitude scale = some d ∧ d.scale = scale ∧
      d.value = (if negative then -1 else 1) * (magnitude / 10 ^ scale) := by
  obtain ⟨d, hd, rfl, hunits⟩ := exists_ofParts? negative hmagnitude hscale
  refine ⟨d, hd, rfl, ?_⟩
  have hsplit : tenPow 28 = tenPow (28 - d.scale) * tenPow d.scale := by
    rw [← tenPow_add, Nat.sub_add_cancel d.scale_le]
  have hpos : ((tenPow (28 - d.scale) : Nat) : ℚ) ≠ 0 := Nat.cast_ne_zero.2 (tenPow_pos _).ne'
  rw [value_eq, hunits, cast_signed, hsplit, Nat.cast_mul, Nat.cast_mul, mul_div_assoc, mul_comm (magnitude : ℚ),
    mul_div_mul_left _ _ hpos, tenPow_eq, Nat.cast_pow]
  rfl

/-- A decimal form with few enough digits keeps its value and its places. -/
theorem exists_ofForm? (negative : Bool) {d : DecimalForm} {k : Nat} (hk : k ≤ 28) (hplaces : d.places ≤ k)
    (hfits : d.value * 10 ^ k < 2 ^ 96) :
    ∃ r, ofForm? negative d = some r ∧ r.scale = d.places ∧ r.value = (if negative then -1 else 1) * d.value := by
  obtain ⟨c, e⟩ := d
  cases e with
  | ofNat e =>
    have hvalue : DecimalForm.value ⟨c, Int.ofNat e⟩ = ((c * tenPow e : Nat) : ℚ) := by
      simp [DecimalForm.value, tenPow_eq]
    have hmagnitude : c * tenPow e < twoPow 96 := by
      have hone : (1 : ℚ) ≤ 10 ^ k := one_le_pow₀ (by norm_num)
      have hle : ((c * tenPow e : Nat) : ℚ) ≤ (c * tenPow e : Nat) * 10 ^ k := le_mul_of_one_le_right (Nat.cast_nonneg _) hone
      rw [hvalue] at hfits
      exact_mod_cast hle.trans_lt hfits
    obtain ⟨r, hr, hscale, hrvalue⟩ := exists_value_ofParts? negative hmagnitude (Nat.zero_le 28)
    refine ⟨r, hr, by rw [hscale]; exact (Int.toNat_neg_natCast e).symm, ?_⟩
    rw [hrvalue, hvalue, pow_zero, div_one]
  | negSucc m =>
    have hm : m + 1 ≤ k := hplaces
    have hvalue : DecimalForm.value ⟨c, Int.negSucc m⟩ = c / 10 ^ (m + 1) := by
      rw [DecimalForm.value, zpow_negSucc, div_eq_mul_inv]
    have hmagnitude : c < twoPow 96 := by
      have hpow : (10 : ℚ) ^ (m + 1) ≤ 10 ^ k := pow_le_pow_right₀ (by norm_num) hm
      have hle : (c : ℚ) ≤ c / 10 ^ (m + 1) * 10 ^ k := by
        rw [div_mul_eq_mul_div, le_div_iff₀ (by positivity)]
        exact mul_le_mul_of_nonneg_left hpow (Nat.cast_nonneg c)
      rw [hvalue] at hfits
      exact_mod_cast hle.trans_lt hfits
    obtain ⟨r, hr, hscale, hrvalue⟩ := exists_value_ofParts? negative hmagnitude (Nat.le_trans hm hk)
    refine ⟨r, ?_, hscale, by rw [hrvalue, hvalue]⟩
    have hself : roundHalfUp c (tenPow (m + 1 - (m + 1))) = c := by
      rw [Nat.sub_self, show tenPow 0 = 1 from rfl, ← Nat.mul_one c, roundHalfUp_mul_self _ Nat.one_pos, Nat.mul_one]
    have hfit : fit? (fun s => roundHalfUp c (tenPow (m + 1 - s))) (m + 1) = some (c, m + 1) := by
      rw [fit?, if_pos (by rwa [hself]), hself]
    simp only [ofForm?, Nat.min_eq_left (Nat.le_trans hm hk), hfit]
    exact hr

/-- A finite number that is shown with few enough digits has a decimal of the value and the places that are shown. -/
theorem exists_ofBinary64? {x : Binary64} (hfinite : x.isFinite = true) {k : Nat} (hk : k ≤ 28)
    (hplaces : x.decimalForm.places ≤ k) (hfits : |x.shown| * 10 ^ k < 2 ^ 96) :
    ∃ d, ofBinary64? x = some d ∧ d.scale = x.decimalForm.places ∧ d.value = x.shown := by
  unfold ofBinary64?
  rw [if_pos hfinite]
  by_cases hzero : x.isZero = true
  · have hform : x.decimalForm = ⟨0, 0⟩ := if_pos hzero
    refine ⟨zero, if_pos hzero, by rw [hform]; rfl, ?_⟩
    simp [value, zero, Binary64.shown, hform, DecimalForm.value]
  · have hform : x.decimalForm = .shortest .upwards x.code := if_neg hzero
    have habs : |x.shown| = x.decimalForm.value := by
      have hnonneg : 0 ≤ x.decimalForm.value := mul_nonneg (Nat.cast_nonneg _) (zpow_nonneg (by norm_num) _)
      unfold Binary64.shown
      cases x.negative <;> simp [abs_of_nonneg hnonneg]
    rw [habs] at hfits
    obtain ⟨d, hd, hscale, hvalue⟩ := exists_ofForm? x.negative hk hplaces hfits
    refine ⟨d, ?_, hscale, hvalue⟩
    rw [if_neg hzero, ← hform]
    exact hd

end Decimal96

end SentenceQuery
