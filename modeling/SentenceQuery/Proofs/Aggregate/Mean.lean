import SentenceQuery.Proofs.Aggregate.Sum

/-!
# Means that are rounded twice

The mean of numbers is a quotient that is first rounded to the places that fit and then to two. Where the digits of the numbers fit,
their sum is exact, and so the quotient is off by half of its last place at most. That changes the outcome only if the mean is as close
as that to a midpoint of two places, which it is not where the quotient has enough places for the count and the places of the numbers
(`reduce_avg_exact`).
-/

namespace SentenceQuery

/-- Rounding to the nearest whole number first makes no difference to a multiple of `2 * half`, if a value that is below a midpoint of
these is further from it than a half. A value that is not below a midpoint is not rounded below it in any case. -/
theorem roundHalfUp_roundHalfEven {num den half : Nat} (hden : 0 < den) (hhalf : 0 < half)
    (hapart : ∀ m, num < (2 * m + 1) * half * den → 2 * num + den < 2 * ((2 * m + 1) * half * den)) :
    roundHalfUp (roundHalfEven num den) (2 * half) = roundHalfUp num (den * (2 * half)) := by
  have hmultiple : 0 < 2 * half := by omega
  obtain ⟨hlow, hhigh⟩ := (roundHalfUp_eq_iff (Nat.mul_pos hden hmultiple) _).1 (Eq.refl (roundHalfUp num (den * (2 * half))))
  generalize roundHalfUp num (den * (2 * half)) = m at hlow hhigh ⊢
  rw [roundHalfUp_eq_iff hmultiple]
  -- the value lies between two midpoints, and what it is first rounded to has to lie between them too
  constructor
  · cases m with
    | zero => omega
    | succ m =>
      have hmid : (2 * m + 1) * half * den ≤ num := by
        have hexpand : 2 * ((m + 1) * (den * (2 * half))) = 2 * ((2 * m + 1) * half * den) + den * (2 * half) := by ring
        omega
      have hmono := roundHalfEven_mono hmid den
      rw [roundHalfEven_mul_self _ hden] at hmono
      have hexpand : 2 * ((m + 1) * (2 * half)) = 2 * ((2 * m + 1) * half) + 2 * half := by ring
      omega
  · have hmid : num < (2 * m + 1) * half * den := by
      have hexpand : 2 * (m * (den * (2 * half))) + 2 * (den * (2 * half)) =
          2 * ((2 * m + 1) * half * den) + den * (2 * half) := by ring
      omega
    have hbelow : roundHalfEven num den < (2 * m + 1) * half := by
      have hfar := hapart m hmid
      obtain ⟨hle, -⟩ := roundHalfEven_bounds num hden
      exact Nat.lt_of_mul_lt_mul_right (a := den) (by omega)
    have hexpand : 2 * (m * (2 * half)) + 2 * (2 * half) = 2 * ((2 * m + 1) * half) + 2 * half := by ring
    omega

namespace Decimal96

variable {u n r k p : Nat}

/-- A quotient has as many places as it has room for. -/
theorem IsQuotient.exists_places (h : IsQuotient u n r) (hn : 0 < n) (hp : p ≤ 28)
    (hroom : u * tenPow p ≤ (twoPow 96 - 1) * (n * tenPow 28)) :
    ∃ places, p ≤ places ∧ places ≤ 28 ∧ r = quotientAt u n places * tenPow (28 - places) := by
  obtain ⟨places, hplaces, -, hbeyond, rfl⟩ := h
  refine ⟨places, ?_, hplaces, rfl⟩
  by_contra hless
  have hlarge := hbeyond p (by omega) hp
  have hfits : quotientAt u n p ≤ twoPow 96 - 1 := by
    rw [quotientAt, ← roundHalfEven_mul_self (twoPow 96 - 1) (Nat.mul_pos hn (tenPow_pos 28))]
    exact roundHalfEven_mono hroom _
  have hpos := twoPow_pos 96
  omega

/-- A value with `k` places, divided by a count, is far from the midpoints of two places if it is taken at enough places. -/
theorem quotientAt_apart (hk : 3 ≤ k) (hk' : k ≤ 28) (hu : tenPow (28 - k) ∣ u) (hp : 3 ≤ p)
    (henough : n * tenPow k < 2 * tenPow p) (m : Nat) (h : u * tenPow p < (2 * m + 1) * (5 * tenPow (p - 3)) * (n * tenPow 28)) :
    2 * (u * tenPow p) + n * tenPow 28 < 2 * ((2 * m + 1) * (5 * tenPow (p - 3)) * (n * tenPow 28)) := by
  obtain ⟨c, rfl⟩ := hu
  -- the value and the midpoint are multiples of one number, which is more than a half
  have hmid : (2 * m + 1) * (5 * tenPow (p - 3)) * (n * tenPow 28) =
      (2 * m + 1) * 5 * n * tenPow (k - 3) * (tenPow (28 - k) * tenPow p) := by
    have hsplit : tenPow (p - 3) * tenPow 28 = tenPow (k - 3) * (tenPow (28 - k) * tenPow p) := by
      rw [← tenPow_add, ← tenPow_add, ← tenPow_add]
      congr 1
      omega
    calc (2 * m + 1) * (5 * tenPow (p - 3)) * (n * tenPow 28)
        = (2 * m + 1) * 5 * n * (tenPow (p - 3) * tenPow 28) := by ring
      _ = (2 * m + 1) * 5 * n * tenPow (k - 3) * (tenPow (28 - k) * tenPow p) := by rw [hsplit, ← Nat.mul_assoc]
  have hnum : tenPow (28 - k) * c * tenPow p = c * (tenPow (28 - k) * tenPow p) := by ring
  have hden : n * tenPow 28 < 2 * (tenPow (28 - k) * tenPow p) := by
    calc n * tenPow 28
        = n * tenPow k * tenPow (28 - k) := by rw [Nat.mul_assoc, ← tenPow_add, Nat.add_sub_cancel' hk']
      _ < 2 * tenPow p * tenPow (28 - k) := Nat.mul_lt_mul_of_pos_right henough (tenPow_pos _)
      _ = 2 * (tenPow (28 - k) * tenPow p) := by ring
  rw [hmid, hnum] at h ⊢
  have hstep : c + 1 ≤ (2 * m + 1) * 5 * n * tenPow (k - 3) := Nat.lt_of_mul_lt_mul_right h
  have hmul := Nat.mul_le_mul_right (tenPow (28 - k) * tenPow p) hstep
  rw [Nat.succ_mul] at hmul
  omega

/-- A quotient that is taken at enough places is rounded to two places as the exact one is. -/
theorem roundHalfUp_quotientAt (hk : 3 ≤ k) (hk' : k ≤ 28) (hu : tenPow (28 - k) ∣ u) (hn : 0 < n) (hp : p ≤ 28)
    (henough : n * tenPow k < 2 * tenPow p) :
    roundHalfUp (quotientAt u n p * tenPow (28 - p) * tenPow 2) (tenPow 28) = roundHalfUp (u * tenPow 2) (n * tenPow 28) := by
  have hp3 : 3 ≤ p := by
    by_contra hless
    have hsmall : tenPow p ≤ tenPow 2 := tenPow_le_tenPow (by omega)
    have hlarge : tenPow 3 ≤ n * tenPow k :=
      Nat.le_trans (tenPow_le_tenPow hk) (Nat.le_mul_of_pos_left _ hn)
    have htwo : tenPow 2 = 100 := rfl
    have hthree : tenPow 3 = 1000 := rfl
    omega
  have hhalf : tenPow (p - 2) = 2 * (5 * tenPow (p - 3)) := by
    rw [show p - 2 = p - 3 + 1 by omega, tenPow_add, show tenPow 1 = 10 from rfl]
    ring
  have hscale : tenPow 28 = tenPow (p - 2) * (tenPow (28 - p) * tenPow 2) := by
    rw [← tenPow_add, ← tenPow_add]
    congr 1
    omega
  have hnum : u * tenPow p = u * tenPow 2 * tenPow (p - 2) := by
    rw [Nat.mul_assoc, ← tenPow_add, Nat.add_sub_cancel' (by omega)]
  have hden : 0 < n * tenPow 28 := Nat.mul_pos hn (tenPow_pos 28)
  calc roundHalfUp (quotientAt u n p * tenPow (28 - p) * tenPow 2) (tenPow 28)
      = roundHalfUp (quotientAt u n p) (tenPow (p - 2)) := by
        rw [hscale, Nat.mul_assoc, roundHalfUp_mul_right _ _ (Nat.mul_pos (tenPow_pos _) (tenPow_pos _))]
    _ = roundHalfUp (u * tenPow p) (n * tenPow 28 * tenPow (p - 2)) := by
        rw [hhalf]
        exact roundHalfUp_roundHalfEven hden (Nat.mul_pos (by decide) (tenPow_pos _))
          (quotientAt_apart hk hk' hu hp3 henough)
    _ = roundHalfUp (u * tenPow 2) (n * tenPow 28) := by
        rw [hnum, roundHalfUp_mul_right _ _ (tenPow_pos _)]

/-- A quotient is off by half of its last place at most. -/
theorem abs_quotientAt_sub_le (hn : 0 < n) {places : Nat} (hp : p ≤ places) (hplaces : places ≤ 28) :
    |((quotientAt u n places * tenPow (28 - places) : Nat) : ℚ) / (tenPow 28 : Nat) - u / (n * tenPow 28 : Nat)| *
      (2 * 10 ^ p) ≤ 1 := by
  have hden : 0 < n * tenPow 28 := Nat.mul_pos hn (tenPow_pos 28)
  have hvalue : ((quotientAt u n places * tenPow (28 - places) : Nat) : ℚ) / (tenPow 28 : Nat) =
      quotientAt u n places / 10 ^ places := by
    have hpos : ((tenPow (28 - places) : Nat) : ℚ) ≠ 0 := Nat.cast_ne_zero.2 (tenPow_pos _).ne'
    have hsplit : tenPow 28 = tenPow places * tenPow (28 - places) := by
      rw [← tenPow_add, Nat.add_sub_cancel' hplaces]
    rw [hsplit, Nat.cast_mul, Nat.cast_mul, mul_div_mul_right _ _ hpos, tenPow_eq, Nat.cast_pow]
    rfl
  have hbounds := roundHalfEven_bounds (u * tenPow places) hden
  rw [← quotientAt] at hbounds
  rw [hvalue]
  generalize quotientAt u n places = q at hbounds ⊢
  generalize n * tenPow 28 = den at hden hbounds ⊢
  have hden' : (0 : ℚ) < den := Nat.cast_pos.2 hden
  have hoff : |(q : ℚ) * den - 10 ^ places * u| * 2 ≤ den := by
    obtain ⟨hle, hge⟩ := hbounds
    rw [tenPow_eq] at hle hge
    have hle' : 2 * ((q : ℚ) * den) ≤ 2 * (u * 10 ^ places) + den := by exact_mod_cast hle
    have hge' : 2 * ((u : ℚ) * 10 ^ places) ≤ 2 * (q * den) + den := by exact_mod_cast hge
    rw [← le_div_iff₀ (by norm_num), abs_le]
    constructor <;> linarith
  calc |(q : ℚ) / 10 ^ places - u / den| * (2 * 10 ^ p)
      ≤ |(q : ℚ) / 10 ^ places - u / den| * (2 * 10 ^ places) := by gcongr; norm_num
    _ = |(q : ℚ) * den - 10 ^ places * u| * 2 / den := by
      rw [div_sub_div _ _ (by positivity) hden'.ne', abs_div, abs_of_pos (a := (10 : ℚ) ^ places * den) (by positivity)]
      field_simp
    _ ≤ 1 := (div_le_one hden').2 hoff

theorem abs_signed_sub (negative : Bool) (m n : Nat) (a b : ℚ) :
    |(signed negative m : ℚ) / a - (signed negative n : ℚ) / b| = |m / a - n / b| := by
  rw [cast_signed, cast_signed, mul_div_assoc, mul_div_assoc, ← mul_sub, abs_mul]
  cases negative <;> simp

/-- A quotient that has room for `p` places is off by half of the last of them at most. If they are enough for the count and the places
of what is divided, it is rounded to two places as the exact quotient is. -/
theorem exists_value_divNat? (d : Decimal96) (hn : 0 < n) :
    ∃ q, d.divNat? n = some q ∧ ∀ p ≤ 28, |d.value / n| * 10 ^ p ≤ 2 ^ 96 - 1 → |q.value - d.value / n| * (2 * 10 ^ p) ≤ 1 ∧
      ∀ k ≤ 28, (tenPow (28 - k) : Int) ∣ d.units → n * 10 ^ max 3 k < 2 * 10 ^ p →
        roundAway 2 q.value = roundAway 2 (d.value / n) := by
  obtain ⟨q, r, hq, hquotient, hunits⟩ := d.exists_divNat? hn
  have hden : 0 < n * tenPow 28 := Nat.mul_pos hn (tenPow_pos 28)
  have hexact : d.value / n = (signed (decide (d.units < 0)) d.units.natAbs : ℚ) / (n * tenPow 28 : Nat) := by
    rw [signed_natAbs, Nat.cast_mul, mul_comm, ← div_div, ← d.value_eq]
  refine ⟨q, hq, fun p hp hroom => ?_⟩
  have hfits : d.units.natAbs * tenPow p ≤ (twoPow 96 - 1) * (n * tenPow 28) := by
    have hcast : ((twoPow 96 - 1 : Nat) : ℚ) = 2 ^ 96 - 1 := by norm_num [twoPow_eq]
    rw [hexact, abs_div, Nat.abs_cast, ← Int.cast_abs, Int.abs_eq_natAbs, natAbs_signed, div_mul_eq_mul_div,
      div_le_iff₀ (Nat.cast_pos.2 hden), ← hcast] at hroom
    exact_mod_cast hroom
  obtain ⟨places, hle, hplaces, rfl⟩ := hquotient.exists_places hn hp hfits
  rw [q.value_eq, hunits, hexact]
  refine ⟨?_, fun k hk hdvd henough => ?_⟩
  · rw [abs_signed_sub]
    exact abs_quotientAt_sub_le hn hle hplaces
  · have hpow : n * tenPow (max 3 k) < 2 * tenPow places :=
      Nat.lt_of_lt_of_le henough (Nat.mul_le_mul_left 2 (tenPow_le_tenPow hle))
    have htop : max 3 k ≤ 28 := Nat.max_le.2 ⟨by decide, hk⟩
    have hmultiple : tenPow (28 - max 3 k) ∣ d.units.natAbs :=
      (pow_dvd_pow 10 (Nat.sub_le_sub_left (Nat.le_max_right 3 k) 28)).trans (Int.natCast_dvd.1 hdvd)
    rw [roundAway_signed _ _ _ (tenPow_pos 28), roundAway_signed _ _ _ hden,
      roundHalfUp_quotientAt (Nat.le_max_left 3 k) htop hmultiple hn hplaces hpow]

end Decimal96

namespace Aggregate

open Binary64

theorem reduce_avg {xs : List Binary64} (hne : xs ≠ []) :
    avg.reduce xs = decimalSum xs >>= fun total => rounded (total.divNat? xs.length) :=
  if_neg fun h => hne h.1

/-- Of numbers that fit there is a mean: the exact sum, divided, rounded to two places and converted. A quotient that has room for `p`
places is off by half of the last of them at most. If these are enough for the count and the places of the numbers, what is converted is
the exact mean rounded once. -/
theorem reduce_avg_exact {k : Nat} {xs : List Binary64} (hne : xs ≠ []) (h : FitsPlaces k xs) :
    let mean := (xs.map shown).sum / xs.length
    ∃ total quotient r, decimalSum xs = .ok total ∧ total.value = (xs.map shown).sum ∧
      total.divNat? xs.length = some quotient ∧ quotient.roundTo? places = some r ∧ avg.reduce xs = .ok r.toBinary64 ∧
      r.value = roundAway places quotient.value ∧
      ∀ p ≤ 28, |mean| * 10 ^ p ≤ 2 ^ 96 - 1 → |quotient.value - mean| * (2 * 10 ^ p) ≤ 1 ∧
        (xs.length * 10 ^ Max.max 3 k < 2 * 10 ^ p → r.value = roundAway places mean) := by
  intro mean
  obtain ⟨total, hsum, hvalue, hdvd⟩ := h.exists_decimalSum
  obtain ⟨quotient, hdiv, hquotient⟩ := total.exists_value_divNat? (List.length_pos_of_ne_nil hne)
  obtain ⟨r, hr, -, hrounded⟩ := quotient.exists_value_roundTo? (show places ≤ 28 by decide)
  have hreduce : avg.reduce xs = .ok r.toBinary64 := by
    rw [reduce_avg hne, hsum, ok_bind, rounded, hdiv, Option.bind_some, hr]
  rw [hvalue] at hquotient
  refine ⟨total, quotient, r, hsum, hvalue, hdiv, hr, hreduce, hrounded, fun p hp hroom => ?_⟩
  obtain ⟨hclose, hround⟩ := hquotient p hp hroom
  exact ⟨hclose, fun henough => hrounded.trans (hround k h.places_le hdvd henough)⟩

/-- Two thirds below zero, at twenty places. -/
theorem reduce_avg_exact_thirds :
    let xs := [ofCode true (nearestCode 1 1), ofCode true (nearestCode 1 1), .zero]
    xs ≠ [] ∧ FitsPlaces 0 xs ∧ |(xs.map shown).sum / xs.length| * 10 ^ 20 ≤ 2 ^ 96 - 1 ∧
      ∃ r : Decimal96, avg.reduce xs = .ok r.toBinary64 ∧ r.value = roundAway places ((xs.map shown).sum / xs.length) := by
  intro xs
  have hfits : FitsPlaces 0 xs := ⟨by decide, by decide +kernel, by decide +kernel, by decide +kernel⟩
  have hroom : |(xs.map shown).sum / xs.length| * 10 ^ 20 ≤ 2 ^ 96 - 1 := by decide +kernel
  obtain ⟨_, _, r, -, -, -, -, hreduce, -, hplaces⟩ := reduce_avg_exact (List.cons_ne_nil _ _) hfits
  exact ⟨List.cons_ne_nil _ _, hfits, hroom, r, hreduce, (hplaces 20 (by decide) hroom).2 (by decide)⟩

/-- A mean that is just below the midpoint between 0 and 0.01, and is first rounded to the midpoint. -/
theorem reduce_avg_twice_rounded :
    let xs := [ofCode false (DecimalForm.nearestCode ⟨15, -3⟩), ofCode true (DecimalForm.nearestCode ⟨1, -28⟩), .zero]
    let r := ofCode false (DecimalForm.nearestCode ⟨1, -2⟩)
    FitsPlaces 28 xs ∧ roundAway places ((xs.map shown).sum / xs.length) = 0 ∧
      (∃ total quotient d, decimalSum xs = .ok total ∧ total.divNat? xs.length = some quotient ∧
        quotient.roundTo? places = some d ∧ d.value = 1 / 100) ∧
      avg.reduce xs = .ok r ∧ r ≠ .zero := by
  intro xs r
  have hfits : FitsPlaces 28 xs := ⟨by decide, by decide +kernel, by decide +kernel, by decide +kernel⟩
  refine ⟨hfits, by decide +kernel, ?_, by decide +kernel, by decide +kernel⟩
  exact ⟨⟨149999999999999999999999999, 28, by decide, by decide⟩, ⟨5000000000000000000, 21, by decide, by decide⟩,
    ⟨1, 2, by decide, by decide⟩,
    by decide +kernel, by decide +kernel, by decide +kernel, by decide +kernel⟩

end Aggregate

end SentenceQuery
