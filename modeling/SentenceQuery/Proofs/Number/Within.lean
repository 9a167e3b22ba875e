import SentenceQuery.Number.Decimal96
import SentenceQuery.Proofs.Number.Rounding

/-!
# Magnitudes below a power of two

A magnitude that is at most a power of two stays so when it is rounded, and a sum, a product or a quotient of such magnitudes is at most
the power that their powers make (`WithinTwoPow`). On its way to binary64 a decimal never leaves the range, so what comes out is
finite (`Decimal96.isFinite_toBinary64`).
-/

namespace SentenceQuery

namespace Binary64

/-- The code is that of a finite magnitude, at most a power of two. -/
structure WithinTwoPow (k code : Nat) : Prop where
  finite : code < infinityCode
  units_le : units code ≤ twoPow k * unitsPerOne

variable {j k a b num den : Nat}

theorem WithinTwoPow.isFinite {code : Nat} (h : WithinTwoPow k code) (negative : Bool) :
    (ofCode negative code).isFinite = true := by
  have hmin : min code infinityCode ≤ code := Nat.min_le_left _ _
  exact decide_eq_true (Nat.lt_of_le_of_lt hmin h.finite)

/-- A power of two has a code of its own: its exponent over an empty fraction. -/
theorem units_nearestCode_twoPow (hk : k ≤ 1023) :
    nearestCode (twoPow k) 1 < infinityCode ∧ units (nearestCode (twoPow k) 1) = twoPow k * unitsPerOne := by
  have hunits : units ((1023 + k) * twoPow 52) = twoPow k * unitsPerOne := by
    rw [units]
    simp only [Nat.mul_div_cancel _ (twoPow_pos 52), Nat.mul_mod_left, Nat.add_zero]
    rw [if_neg (by omega), unitsPerOne, ← twoPow_add, ← twoPow_add]
    congr 1
    omega
  have hcode : (1023 + k) * twoPow 52 < infinityCode := by
    have hmul : (1023 + k) * twoPow 52 ≤ 2046 * twoPow 52 := Nat.mul_le_mul_right _ (by omega)
    exact Nat.lt_of_le_of_lt hmul (by decide)
  have hnearest : nearestCode (twoPow k) 1 = (1023 + k) * twoPow 52 :=
    nearestCode_of_units Nat.one_pos (Nat.le_of_lt hcode) (by rw [hunits, Nat.mul_one])
  rw [hnearest]
  exact ⟨hcode, hunits⟩

/-- Rounding keeps what is at most a power of two at most that power. -/
theorem withinTwoPow_nearestCode (hden : 0 < den) (h : num ≤ twoPow k * den) (hk : k ≤ 1023) :
    WithinTwoPow k (nearestCode num den) := by
  obtain ⟨hfinite, hunits⟩ := units_nearestCode_twoPow hk
  have hle : nearestCode num den ≤ nearestCode (twoPow k) 1 :=
    nearestCode_le_nearestCode hden Nat.one_pos (by rwa [Nat.mul_one])
  exact ⟨Nat.lt_of_le_of_lt hle hfinite, Nat.le_trans (units_mono hle) (Nat.le_of_eq hunits)⟩

theorem withinTwoPow_addCodes (ha : WithinTwoPow k a) (hb : WithinTwoPow k b) (hk : k + 1 ≤ 1023) :
    WithinTwoPow (k + 1) (addCodes a b) := by
  refine withinTwoPow_nearestCode unitsPerOne_pos ?_ hk
  calc units a + units b
      ≤ twoPow k * unitsPerOne + twoPow k * unitsPerOne := Nat.add_le_add ha.units_le hb.units_le
    _ = twoPow (k + 1) * unitsPerOne := by rw [twoPow_add, show twoPow 1 = 2 from rfl]; ring

theorem withinTwoPow_mulCodes (ha : WithinTwoPow j a) (hb : WithinTwoPow k b) (hjk : j + k ≤ 1023) :
    WithinTwoPow (j + k) (mulCodes a b) := by
  refine withinTwoPow_nearestCode (Nat.mul_pos unitsPerOne_pos unitsPerOne_pos) ?_ hjk
  calc units a * units b
      ≤ twoPow j * unitsPerOne * (twoPow k * unitsPerOne) := Nat.mul_le_mul ha.units_le hb.units_le
    _ = twoPow (j + k) * (unitsPerOne * unitsPerOne) := by rw [twoPow_add]; ring

/-- A quotient by one or more is no greater. -/
theorem withinTwoPow_divCodes (ha : WithinTwoPow k a) (hb : unitsPerOne ≤ units b) (hk : k ≤ 1023) :
    WithinTwoPow k (divCodes a b) := by
  refine withinTwoPow_nearestCode (Nat.lt_of_lt_of_le unitsPerOne_pos hb) ?_ hk
  exact Nat.le_trans ha.units_le (Nat.mul_le_mul_left _ hb)

theorem withinTwoPow_wholeCode (ha : WithinTwoPow k a) (hk : k ≤ 1023) : WithinTwoPow k (wholeCode a) := by
  refine withinTwoPow_nearestCode Nat.one_pos ?_ hk
  rw [Nat.mul_one, ← roundHalfUp_mul_self (twoPow k) unitsPerOne_pos]
  exact roundHalfUp_mono ha.units_le _

end Binary64

namespace Decimal96

open Binary64

/-- The magnitude of a decimal is far from infinity, and so is every magnitude on the way to it. -/
theorem withinTwoPow_magnitudeCode (d : Decimal96) : ∃ k, WithinTwoPow k d.magnitudeCode := by
  have hwhole : ∀ {n : Nat}, n ≤ d.coefficient.natAbs → WithinTwoPow 96 (nearestCode n 1) := fun hn =>
    withinTwoPow_nearestCode Nat.one_pos (by have := d.coefficient_lt; omega) (by decide)
  rw [magnitudeCode]
  dsimp only
  split
  · exact ⟨96, hwhole (Nat.le_refl _)⟩
  · have hscale : tenPow d.scale ≤ twoPow 94 * 1 :=
      Nat.le_trans (tenPow_le_tenPow d.scale_le) (by decide)
    have hunit : WithinTwoPow 94 (nearestCode (tenPow d.scale) 1) := withinTwoPow_nearestCode Nat.one_pos hscale (by decide)
    have hone : unitsPerOne ≤ units (nearestCode (tenPow d.scale) 1) := by
      have hle : nearestCode 1 1 ≤ nearestCode (tenPow d.scale) 1 :=
        nearestCode_le_nearestCode Nat.one_pos Nat.one_pos (Nat.mul_le_mul_right 1 (tenPow_pos d.scale))
      have hunits := units_mono hle
      rwa [units_nearestCode_whole (by decide), Nat.one_mul] at hunits
    split
    · exact ⟨96, hwhole (Nat.div_le_self _ _)⟩
    · have hpart := withinTwoPow_divCodes (hwhole (Nat.mod_le _ (tenPow d.scale))) hone (by decide)
      have hsum := withinTwoPow_addCodes (hwhole (Nat.div_le_self _ (tenPow d.scale))) hpart (by decide)
      have hshifted := withinTwoPow_wholeCode (withinTwoPow_mulCodes hsum hunit (by decide)) (by decide)
      exact ⟨_, withinTwoPow_divCodes hshifted hone (by decide)⟩

/-- A decimal is converted to a finite number. -/
theorem isFinite_toBinary64 (d : Decimal96) : d.toBinary64.isFinite = true := by
  obtain ⟨k, hcode⟩ := d.withinTwoPow_magnitudeCode
  exact hcode.isFinite _

end Decimal96

end SentenceQuery
