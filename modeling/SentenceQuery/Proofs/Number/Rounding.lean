import Mathlib.Tactic.Linarith
import Mathlib.Tactic.Ring
import SentenceQuery.Number.Rounding

/-!
# What rounding keeps

Rounding to binary64 is monotone (`nearestCode_le_nearestCode`), leaves every finite number as it is (`nearestCode_units`), and
is off by half a bit of the significand at most (`significand_bounds`). From these three follow which numbers stay finite and by how
much a rounded number may differ from the exact one; no later proof opens the definition again.
-/

namespace SentenceQuery

theorem twoPow_eq (n : Nat) : twoPow n = 2 ^ n := rfl

theorem tenPow_eq (n : Nat) : tenPow n = 10 ^ n := rfl

theorem twoPow_add (m n : Nat) : twoPow (m + n) = twoPow m * twoPow n := Nat.pow_add 2 m n

theorem tenPow_add (m n : Nat) : tenPow (m + n) = tenPow m * tenPow n := Nat.pow_add 10 m n

theorem twoPow_le_twoPow {m n : Nat} (h : m ≤ n) : twoPow m ≤ twoPow n := Nat.pow_le_pow_right (by decide) h

theorem tenPow_le_tenPow {m n : Nat} (h : m ≤ n) : tenPow m ≤ tenPow n := Nat.pow_le_pow_right (by decide) h

theorem tenPow_eq_mul (n : Nat) : tenPow n = Nat.pow 5 n * twoPow n := Nat.mul_pow 5 2 n

theorem twoPow_le_tenPow (n : Nat) : twoPow (3 * n) ≤ tenPow n :=
  calc twoPow (3 * n)
      = (2 ^ 3) ^ n := Nat.pow_mul 2 3 n
    _ ≤ tenPow n := Nat.pow_le_pow_left (by decide) n

theorem log2_mono {m n : Nat} (h : m ≤ n) : m.log2 ≤ n.log2 := by
  by_cases hm : m = 0
  · simp [hm]
  · exact (Nat.le_log2 (by omega)).2 (Nat.le_trans (Nat.log2_self_le hm) h)

/-! ## Rounding to a whole number -/

/-- A rounded quotient is off by a half at most. -/
theorem roundHalfEven_bounds (num : Nat) {den : Nat} (hden : 0 < den) :
    2 * (roundHalfEven num den * den) ≤ 2 * num + den ∧ 2 * num ≤ 2 * (roundHalfEven num den * den) + den := by
  have hmod : num % den < den := Nat.mod_lt _ hden
  have hdiv : num / den * den + num % den = num := Nat.div_add_mod' num den
  have hsucc : (num / den + 1) * den = num / den * den + den := Nat.succ_mul _ _
  unfold roundHalfEven
  dsimp only
  split
  · omega
  · split
    · omega
    · rcases Nat.mod_two_eq_zero_or_one (num / den) with heven | hodd
      · rw [heven, Nat.add_zero]
        omega
      · rw [hodd]
        omega

/-- A whole number is left as it is. -/
theorem roundHalfEven_mul_self (m : Nat) {den : Nat} (hden : 0 < den) : roundHalfEven (m * den) den = m := by
  simp [roundHalfEven, Nat.mul_div_cancel _ hden, hden]

theorem roundHalfEven_mul_left {k : Nat} (hk : 0 < k) (num den : Nat) :
    roundHalfEven (k * num) (k * den) = roundHalfEven num den := by
  have hscale : ∀ a b : Nat, 2 * (k * a) < k * b ↔ 2 * a < b := fun a b => by
    rw [Nat.mul_left_comm, Nat.mul_lt_mul_left hk]
  have hscale' : ∀ a b : Nat, k * b < 2 * (k * a) ↔ b < 2 * a := fun a b => by
    rw [Nat.mul_left_comm, Nat.mul_lt_mul_left hk]
  simp only [roundHalfEven, Nat.mul_div_mul_left _ _ hk, Nat.mul_mod_mul_left, hscale, hscale']

theorem div_le_roundHalfEven (num den : Nat) : num / den ≤ roundHalfEven num den := by
  unfold roundHalfEven
  dsimp only
  split
  · exact Nat.le_refl _
  · split
    · exact Nat.le_succ _
    · exact Nat.le_add_right _ _

theorem roundHalfEven_le_div_add_one (num den : Nat) : roundHalfEven num den ≤ num / den + 1 := by
  unfold roundHalfEven
  dsimp only
  split
  · exact Nat.le_succ _
  · split
    · exact Nat.le_refl _
    · have : num / den % 2 < 2 := Nat.mod_lt _ (by decide)
      omega

theorem roundHalfEven_mono {num num' : Nat} (h : num ≤ num') (den : Nat) :
    roundHalfEven num den ≤ roundHalfEven num' den := by
  have hdiv : num / den ≤ num' / den := Nat.div_le_div_right h
  rcases Nat.lt_or_ge (num / den) (num' / den) with hlt | hge
  · exact Nat.le_trans (roundHalfEven_le_div_add_one num den) (Nat.le_trans hlt (div_le_roundHalfEven num' den))
  · have hsame : num / den = num' / den := Nat.le_antisymm hdiv hge
    have hmod : num % den ≤ num' % den := by
      have hnum : den * (num / den) + num % den = num := Nat.div_add_mod num den
      have hnum' : den * (num' / den) + num' % den = num' := Nat.div_add_mod num' den
      rw [← hsame] at hnum'
      omega
    have hparity : num' / den % 2 < 2 := Nat.mod_lt _ (by decide)
    unfold roundHalfEven
    dsimp only
    rw [hsame]
    split
    · split
      · exact Nat.le_refl _
      · split <;> omega
    · split
      · rw [if_neg (by omega), if_pos (by omega)]
      · rw [if_neg (by omega)]
        split <;> omega

/-- A smaller fraction is not rounded to a larger number. -/
theorem roundHalfEven_le_roundHalfEven {num den num' den' : Nat} (hden : 0 < den) (hden' : 0 < den')
    (h : num * den' ≤ num' * den) : roundHalfEven num den ≤ roundHalfEven num' den' := by
  rw [← roundHalfEven_mul_left hden' num den, ← roundHalfEven_mul_left hden num' den', Nat.mul_comm den' den]
  exact roundHalfEven_mono (by rwa [Nat.mul_comm, Nat.mul_comm den]) _

/-- Only the value of a fraction counts. -/
theorem roundHalfEven_congr {num den num' den' : Nat} (hden : 0 < den) (hden' : 0 < den') (h : num * den' = num' * den) :
    roundHalfEven num den = roundHalfEven num' den' :=
  Nat.le_antisymm (roundHalfEven_le_roundHalfEven hden hden' (Nat.le_of_eq h))
    (roundHalfEven_le_roundHalfEven hden' hden (Nat.le_of_eq h.symm))

/-- The whole number that a fraction is rounded to is the nearest, and of two the greater. -/
theorem roundHalfUp_eq_iff {num den : Nat} (hden : 0 < den) (m : Nat) :
    roundHalfUp num den = m ↔ 2 * (m * den) ≤ 2 * num + den ∧ 2 * num + den < 2 * (m * den) + 2 * den := by
  rw [roundHalfUp, Nat.div_eq_iff (by omega), Nat.mul_left_comm m 2 den]
  omega

theorem roundHalfUp_mul_self (m : Nat) {den : Nat} (hden : 0 < den) : roundHalfUp (m * den) den = m :=
  (roundHalfUp_eq_iff hden m).2 ⟨by omega, by omega⟩

theorem roundHalfUp_mul_right (num den : Nat) {k : Nat} (hk : 0 < k) : roundHalfUp (num * k) (den * k) = roundHalfUp num den := by
  rw [roundHalfUp, roundHalfUp, ← Nat.mul_assoc, ← Nat.mul_assoc, ← Nat.add_mul, Nat.mul_div_mul_right _ _ hk]

theorem roundHalfUp_mono {num num' : Nat} (h : num ≤ num') (den : Nat) : roundHalfUp num den ≤ roundHalfUp num' den :=
  Nat.div_le_div_right (by omega)

theorem roundHalfUp_le_self (num : Nat) {den : Nat} (hden : 0 < den) : roundHalfUp num den ≤ num := by
  have hnum : num ≤ num * den := Nat.le_mul_of_pos_right _ hden
  exact Nat.le_trans (roundHalfUp_mono hnum den) (Nat.le_of_eq (roundHalfUp_mul_self num hden))

/-! ## Rounding to binary64 -/

namespace Binary64

/-- The number of low bits that a fraction loses when it is rounded. -/
def shift (num den : Nat) : Nat := (num * unitsPerOne / den).log2 - 52

/-- The significand that a fraction is rounded to. -/
def significand (num den : Nat) : Nat := roundHalfEven (num * unitsPerOne) (den * twoPow (shift num den))

theorem nearestCode_eq (num den : Nat) :
    nearestCode num den = min infinityCode (shift num den * twoPow 52 + significand num den) := rfl

theorem unitsPerOne_pos : 0 < unitsPerOne := twoPow_pos _

variable {num den : Nat}

theorem nearestCode_le_infinityCode : nearestCode num den ≤ infinityCode := Nat.min_le_left _ _

/-- A significand is off by a half at most. -/
theorem significand_bounds (num : Nat) (hden : 0 < den) :
    2 * (significand num den * (den * twoPow (shift num den))) ≤ 2 * (num * unitsPerOne) + den * twoPow (shift num den) ∧
      2 * (num * unitsPerOne) ≤
        2 * (significand num den * (den * twoPow (shift num den))) + den * twoPow (shift num den) :=
  roundHalfEven_bounds _ (Nat.mul_pos hden (twoPow_pos _))

/-- At most 53 bits are left beyond those that are lost. -/
theorem lt_of_shift (num : Nat) (hden : 0 < den) : num * unitsPerOne < twoPow 53 * (den * twoPow (shift num den)) := by
  have hlog : num * unitsPerOne / den < 2 ^ ((num * unitsPerOne / den).log2 + 1) := Nat.lt_log2_self
  have hle : 2 ^ ((num * unitsPerOne / den).log2 + 1) ≤ 2 ^ (53 + shift num den) :=
    Nat.pow_le_pow_right (by decide) (by unfold shift; omega)
  rw [Nat.mul_left_comm, ← twoPow_add, twoPow_eq, Nat.mul_comm den]
  exact (Nat.div_lt_iff_lt_mul hden).1 (Nat.lt_of_lt_of_le hlog hle)

/-- Where bits are lost, the 53 that are left start with one. -/
theorem le_of_shift_pos (hden : 0 < den) (h : 0 < shift num den) :
    twoPow 52 * (den * twoPow (shift num den)) ≤ num * unitsPerOne := by
  have hlog : (num * unitsPerOne / den).log2 = 52 + shift num den := by
    unfold shift at *
    omega
  have hne : num * unitsPerOne / den ≠ 0 := by
    intro hzero
    rw [hzero] at hlog
    simp only [Nat.log2_zero] at hlog
    omega
  have hle : 2 ^ (52 + shift num den) ≤ num * unitsPerOne / den := hlog ▸ Nat.log2_self_le hne
  rw [Nat.mul_left_comm, ← twoPow_add, twoPow_eq, Nat.mul_comm den]
  exact (Nat.le_div_iff_mul_le hden).1 hle

theorem significand_le (num : Nat) (hden : 0 < den) : significand num den ≤ twoPow 53 := by
  have hpos : 0 < den * twoPow (shift num den) := Nat.mul_pos hden (twoPow_pos _)
  rw [significand, ← roundHalfEven_mul_self (twoPow 53) hpos]
  exact roundHalfEven_mono (Nat.le_of_lt (lt_of_shift num hden)) _

theorem le_significand (hden : 0 < den) (h : 0 < shift num den) : twoPow 52 ≤ significand num den := by
  have hpos : 0 < den * twoPow (shift num den) := Nat.mul_pos hden (twoPow_pos _)
  rw [significand, ← roundHalfEven_mul_self (twoPow 52) hpos]
  exact roundHalfEven_mono (le_of_shift_pos hden h) _

/-! ### Order -/

theorem shift_mono {num' den' : Nat} (hden : 0 < den) (hden' : 0 < den') (h : num * den' ≤ num' * den) :
    shift num den ≤ shift num' den' := by
  have hdiv : num * unitsPerOne / den ≤ num' * unitsPerOne / den' := by
    rw [Nat.le_div_iff_mul_le hden']
    refine Nat.le_of_mul_le_mul_right ?_ hden
    calc num * unitsPerOne / den * den' * den
        = num * unitsPerOne / den * den * den' := Nat.mul_right_comm _ _ _
      _ ≤ num * unitsPerOne * den' := Nat.mul_le_mul_right _ (Nat.div_mul_le_self _ _)
      _ = num * den' * unitsPerOne := Nat.mul_right_comm _ _ _
      _ ≤ num' * den * unitsPerOne := Nat.mul_le_mul_right _ h
      _ = num' * unitsPerOne * den := Nat.mul_right_comm _ _ _
  have := log2_mono hdiv
  unfold shift
  omega

/-- A smaller fraction is not rounded to a larger number. -/
theorem nearestCode_le_nearestCode {num' den' : Nat} (hden : 0 < den) (hden' : 0 < den') (h : num * den' ≤ num' * den) :
    nearestCode num den ≤ nearestCode num' den' := by
  have hshift := shift_mono hden hden' h
  rw [nearestCode_eq, nearestCode_eq]
  refine min_le_min (Nat.le_refl _) ?_
  rcases Nat.lt_or_eq_of_le hshift with hlt | heq
  · -- the larger fraction has its leading bit at 2^52, and the smaller carries to there at most
    have hs := significand_le num hden
    have hs' : twoPow 52 ≤ significand num' den' := le_significand hden' (by omega)
    have htwo : twoPow 53 = 2 * twoPow 52 := rfl
    have hstep : (shift num den + 1) * twoPow 52 ≤ shift num' den' * twoPow 52 := Nat.mul_le_mul_right _ hlt
    rw [Nat.succ_mul] at hstep
    omega
  · rw [heq]
    refine Nat.add_le_add_left ?_ _
    rw [significand, significand, heq]
    refine roundHalfEven_le_roundHalfEven (Nat.mul_pos hden (twoPow_pos _)) (Nat.mul_pos hden' (twoPow_pos _)) ?_
    calc num * unitsPerOne * (den' * twoPow (shift num' den'))
        = num * den' * (unitsPerOne * twoPow (shift num' den')) := by ring
      _ ≤ num' * den * (unitsPerOne * twoPow (shift num' den')) := Nat.mul_le_mul_right _ h
      _ = num' * unitsPerOne * (den * twoPow (shift num' den')) := by ring

/-- Only the value of a fraction counts. -/
theorem nearestCode_congr {num' den' : Nat} (hden : 0 < den) (hden' : 0 < den') (h : num * den' = num' * den) :
    nearestCode num den = nearestCode num' den' :=
  Nat.le_antisymm (nearestCode_le_nearestCode hden hden' (Nat.le_of_eq h))
    (nearestCode_le_nearestCode hden' hden (Nat.le_of_eq h.symm))

/-! ### Numbers that are already binary64 -/

/-- The magnitude of a code that is put together from a shift and a significand. -/
theorem units_join {e s : Nat} (hs : s ≤ twoPow 53) (h : 0 < e → twoPow 52 ≤ s) :
    units (e * twoPow 52 + s) = s * twoPow e := by
  have htwo : twoPow 53 = 2 * twoPow 52 := rfl
  have hpos : 0 < twoPow 52 := twoPow_pos 52
  rcases Nat.lt_or_ge s (twoPow 52) with hsmall | hlarge
  · have he : e = 0 := Nat.eq_zero_of_not_pos fun he => absurd (h he) (by omega)
    subst he
    simp [units, Nat.div_eq_of_lt hsmall, twoPow_eq 0]
  · obtain ⟨r, rfl⟩ := Nat.exists_eq_add_of_le hlarge
    rcases Nat.lt_or_ge r (twoPow 52) with hr | hr
    · have hdiv : (e * twoPow 52 + (twoPow 52 + r)) / twoPow 52 = e + 1 := by
        rw [show e * twoPow 52 + (twoPow 52 + r) = r + (e + 1) * twoPow 52 by ring, Nat.add_mul_div_right _ _ hpos,
          Nat.div_eq_of_lt hr, Nat.zero_add]
      have hmod : (e * twoPow 52 + (twoPow 52 + r)) % twoPow 52 = r := by
        rw [show e * twoPow 52 + (twoPow 52 + r) = r + (e + 1) * twoPow 52 by ring, Nat.add_mul_mod_self_right,
          Nat.mod_eq_of_lt hr]
      simp [units, hdiv, hmod]
    · -- the significand has carried: twice the leading bit, and no fraction
      obtain rfl : r = twoPow 52 := by omega
      have hdiv : (e * twoPow 52 + (twoPow 52 + twoPow 52)) / twoPow 52 = e + 2 := by
        rw [show e * twoPow 52 + (twoPow 52 + twoPow 52) = (e + 2) * twoPow 52 by ring, Nat.mul_div_cancel _ hpos]
      have hmod : (e * twoPow 52 + (twoPow 52 + twoPow 52)) % twoPow 52 = 0 := by
        rw [show e * twoPow 52 + (twoPow 52 + twoPow 52) = (e + 2) * twoPow 52 by ring, Nat.mul_mod_left]
      simp only [units, hdiv, hmod, Nat.add_zero]
      rw [if_neg (by omega), show e + 2 - 1 = 1 + e by omega, twoPow_add]
      rw [show twoPow 1 = 2 by rfl]
      ring

/-- A code is put together from a shift and a significand. -/
theorem exists_join (code : Nat) :
    ∃ e s, code = e * twoPow 52 + s ∧ s < twoPow 53 ∧ (0 < e → twoPow 52 ≤ s) := by
  have htwo : twoPow 53 = 2 * twoPow 52 := rfl
  have hpos : 0 < twoPow 52 := twoPow_pos 52
  have hmod : code % twoPow 52 < twoPow 52 := Nat.mod_lt _ hpos
  have hdiv : code / twoPow 52 * twoPow 52 + code % twoPow 52 = code := Nat.div_add_mod' _ _
  cases hexp : code / twoPow 52 with
  | zero =>
    rw [hexp] at hdiv
    exact ⟨0, code % twoPow 52, by omega, by omega, fun h => absurd h (by decide)⟩
  | succ e =>
    rw [hexp, Nat.succ_mul] at hdiv
    exact ⟨e, twoPow 52 + code % twoPow 52, by omega, by omega, fun _ => by omega⟩

/-- A finite number is rounded to itself. -/
theorem nearestCode_units {code : Nat} (h : code ≤ infinityCode) : nearestCode (units code) unitsPerOne = code := by
  obtain ⟨e, s, rfl, hs, he⟩ := exists_join code
  have hunits := units_join (Nat.le_of_lt hs) he
  have htwo : twoPow 53 = 2 ^ 53 := rfl
  have hshift : shift (s * twoPow e) unitsPerOne = e := by
    rw [shift, Nat.mul_div_cancel _ unitsPerOne_pos]
    rcases Nat.eq_zero_or_pos e with rfl | hpos
    · rw [twoPow_eq 0, Nat.pow_zero, Nat.mul_one]
      rcases Nat.eq_zero_or_pos s with rfl | hspos
      · decide
      · have := (Nat.log2_lt (k := 53) (by omega)).2 hs
        omega
    · have hs' : 2 ^ 52 ≤ s := he hpos
      have hlog : (s * twoPow e).log2 = 52 + e := by
        rw [twoPow_eq, Nat.log2_eq_iff (Nat.mul_ne_zero (by omega) (by positivity)), Nat.pow_add,
          show 52 + e + 1 = 53 + e by omega, Nat.pow_add]
        exact ⟨Nat.mul_le_mul_right _ hs', Nat.mul_lt_mul_of_pos_right hs (by positivity)⟩
      omega
  rw [hunits, nearestCode_eq, significand, hshift, Nat.mul_assoc, Nat.mul_comm (twoPow e),
    roundHalfEven_mul_self _ (Nat.mul_pos unitsPerOne_pos (twoPow_pos e))]
  exact Nat.min_eq_right h

/-- A fraction that is the magnitude of a finite number is rounded to it. -/
theorem nearestCode_of_units {code : Nat} (hden : 0 < den) (hcode : code ≤ infinityCode)
    (h : num * unitsPerOne = units code * den) : nearestCode num den = code :=
  (nearestCode_congr hden unitsPerOne_pos h).trans (nearestCode_units hcode)

theorem nearestCode_zero (hden : 0 < den) : nearestCode 0 den = 0 := by
  have hzero : units 0 = 0 := rfl
  exact nearestCode_of_units hden (Nat.zero_le _) (by rw [hzero, Nat.zero_mul, Nat.zero_mul])

theorem units_mono {a b : Nat} (h : a ≤ b) : units a ≤ units b := by
  obtain ⟨e, s, rfl, hs, he⟩ := exists_join a
  obtain ⟨e', s', rfl, hs', he'⟩ := exists_join b
  rw [units_join (Nat.le_of_lt hs) he, units_join (Nat.le_of_lt hs') he']
  have htwo : twoPow 53 = 2 * twoPow 52 := rfl
  have hee : e ≤ e' := by
    by_contra hlt
    have hstep : (e' + 1) * twoPow 52 ≤ e * twoPow 52 := Nat.mul_le_mul_right _ (by omega)
    have hlarge := he (by omega)
    rw [Nat.succ_mul] at hstep
    omega
  rcases Nat.lt_or_eq_of_le hee with hlt | rfl
  · calc s * twoPow e
        ≤ twoPow 53 * twoPow e := Nat.mul_le_mul_right _ (Nat.le_of_lt hs)
      _ = twoPow 52 * twoPow (e + 1) := by rw [twoPow_add e 1, htwo, show twoPow 1 = 2 from rfl]; ring
      _ ≤ s' * twoPow (e + 1) := Nat.mul_le_mul_right _ (he' (by omega))
      _ ≤ s' * twoPow e' := Nat.mul_le_mul_left _ (twoPow_le_twoPow hlt)
  · exact Nat.mul_le_mul_right _ (by omega)

/-- A rounded number that is not too large has the magnitude of its significand. -/
theorem units_nearestCode (hden : 0 < den) (h : nearestCode num den < infinityCode) :
    units (nearestCode num den) = significand num den * twoPow (shift num den) := by
  have hmin : nearestCode num den = shift num den * twoPow 52 + significand num den := by
    rw [nearestCode_eq] at h ⊢
    omega
  rw [hmin, units_join (significand_le num hden) (le_significand hden)]

/-! ### What stays finite -/

/-- The least number that is rounded to infinity has 54 bits, all of them set. -/
theorem overflowBound_eq : twoPow 1024 - twoPow 970 = (twoPow 54 - 1) * twoPow 970 := by
  rw [show 1024 = 54 + 970 from rfl, twoPow_add, Nat.sub_one_mul]

/-- The least number that is rounded to infinity, in units: halfway from the largest finite number to 2^1024. -/
def overflowUnits : Nat := (twoPow 1024 - twoPow 970) * unitsPerOne

theorem two_mul_overflowUnits : 2 * overflowUnits = (twoPow 54 - 1) * twoPow 2045 :=
  calc 2 * overflowUnits
      = (twoPow 54 - 1) * (twoPow 970 * twoPow 1074 * twoPow 1) := by
        rw [overflowUnits, overflowBound_eq, unitsPerOne, show twoPow 1 = 2 from rfl]
        ring
    _ = (twoPow 54 - 1) * twoPow 2045 := by rw [← twoPow_add, ← twoPow_add]

theorem overflowUnits_le : overflowUnits ≤ twoPow 52 * twoPow 2046 :=
  calc overflowUnits
      ≤ twoPow 1024 * twoPow 1074 := by
        rw [overflowUnits, unitsPerOne]
        exact Nat.mul_le_mul_right _ (Nat.sub_le _ _)
    _ = twoPow 52 * twoPow 2046 := by rw [← twoPow_add, ← twoPow_add]

/-- A number below the overflow bound loses at most 2045 bits, and if it loses that many its significand does not carry. -/
theorem shift_le_of_lt_overflowUnits (hden : 0 < den) (h : num * unitsPerOne < den * overflowUnits) :
    shift num den ≤ 2045 ∧ (shift num den = 2045 → significand num den < twoPow 53) := by
  constructor
  · by_contra hlarge
    have hpow : twoPow 2046 ≤ twoPow (shift num den) := twoPow_le_twoPow (by omega)
    have hle : den * overflowUnits ≤ num * unitsPerOne :=
      calc den * overflowUnits
          ≤ den * (twoPow 52 * twoPow 2046) := Nat.mul_le_mul_left _ overflowUnits_le
        _ = twoPow 52 * (den * twoPow 2046) := Nat.mul_left_comm _ _ _
        _ ≤ twoPow 52 * (den * twoPow (shift num den)) := Nat.mul_le_mul_left _ (Nat.mul_le_mul_left _ hpow)
        _ ≤ num * unitsPerOne := le_of_shift_pos hden (by omega)
    omega
  · intro heq
    have hbounds := (significand_bounds num hden).1
    rw [heq] at hbounds
    refine Nat.lt_of_le_of_ne (significand_le num hden) fun hcarry => ?_
    rw [hcarry] at hbounds
    have hdouble : 2 * (den * overflowUnits) = (twoPow 54 - 1) * (den * twoPow 2045) := by
      rw [Nat.mul_left_comm, two_mul_overflowUnits, Nat.mul_left_comm]
    have hsplit : (twoPow 54 - 1) * (den * twoPow 2045) + den * twoPow 2045 = 2 * (twoPow 53 * (den * twoPow 2045)) := by
      rw [show twoPow 54 - 1 = 2 * twoPow 53 - 1 from rfl, ← Nat.mul_assoc 2, Nat.sub_one_mul]
      exact Nat.sub_add_cancel (Nat.le_mul_of_pos_left _ (by decide))
    have hpos : 0 < den * twoPow 2045 := Nat.mul_pos hden (twoPow_pos _)
    generalize den * twoPow 2045 = ulp at *
    omega

/-- Rounding stays below infinity just for the numbers below 2^1024 - 2^970. -/
theorem nearestCode_lt_infinityCode_iff (num : Nat) (hden : 0 < den) :
    nearestCode num den < infinityCode ↔ num < den * (twoPow 1024 - twoPow 970) := by
  constructor
  · intro h
    by_contra hge
    have hmono : nearestCode (twoPow 1024 - twoPow 970) 1 ≤ nearestCode num den :=
      nearestCode_le_nearestCode Nat.one_pos hden (by rw [Nat.mul_comm, Nat.mul_one]; omega)
    have hinfinity : nearestCode (twoPow 1024 - twoPow 970) 1 = infinityCode := by decide +kernel
    omega
  · intro h
    have hscaled : num * unitsPerOne < den * overflowUnits := by
      rw [overflowUnits, ← Nat.mul_assoc]
      exact Nat.mul_lt_mul_of_pos_right h unitsPerOne_pos
    obtain ⟨hshift, hcarry⟩ := shift_le_of_lt_overflowUnits hden hscaled
    have hs := significand_le num hden
    have hinfinity : infinityCode = 2045 * twoPow 52 + twoPow 53 := by decide
    have htwo : twoPow 53 = 2 * twoPow 52 := rfl
    have hpos : 0 < twoPow 52 := twoPow_pos 52
    rw [nearestCode_eq]
    refine Nat.lt_of_le_of_lt (Nat.min_le_right _ _) ?_
    rcases Nat.lt_or_eq_of_le hshift with hlt | heq
    · have hstep : (shift num den + 1) * twoPow 52 ≤ 2045 * twoPow 52 := Nat.mul_le_mul_right _ hlt
      rw [Nat.succ_mul] at hstep
      omega
    · have hsmall := hcarry heq
      rw [heq]
      omega

/-! ### What rounding adds -/

/-- A fraction below a power of two loses no more bits than it. -/
theorem shift_le {k : Nat} (hden : 0 < den) (h : num < twoPow k * den) : shift num den ≤ 1021 + k := by
  have hscaled : num * unitsPerOne / den < twoPow (k + 1074) := by
    rw [Nat.div_lt_iff_lt_mul hden, twoPow_add, Nat.mul_right_comm]
    exact Nat.mul_lt_mul_of_pos_right h unitsPerOne_pos
  by_cases hzero : num * unitsPerOne / den = 0
  · simp [shift, hzero]
  · have hlog := (Nat.log2_lt hzero).2 hscaled
    unfold shift
    omega

/-- A number below a power of two stays finite, and is off by half a bit of the significand at most. -/
theorem units_nearestCode_bounds {k : Nat} (hden : 0 < den) (h : num < twoPow k * den) (hk : k ≤ 1023) :
    2 * (units (nearestCode num den) * den) ≤ 2 * (num * unitsPerOne) + den * twoPow (1021 + k) ∧
      2 * (num * unitsPerOne) ≤ 2 * (units (nearestCode num den) * den) + den * twoPow (1021 + k) := by
  have hfinite : nearestCode num den < infinityCode := by
    rw [nearestCode_lt_infinityCode_iff num hden, Nat.mul_comm den]
    refine Nat.lt_of_lt_of_le h (Nat.mul_le_mul_right _ ?_)
    exact Nat.le_trans (twoPow_le_twoPow hk) (by decide +kernel)
  have hulp : den * twoPow (shift num den) ≤ den * twoPow (1021 + k) :=
    Nat.mul_le_mul_left _ (twoPow_le_twoPow (shift_le hden h))
  have hbounds := significand_bounds num hden
  rw [units_nearestCode hden hfinite, Nat.mul_assoc, Nat.mul_comm (twoPow _) den]
  omega

/-- A whole number of 53 bits is left as it is. -/
theorem units_nearestCode_whole {n : Nat} (h : n < twoPow 53) : units (nearestCode n 1) = n * unitsPerOne := by
  have hbelow : n < twoPow 53 * 1 := by rwa [Nat.mul_one]
  have hshift : shift n 1 ≤ 1074 := shift_le Nat.one_pos hbelow
  have hsplit : n * unitsPerOne = n * twoPow (1074 - shift n 1) * (1 * twoPow (shift n 1)) := by
    rw [Nat.one_mul, Nat.mul_assoc, ← twoPow_add, Nat.sub_add_cancel hshift, unitsPerOne]
  have hfinite : nearestCode n 1 < infinityCode := by
    rw [nearestCode_lt_infinityCode_iff n Nat.one_pos]
    exact Nat.lt_of_lt_of_le h (by decide +kernel)
  rw [units_nearestCode Nat.one_pos hfinite, significand, hsplit, roundHalfEven_mul_self _ (by simp [twoPow_pos])]
  rw [Nat.one_mul]

/-- A number of units is off by half a bit of the significand at most. -/
theorem units_nearestCode_unitsPerOne {u k : Nat} (h : u < twoPow k * unitsPerOne) (hk : k ≤ 1023) :
    2 * units (nearestCode u unitsPerOne) ≤ 2 * u + twoPow (1021 + k) ∧
      2 * u ≤ 2 * units (nearestCode u unitsPerOne) + twoPow (1021 + k) := by
  obtain ⟨hle, hge⟩ := units_nearestCode_bounds unitsPerOne_pos h hk
  constructor
  · refine Nat.le_of_mul_le_mul_right (c := unitsPerOne) ?_ unitsPerOne_pos
    linarith
  · refine Nat.le_of_mul_le_mul_right (c := unitsPerOne) ?_ unitsPerOne_pos
    linarith

theorem divCodes_of_whole {a b m n : Nat} (ha : units a = m * unitsPerOne) (hb : units b = n * unitsPerOne) (hn : 0 < n) :
    divCodes a b = nearestCode m n := by
  rw [divCodes, ha, hb]
  exact nearestCode_congr (Nat.mul_pos hn unitsPerOne_pos) hn (by ring)

theorem mulCodes_of_whole {a b n : Nat} (hb : units b = n * unitsPerOne) :
    mulCodes a b = nearestCode (units a * n) unitsPerOne := by
  rw [mulCodes, hb]
  exact nearestCode_congr (Nat.mul_pos unitsPerOne_pos unitsPerOne_pos) unitsPerOne_pos (by ring)

/-- One, in units, is 2^53 times the last bit of the numbers between a half and one. -/
theorem unitsPerOne_eq : unitsPerOne = 9007199254740992 * twoPow 1021 := by
  rw [unitsPerOne, show 1074 = 53 + 1021 from rfl, twoPow_add, show twoPow 53 = 9007199254740992 from rfl]

/-- A whole number grows by a 2^53rd of itself at most when it is rounded. -/
theorem units_nearestCode_le {n : Nat} (h : nearestCode n 1 < infinityCode) :
    units (nearestCode n 1) * twoPow 53 ≤ n * unitsPerOne * (twoPow 53 + 1) := by
  rcases Nat.eq_zero_or_pos n with rfl | hn
  · have hzero : units 0 = 0 := rfl
    rw [nearestCode_zero Nat.one_pos, hzero, Nat.zero_mul]
    exact Nat.zero_le _
  · have hlarge : unitsPerOne ≤ n * unitsPerOne := Nat.le_mul_of_pos_left _ hn
    have hshift : 0 < shift n 1 := by
      have hlog := log2_mono hlarge
      have hone : unitsPerOne.log2 = 1074 := by rw [unitsPerOne, twoPow_eq, Nat.log2_two_pow]
      rw [shift, Nat.div_one]
      omega
    have hlead := le_of_shift_pos Nat.one_pos hshift
    have hbounds := (significand_bounds n Nat.one_pos).1
    rw [units_nearestCode Nat.one_pos h]
    rw [Nat.one_mul] at hlead hbounds
    have htwo : twoPow 53 = 2 * twoPow 52 := rfl
    generalize significand n 1 * twoPow (shift n 1) = rounded at *
    generalize n * unitsPerOne = exact at *
    generalize twoPow (shift n 1) = ulp at *
    generalize twoPow 52 = half at *
    rw [htwo]
    nlinarith

end Binary64

end SentenceQuery
