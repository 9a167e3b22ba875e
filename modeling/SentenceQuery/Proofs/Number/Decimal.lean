import SentenceQuery.Number.Shortest
import SentenceQuery.Proofs.Number.Rounding

/-!
# Decimals and the numbers they are rounded to

The number that a decimal is rounded to depends on its value only (`nearestCode_eq`, `DecimalForm.nearestCode_congr`), and the
shortest decimal of a finite number is rounded to that number again (`nearestCode_shortest`).
-/

namespace SentenceQuery

namespace DecimalForm

/-- The value of a decimal as a fraction: its numerator. -/
def num (d : DecimalForm) : Nat := d.coefficient * tenPow d.exponent.toNat

/-- The value of a decimal as a fraction: its denominator. -/
def den (d : DecimalForm) : Nat := tenPow (-d.exponent).toNat

theorem den_pos (d : DecimalForm) : 0 < d.den := tenPow_pos _

/-- The value of a decimal is at most that of another. -/
def AtMost (d d' : DecimalForm) : Prop := d.num * d'.den ≤ d'.num * d.den

/-- Two decimals have one value. -/
def Equal (d d' : DecimalForm) : Prop := d.num * d'.den = d'.num * d.den

variable {d d' : DecimalForm}

theorem Equal.symm (h : d.Equal d') : d'.Equal d := Eq.symm h

theorem equal_iff : d.Equal d' ↔ d.AtMost d' ∧ d'.AtMost d := Nat.le_antisymm_iff

/-- The value of a decimal, counted in units of `10^-k`. -/
def scaled (d : DecimalForm) (k : Nat) : Nat := d.coefficient * tenPow (d.exponent + k).toNat

theorem num_mul_tenPow {k : Nat} (h : 0 ≤ d.exponent + k) : d.num * tenPow k = d.scaled k * d.den := by
  rw [num, scaled, den, Nat.mul_assoc, Nat.mul_assoc, ← tenPow_add, ← tenPow_add]
  congr 2
  omega

/-- Two decimals are compared in units that both are multiples of. -/
theorem atMost_of_scaled {k : Nat} (h : 0 ≤ d.exponent + k) (h' : 0 ≤ d'.exponent + k) (hle : d.scaled k ≤ d'.scaled k) :
    d.AtMost d' := by
  refine Nat.le_of_mul_le_mul_right ?_ (tenPow_pos k)
  calc d.num * d'.den * tenPow k
      = d.num * tenPow k * d'.den := Nat.mul_right_comm _ _ _
    _ = d.scaled k * d.den * d'.den := by rw [num_mul_tenPow h]
    _ ≤ d'.scaled k * d.den * d'.den := Nat.mul_le_mul_right _ (Nat.mul_le_mul_right _ hle)
    _ = d'.scaled k * d'.den * d.den := Nat.mul_right_comm _ _ _
    _ = d'.num * tenPow k * d.den := by rw [num_mul_tenPow h']
    _ = d'.num * d.den * tenPow k := Nat.mul_right_comm _ _ _

theorem equal_of_scaled {k : Nat} (h : 0 ≤ d.exponent + k) (h' : 0 ≤ d'.exponent + k) (heq : d.scaled k = d'.scaled k) :
    d.Equal d' :=
  equal_iff.2 ⟨atMost_of_scaled h h' (Nat.le_of_eq heq), atMost_of_scaled h' h (Nat.le_of_eq heq.symm)⟩

theorem AtMost.trans {d'' : DecimalForm} (h : d.AtMost d') (h' : d'.AtMost d'') : d.AtMost d'' := by
  refine Nat.le_of_mul_le_mul_right ?_ d'.den_pos
  calc d.num * d''.den * d'.den
      = d.num * d'.den * d''.den := Nat.mul_right_comm _ _ _
    _ ≤ d'.num * d.den * d''.den := Nat.mul_le_mul_right _ h
    _ = d'.num * d''.den * d.den := Nat.mul_right_comm _ _ _
    _ ≤ d''.num * d'.den * d.den := Nat.mul_le_mul_right _ h'
    _ = d''.num * d.den * d'.den := Nat.mul_right_comm _ _ _

theorem Equal.trans {d'' : DecimalForm} (h : d.Equal d') (h' : d'.Equal d'') : d.Equal d'' :=
  equal_iff.2 ⟨(equal_iff.1 h).1.trans (equal_iff.1 h').1, (equal_iff.1 h').2.trans (equal_iff.1 h).2⟩

theorem Equal.refl (d : DecimalForm) : d.Equal d := rfl

/-! ## Rounding depends on the value -/

/-- A fraction below half the least positive number is rounded to zero. -/
theorem nearestCode_eq_zero {num den : Nat} (hden : 0 < den) (h : num * twoPow 1075 ≤ den) :
    Binary64.nearestCode num den = 0 := by
  have hzero : Binary64.nearestCode 1 (twoPow 1075) = 0 := by decide +kernel
  rw [← Nat.le_zero, ← hzero]
  exact Binary64.nearestCode_le_nearestCode hden (twoPow_pos _) (Nat.le_trans h (Nat.le_of_eq (Nat.one_mul den).symm))

/-- The exponents that are settled without computing the power are settled right. -/
theorem nearestCode_eq (d : DecimalForm) : d.nearestCode = Binary64.nearestCode d.num d.den := by
  obtain ⟨c, e⟩ := d
  unfold nearestCode
  dsimp only
  split
  · rename_i hzero
    rw [num, hzero, Nat.zero_mul, Binary64.nearestCode_zero (den_pos _)]
  · rename_i hne
    split
    · rename_i k
      have hden : den ⟨c, Int.ofNat k⟩ = 1 := by simp [den, tenPow_eq]
      have hnum : num ⟨c, Int.ofNat k⟩ = c * tenPow k := rfl
      rw [hden, hnum]
      split
      · rename_i hlarge
        have hpow : tenPow 400 ≤ tenPow k := tenPow_le_tenPow (Nat.le_of_lt hlarge)
        have hone : tenPow k ≤ c * tenPow k := Nat.le_mul_of_pos_left _ (Nat.pos_of_ne_zero hne)
        have hbound : twoPow 1024 ≤ tenPow 400 := Nat.le_trans (twoPow_le_twoPow (by decide)) (twoPow_le_tenPow 400)
        have hnot : ¬Binary64.nearestCode (c * tenPow k) 1 < Binary64.infinityCode := by
          rw [Binary64.nearestCode_lt_infinityCode_iff _ Nat.one_pos, Nat.one_mul]
          omega
        have hle : Binary64.nearestCode (c * tenPow k) 1 ≤ Binary64.infinityCode := Binary64.nearestCode_le_infinityCode
        omega
      · rfl
    · rename_i k
      have hden : den ⟨c, Int.negSucc k⟩ = tenPow (k + 1) := rfl
      have hnum : num ⟨c, Int.negSucc k⟩ = c := by simp [num, tenPow_eq]
      rw [hden, hnum]
      split
      · rename_i hsmall
        refine (nearestCode_eq_zero (tenPow_pos _) ?_).symm
        calc c * twoPow 1075
            ≤ 2 ^ (c.log2 + 1) * twoPow 1075 := Nat.mul_le_mul_right _ (Nat.le_of_lt Nat.lt_log2_self)
          _ = twoPow (c.log2 + 1 + 1075) := (twoPow_add _ _).symm
          _ ≤ twoPow (3 * (k + 1)) := twoPow_le_twoPow (by omega)
          _ ≤ tenPow (k + 1) := twoPow_le_tenPow _
      · rfl

theorem nearestCode_le_of_atMost (h : d.AtMost d') : d.nearestCode ≤ d'.nearestCode := by
  rw [nearestCode_eq, nearestCode_eq]
  exact Binary64.nearestCode_le_nearestCode d.den_pos d'.den_pos h

theorem nearestCode_congr (h : d.Equal d') : d.nearestCode = d'.nearestCode := by
  rw [nearestCode_eq, nearestCode_eq]
  exact Binary64.nearestCode_congr d.den_pos d'.den_pos h

/-! ## The shortest decimal -/

theorem equal_stripZeros (fuel : Nat) (d : DecimalForm) : (Shortest.stripZeros fuel d).Equal d := by
  induction fuel generalizing d with
  | zero => exact Equal.refl d
  | succ fuel ih =>
    rw [Shortest.stripZeros]
    split
    · rename_i hzero
      refine (ih _).trans (equal_of_scaled (k := d.exponent.natAbs) ?_ ?_ ?_)
      · dsimp only
        omega
      · omega
      · have hexponent : (d.exponent + 1 + d.exponent.natAbs).toNat = 1 + (d.exponent + d.exponent.natAbs).toNat := by omega
        have hten : d.coefficient / 10 * 10 = d.coefficient := Nat.div_mul_cancel (Nat.dvd_of_mod_eq_zero hzero)
        rw [scaled, scaled, hexponent, tenPow_add, ← Nat.mul_assoc, show tenPow 1 = 10 from rfl, hten]
    · exact Equal.refl d

/-- A decimal is taken from the grid only if it is rounded to the number. -/
theorem nearestCode_of_onGrid {tie : Tie} {code : Nat} {exponent : Int}
    (h : Shortest.onGrid tie code exponent = some d) : d.nearestCode = code := by
  unfold Shortest.onGrid at h
  dsimp only at h
  split at h
  · cases h
  · rename_i hbelow _
    cases h
    exact of_decide_eq_true hbelow
  · rename_i _ habove
    cases h
    exact of_decide_eq_true habove
  · rename_i hbelow habove
    split at h
    · cases h
      exact of_decide_eq_true hbelow
    · split at h
      · cases h
        exact of_decide_eq_true habove
      · split at h
        · split at h
          · cases h
            exact of_decide_eq_true hbelow
          · cases h
            exact of_decide_eq_true habove
        · cases h
          exact of_decide_eq_true habove

/-- The exact decimal value of a finite number is rounded to it. -/
theorem nearestCode_exact {code : Nat} (h : code ≤ Binary64.infinityCode) :
    (⟨Binary64.units code * Nat.pow 5 1074, -1074⟩ : DecimalForm).nearestCode = code := by
  have hten : tenPow 1074 = Nat.pow 5 1074 * Binary64.unitsPerOne := by
    unfold Binary64.unitsPerOne
    generalize 1074 = n
    exact tenPow_eq_mul n
  rw [nearestCode_eq]
  conv_rhs => rw [← Binary64.nearestCode_units h]
  refine Binary64.nearestCode_congr (den_pos _) Binary64.unitsPerOne_pos ?_
  have hden : den ⟨Binary64.units code * Nat.pow 5 1074, -1074⟩ = tenPow 1074 := rfl
  have hnum : num ⟨Binary64.units code * Nat.pow 5 1074, -1074⟩ = Binary64.units code * Nat.pow 5 1074 := Nat.mul_one _
  rw [hden, hnum, hten, Nat.mul_assoc]

/-- The shortest decimal of a finite number is rounded to the number. -/
theorem nearestCode_shortest (tie : Tie) {code : Nat} (h : code ≤ Binary64.infinityCode) :
    (shortest tie code).nearestCode = code := by
  unfold shortest
  dsimp only
  rw [nearestCode_congr (equal_stripZeros _ _)]
  cases hfound : (List.range 17).findSome? fun (n : Nat) =>
      Shortest.onGrid tie code (Shortest.leadingExponent (Binary64.units code) - n) with
  | none => exact nearestCode_exact h
  | some d =>
    obtain ⟨n, -, hgrid⟩ := List.exists_of_findSome?_eq_some hfound
    exact nearestCode_of_onGrid hgrid

/-- The shortest decimal of a number other than zero is not zero. -/
theorem coefficient_shortest_pos (tie : Tie) {code : Nat} (hpos : 0 < code) (h : code ≤ Binary64.infinityCode) :
    0 < (shortest tie code).coefficient := by
  refine Nat.pos_of_ne_zero fun hzero => ?_
  have hcode := nearestCode_shortest tie h
  rw [nearestCode_eq, num, hzero, Nat.zero_mul, Binary64.nearestCode_zero (den_pos _)] at hcode
  omega

end DecimalForm

end SentenceQuery
