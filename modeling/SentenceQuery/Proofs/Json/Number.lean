import SentenceQuery.Proofs.Json.NumberText

/-!
# The value of a number that is read

A number is read in rounded steps, so its value may be a neighbour of the one that was written. What holds is this: a whole
number below 2^63 is read back as it is (`reads_whole`), whatever is read is finite (`isFinite_of_readNumber`), and the text of every
finite number is read as a number (`exists_reads_number`). The last needs a bound on what the two roundings add.
-/

namespace SentenceQuery.Json

open Binary64

/-! ## The digits that are kept -/

theorem digit_lt {c : Char} (h : c.isDigit = true) : c.toNat - '0'.toNat < 10 := by
  simp only [Char.isDigit, Bool.and_eq_true, decide_eq_true_eq, UInt32.le_iff_toNat_le, ge_iff_le] at h
  have hnine : '9'.val.toNat = 57 := rfl
  have hzero : '0'.toNat = 48 := rfl
  have hc : c.toNat = c.val.toNat := rfl
  omega

/-- The digits that are kept are the first ones, and they fit. -/
theorem keepDigits_spec (n : Nat) (ds : List Char) :
    ∃ kept, ds = kept ++ (keepDigits n ds).2 ∧ (keepDigits n ds).1 = Nat.ofDigitChars 10 kept n := by
  induction ds generalizing n with
  | nil => exact ⟨[], rfl, rfl⟩
  | cons c ds ih =>
    rw [keepDigits]
    split
    · obtain ⟨kept, hds, hvalue⟩ := ih (10 * n + (c.toNat - '0'.toNat))
      exact ⟨c :: kept, by rw [List.cons_append, ← hds], by rw [hvalue, Nat.ofDigitChars_cons]⟩
    · exact ⟨[], rfl, rfl⟩

theorem keepDigits_le {n : Nat} (h : n ≤ maxDigits) (ds : List Char) : (keepDigits n ds).1 ≤ maxDigits := by
  induction ds generalizing n with
  | nil => exact h
  | cons c ds ih =>
    rw [keepDigits]
    split
    · rename_i hnext
      exact ih hnext
    · exact h

/-- Up to 19 digits are kept. -/
theorem keepDigits_of_length {ds : List Char} {n j : Nat} (hds : Over Char.isDigit ds) (hn : n < 10 ^ j)
    (hlength : j + ds.length ≤ 19) : keepDigits n ds = (Nat.ofDigitChars 10 ds n, []) := by
  induction ds generalizing n j with
  | nil => rfl
  | cons c ds ih =>
    obtain ⟨hc, hds⟩ := over_cons.1 hds
    have hdigit := digit_lt hc
    rw [List.length_cons] at hlength
    have hnext : 10 * n + (c.toNat - '0'.toNat) < 10 ^ (j + 1) := by
      rw [Nat.pow_succ]
      omega
    have hpow : 10 ^ (j + 1) ≤ 10 ^ 19 := Nat.pow_le_pow_right (by decide) (by omega)
    have hfits : 10 * n + (c.toNat - '0'.toNat) ≤ maxDigits := Nat.le_trans (Nat.le_of_lt hnext) (Nat.le_trans hpow (by decide))
    rw [keepDigits]
    rw [if_pos hfits, ih hds hnext (by omega), Nat.ofDigitChars_cons]

/-- The digits that are kept make up at most the number, if those before the point are kept. -/
theorem kept_atMost {t : NumberText} (ht : t.WellFormed) (hlength : t.whole.length ≤ 19) : t.kept.AtMost t.form := by
  have hwhole : keepDigits 0 t.whole = (Nat.ofDigitChars 10 t.whole 0, []) :=
    keepDigits_of_length (j := 0) ht.whole.over (by decide) (by omega)
  obtain ⟨kept, hsplit, hvalue⟩ := keepDigits_spec (Nat.ofDigitChars 10 t.whole 0) t.fraction
  unfold NumberText.kept
  rw [hwhole]
  dsimp only
  generalize keepDigits (Nat.ofDigitChars 10 t.whole 0) t.fraction = digits at *
  obtain ⟨m, unread⟩ := digits
  dsimp only at hsplit hvalue ⊢
  have hfraction : t.fraction.length = kept.length + unread.length := by rw [hsplit, List.length_append]
  refine DecimalForm.atMost_of_scaled (k := t.exponent.natAbs + t.fraction.length) ?_ ?_ ?_
  · simp only [List.length_nil]
    omega
  · simp only [NumberText.form, DecimalForm.ofDigits]
    omega
  · have hcoefficient : tenPow unread.length * m ≤ Nat.ofDigitChars 10 (t.whole ++ t.fraction) 0 := by
      rw [hsplit, Nat.ofDigitChars_append, Nat.ofDigitChars_append, ← hvalue, Nat.ofDigitChars_eq_ofDigitChars_zero, tenPow_eq]
      exact Nat.le_add_right _ _
    have hexponent : (t.exponent + ↑([] : List Char).length - ↑(t.fraction.length - unread.length) +
        ↑(t.exponent.natAbs + t.fraction.length) : Int).toNat =
          unread.length + (t.exponent - ↑t.fraction.length + ↑(t.exponent.natAbs + t.fraction.length) : Int).toNat := by
      simp only [List.length_nil]
      omega
    simp only [DecimalForm.scaled, NumberText.form, DecimalForm.ofDigits]
    rw [hexponent, tenPow_add, ← Nat.mul_assoc, Nat.mul_comm m]
    exact Nat.mul_le_mul_right _ hcoefficient

/-! ## The steps -/

theorem units_powerCode_zero : units (powerCode 0) = unitsPerOne := by
  -- one has the least significand of 53 bits
  have hone : units (1022 * twoPow 52 + twoPow 52) = unitsPerOne := by
    rw [units_join (twoPow_le_twoPow (by decide)) fun _ => Nat.le_refl _, ← twoPow_add, unitsPerOne]
  have hten : tenPow 0 = 1 := rfl
  have hrounded : nearestCode 1 1 = 1022 * twoPow 52 + twoPow 52 :=
    nearestCode_of_units Nat.one_pos (by decide) (by rw [hone, Nat.mul_comm])
  rw [powerCode, hten, hrounded, hone]

/-- No power of ten at all changes nothing. -/
theorem raise?_zero {code : Nat} (h : code < infinityCode) : raise? code 0 = some code := by
  unfold raise?
  split
  · rename_i hzero
    rw [hzero]
  · have hproduct : mulCodes code (powerCode 0) = code := by
      rw [mulCodes, units_powerCode_zero]
      conv_rhs => rw [← nearestCode_units (Nat.le_of_lt h)]
      exact nearestCode_congr (Nat.mul_pos unitsPerOne_pos unitsPerOne_pos) unitsPerOne_pos (Nat.mul_assoc _ _ _)
    rw [if_neg (Nat.not_lt_zero _)]
    dsimp only
    rw [hproduct, if_pos h]

/-- The rounded power of ten is at least one. -/
theorem le_units_powerCode (k : Nat) : unitsPerOne ≤ units (powerCode k) := by
  rw [← units_powerCode_zero]
  refine units_mono (nearestCode_le_nearestCode Nat.one_pos Nat.one_pos ?_)
  exact Nat.mul_le_mul_right _ (tenPow_le_tenPow (Nat.zero_le k))

theorem divCodes_powerCode_le {code : Nat} (h : code ≤ infinityCode) (k : Nat) : divCodes code (powerCode k) ≤ code := by
  have hpos : 0 < units (powerCode k) := Nat.lt_of_lt_of_le unitsPerOne_pos (le_units_powerCode k)
  conv_rhs => rw [← nearestCode_units h]
  exact nearestCode_le_nearestCode hpos unitsPerOne_pos (Nat.mul_le_mul_left _ (le_units_powerCode k))

/-- Dividing by powers of ten does not make a magnitude larger. -/
theorem lower_le {code : Nat} (h : code ≤ infinityCode) (k : Nat) : lower code k ≤ code := by
  have hstep := divCodes_powerCode_le h maxPower
  unfold lower
  split
  · exact divCodes_powerCode_le h k
  · split
    · exact Nat.le_trans (divCodes_powerCode_le (Nat.le_trans hstep h) _) hstep
    · exact Nat.zero_le _

theorem nearestCode_maxDigits {m : Nat} (h : m ≤ maxDigits) : nearestCode m 1 < infinityCode := by
  rw [nearestCode_lt_infinityCode_iff _ Nat.one_pos, Nat.one_mul]
  have hbits : maxDigits < twoPow 970 := Nat.lt_of_lt_of_le (by decide) (twoPow_le_twoPow (show 64 ≤ 970 by decide))
  have hbound : twoPow 970 ≤ twoPow 1024 - twoPow 970 := overflowBound_eq ▸ Nat.le_mul_of_pos_left _ (by decide)
  omega

/-- Whatever is found in steps is finite. -/
theorem stepwiseCode?_lt {d : DecimalForm} (hd : d.coefficient ≤ maxDigits) {code : Nat} (h : stepwiseCode? d = some code) :
    code < infinityCode := by
  have hcoefficient := nearestCode_maxDigits hd
  unfold stepwiseCode? at h
  dsimp only at h
  split at h
  · unfold raise? at h
    split at h
    · cases h
      decide
    · split at h
      · cases h
      · dsimp only at h
        split at h
        · rename_i hproduct
          rwa [← Option.some.inj h]
        · cases h
  · rw [← Option.some.inj h]
    exact Nat.lt_of_le_of_lt (lower_le (Nat.le_of_lt hcoefficient) _) hcoefficient

/-- A number that is read is finite. -/
theorem isFinite_of_readNumber {s rest : List Char} {x : Binary64} (h : readNumber s = .ok (x, rest)) :
    x.isFinite = true := by
  unfold readNumber at h
  rw [bind_eq_ok] at h
  obtain ⟨⟨t, s'⟩, -, hvalue⟩ := h
  dsimp only at hvalue
  split at hvalue
  · rename_i y hy
    cases hvalue
    rw [NumberText.value?, Option.map_eq_some_iff] at hy
    obtain ⟨code, hcode, rfl⟩ := hy
    have hwhole : (keepDigits 0 t.whole).1 ≤ maxDigits := keepDigits_le (by decide) _
    have hlt := stepwiseCode?_lt (d := t.kept) (keepDigits_le hwhole _) hcode
    rw [isFinite, decide_eq_true_eq, ofCode]
    exact Nat.lt_of_le_of_lt (Nat.min_le_left _ _) hlt
  · cases hvalue

/-! ## Whole numbers are read back -/

/-- The number is written as a whole number below 2^63. -/
def IsShortWhole (x : Binary64) : Prop := ∃ n, x.wholeMagnitude? = some n ∧ n < twoPow 63

instance (x : Binary64) : Decidable (IsShortWhole x) :=
  decidable_of_iff (x.wholeMagnitude?.any fun n => n < twoPow 63) (by simp [IsShortWhole, Option.any_eq_true])

theorem reads_of_value {t : NumberText} (ht : t.WellFormed) {x : Binary64} (hvalue : t.value? = some x) :
    Reads readNumber t.written x := by
  have hreads := reads_numberText ht
  refine ⟨hreads.starts, fun rest hrest => ?_⟩
  rw [readNumber, hreads.reads rest hrest]
  simp only [bind, Except.bind, hvalue]

theorem value_toDigits (negative : Bool) {n : Nat} (h : n < twoPow 63) :
    NumberText.value? ⟨negative, Nat.toDigits 10 n, [], 0⟩ = some (ofCode negative (nearestCode n 1)) := by
  have hlength : (Nat.toDigits 10 n).length ≤ 19 :=
    (Nat.length_toDigits_le_iff (by decide) (by decide)).2 (Nat.lt_trans h (by decide))
  have hkept : NumberText.kept ⟨negative, Nat.toDigits 10 n, [], 0⟩ = ⟨n, 0⟩ := by
    rw [NumberText.kept, keepDigits_of_length (j := 0) (over_toDigits n) (by decide) (by omega), Nat.ofDigitChars_ten_toDigits]
    rfl
  have hfits : n ≤ maxDigits := Nat.le_trans (Nat.le_of_lt h) (by decide)
  rw [NumberText.value?, hkept]
  show (raise? (nearestCode n 1) 0).map _ = _
  rw [raise?_zero (nearestCode_maxDigits hfits)]
  rfl

/-- A whole number below 2^63 is read back, zero without a sign. -/
theorem reads_whole {x : Binary64} (hfinite : x.isFinite = true) (h : IsShortWhole x) :
    ∃ y : Binary64, Reads readNumber (ofNumber x) y ∧ y.canonical = x.canonical := by
  obtain ⟨n, hwhole, hsmall⟩ := h
  have ht := isTextOf_whole hfinite hwhole hsmall
  have hle : x.code ≤ infinityCode := Nat.le_of_lt (of_decide_eq_true hfinite)
  have hcode := nearestCode_of_wholeMagnitude hle hwhole
  refine ⟨_, ht.written ▸ reads_of_value ht.wellFormed (value_toDigits _ hsmall), ?_⟩
  rw [hcode]
  by_cases hzero : x.code = 0
  · simp [canonical, isZero, ofCode, hzero]
  · have hn : n ≠ 0 := by
      rintro rfl
      exact hzero (hcode.symm.trans (nearestCode_zero Nat.one_pos))
    obtain ⟨negative, code, hlt⟩ := x
    dsimp only at hle
    simp [ofCode, hn, Nat.min_eq_left hle]

/-! ## The text of every finite number is read -/

/-- Below this bound the roundings of the digits and of the power of ten cannot lead to infinity: it lies halfway between the
third and the second but one of the finite numbers. -/
def safeBound : Nat := (twoPow 54 - 5) * twoPow 970

theorem nearestCode_safeBound : nearestCode safeBound 1 = infinityCode - 2 := by decide +kernel

theorem safeBound_lt : safeBound < twoPow 1024 - twoPow 970 :=
  overflowBound_eq ▸ Nat.mul_lt_mul_of_pos_right (by decide) (twoPow_pos 970)

/-- The relative errors of the two factors stay within the distance from the bound to infinity. -/
theorem safeBound_mul_lt :
    safeBound * ((twoPow 53 + 1) * (twoPow 53 + 1)) < (twoPow 1024 - twoPow 970) * (twoPow 53 * twoPow 53) := by
  rw [overflowBound_eq, safeBound, Nat.mul_right_comm _ (twoPow 970), Nat.mul_right_comm _ (twoPow 970)]
  exact Nat.mul_lt_mul_of_pos_right (by decide) (twoPow_pos 970)

theorem lt_safeBound_of_nearestCode_le {n : Nat} (h : nearestCode n 1 ≤ infinityCode - 3) : n < safeBound := by
  by_contra hge
  have hmono : nearestCode safeBound 1 ≤ nearestCode n 1 := nearestCode_le_nearestCode Nat.one_pos Nat.one_pos (by omega)
  rw [nearestCode_safeBound] at hmono
  have hpos : 3 ≤ infinityCode := by decide
  omega

/-- The rounded product of rounded factors is finite below the bound. -/
theorem mulCodes_powerCode_lt {m k : Nat} (hm : 0 < m) (h : m * tenPow k < safeBound) :
    mulCodes (nearestCode m 1) (powerCode k) < infinityCode := by
  have hfinite : ∀ n, n ≤ m * tenPow k → nearestCode n 1 < infinityCode := fun n hn => by
    rw [nearestCode_lt_infinityCode_iff _ Nat.one_pos, Nat.one_mul]
    exact Nat.lt_trans (Nat.lt_of_le_of_lt hn h) safeBound_lt
  have hdigits := units_nearestCode_le (hfinite m (Nat.le_mul_of_pos_right _ (tenPow_pos k)))
  have hpower := units_nearestCode_le (hfinite (tenPow k) (Nat.le_mul_of_pos_left _ hm))
  have hunits : 0 < unitsPerOne * unitsPerOne := Nat.mul_pos unitsPerOne_pos unitsPerOne_pos
  rw [mulCodes, nearestCode_lt_infinityCode_iff _ hunits]
  refine Nat.lt_of_mul_lt_mul_right (a := twoPow 53 * twoPow 53) ?_
  calc units (nearestCode m 1) * units (powerCode k) * (twoPow 53 * twoPow 53)
      = units (nearestCode m 1) * twoPow 53 * (units (powerCode k) * twoPow 53) := Nat.mul_mul_mul_comm _ _ _ _
    _ ≤ m * unitsPerOne * (twoPow 53 + 1) * (tenPow k * unitsPerOne * (twoPow 53 + 1)) := Nat.mul_le_mul hdigits hpower
    _ = unitsPerOne * unitsPerOne * (m * tenPow k * ((twoPow 53 + 1) * (twoPow 53 + 1))) := by ring
    _ ≤ unitsPerOne * unitsPerOne * (safeBound * ((twoPow 53 + 1) * (twoPow 53 + 1))) :=
        Nat.mul_le_mul_left _ (Nat.mul_le_mul_right _ (Nat.le_of_lt h))
    _ < unitsPerOne * unitsPerOne * ((twoPow 1024 - twoPow 970) * (twoPow 53 * twoPow 53)) :=
        Nat.mul_lt_mul_of_pos_left safeBound_mul_lt hunits
    _ = unitsPerOne * unitsPerOne * (twoPow 1024 - twoPow 970) * (twoPow 53 * twoPow 53) := (Nat.mul_assoc _ _ _).symm

theorem stepwiseCode?_isSome {d : DecimalForm} (h : d.nearestCode ≤ infinityCode - 3) : (stepwiseCode? d).isSome := by
  obtain ⟨m, e⟩ := d
  cases e with
  | negSucc k => rfl
  | ofNat k =>
    show (raise? (nearestCode m 1) k).isSome
    unfold raise?
    split
    · rfl
    · rename_i hne
      have hm : 0 < m := by
        refine Nat.pos_of_ne_zero fun hzero => hne ?_
        rw [hzero]
        exact nearestCode_zero Nat.one_pos
      have hnum : DecimalForm.num ⟨m, Int.ofNat k⟩ = m * tenPow k := rfl
      have hden : DecimalForm.den ⟨m, Int.ofNat k⟩ = 1 := by simp [DecimalForm.den, tenPow_eq]
      rw [DecimalForm.nearestCode_eq, hnum, hden] at h
      have hbound := lt_safeBound_of_nearestCode_le h
      have hpower : ¬maxPower < k := by
        intro hlarge
        have hten : tenPow 309 ≤ tenPow k := tenPow_le_tenPow hlarge
        have hle : tenPow k ≤ m * tenPow k := Nat.le_mul_of_pos_left _ hm
        have hsafe : safeBound ≤ tenPow 309 := by decide +kernel
        omega
      rw [if_neg hpower]
      dsimp only
      rw [if_pos (mulCodes_powerCode_lt hm hbound)]
      rfl

/-- The two largest finite numbers are close enough to infinity for the bound to fail; their texts are read all the same. -/
theorem readNumber_largest : ∀ negative : Bool, ∀ code ∈ [infinityCode - 2, infinityCode - 1],
    (readNumber (ofNumber (ofCode negative code))).toOption.isSome := by decide +kernel

/-- The text of a finite number is read as a number. -/
theorem exists_reads_number {x : Binary64} (h : x.isFinite = true) : ∃ y, Reads readNumber (ofNumber x) y := by
  obtain ⟨t, ht⟩ := exists_numberText h
  have hlt : x.code < infinityCode := of_decide_eq_true h
  have hsome : t.value?.isSome := by
    by_cases hsafe : x.code ≤ infinityCode - 3
    · have hkept := DecimalForm.nearestCode_le_of_atMost (kept_atMost ht.wellFormed ht.length_whole)
      rw [ht.nearestCode] at hkept
      rw [NumberText.value?, Option.isSome_map]
      exact stepwiseCode?_isSome (Nat.le_trans hkept hsafe)
    · have hx : ofCode x.negative x.code = x := by
        obtain ⟨negative, code, _⟩ := x
        simp [ofCode, Nat.min_eq_left (Nat.le_of_lt hlt)]
      have hcode : x.code ∈ [infinityCode - 2, infinityCode - 1] := by
        rw [List.mem_pair]
        omega
      have hread := readNumber_largest x.negative x.code hcode
      rw [hx, ht.written] at hread
      rw [readNumber, (reads_numberText ht.wellFormed).eq_ok] at hread
      cases hvalue : t.value? with
      | some y => rfl
      | none =>
        simp only [bind, Except.bind, hvalue] at hread
        exact hread
  obtain ⟨y, hy⟩ := Option.isSome_iff_exists.1 hsome
  exact ⟨y, ht.written ▸ reads_of_value ht.wellFormed hy⟩

end SentenceQuery.Json
