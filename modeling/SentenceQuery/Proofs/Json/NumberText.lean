import SentenceQuery.Proofs.Json.Reading
import SentenceQuery.Proofs.Number.Decimal
import SentenceQuery.Proofs.Text.Span

/-!
# Numbers as they are written

The form in which a number is read (`NumberText`) is also the form in which it is written: the text of every finite number is that of a
well-formed one (`exists_numberText`), which is read back as it is (`reads_numberText`) and is rounded to the number. So the
text of a finite number determines it, but for the sign of zero (`ofNumber_inj`).
-/

namespace SentenceQuery

/-! ## Digits -/

theorem over_toDigits (n : Nat) : Over Char.isDigit (Nat.toDigits 10 n) := fun _ hc =>
  Nat.isDigit_of_mem_toDigits (by decide) (by decide) hc

theorem digitChar_ne_zero : ∀ n < 10, 0 < n → Nat.digitChar n ≠ '0' := by decide

/-- The digits of a number other than zero do not start with a zero. -/
theorem head?_toDigits {n : Nat} (h : 0 < n) : (Nat.toDigits 10 n).head? ≠ some '0' := by
  induction n using Nat.strongRecOn with
  | _ n ih =>
    rcases Nat.lt_or_ge n 10 with hsmall | hlarge
    · rw [Nat.toDigits_of_lt_base hsmall, List.head?_cons, ne_eq, Option.some.injEq]
      exact digitChar_ne_zero n hsmall h
    · rw [Nat.toDigits_of_base_le (by decide) hlarge, List.head?_append_of_ne_nil _ Nat.toDigits_ne_nil]
      exact ih (n / 10) (Nat.div_lt_self h (by decide)) (by omega)

namespace Json

/-- The digits of a number before the point, as they may be written: a zero, or digits that do not start with one. -/
def IsWhole (w : List Char) : Prop := w = ['0'] ∨ (w ≠ [] ∧ w.head? ≠ some '0' ∧ Over Char.isDigit w)

theorem isWhole_toDigits (n : Nat) : IsWhole (Nat.toDigits 10 n) := by
  rcases Nat.eq_zero_or_pos n with rfl | hpos
  · exact Or.inl rfl
  · exact Or.inr ⟨Nat.toDigits_ne_nil, head?_toDigits hpos, over_toDigits n⟩

/-- Digits that do not start with a zero, and more digits behind them. -/
theorem isWhole_append {w v : List Char} (hne : w ≠ []) (hhead : w.head? ≠ some '0') (hw : Over Char.isDigit w)
    (hv : Over Char.isDigit v) : IsWhole (w ++ v) :=
  Or.inr ⟨by simp [hne], by rwa [List.head?_append_of_ne_nil _ hne], over_append.2 ⟨hw, hv⟩⟩

theorem IsWhole.over {w : List Char} (h : IsWhole w) : Over Char.isDigit w := by
  rcases h with rfl | ⟨-, -, h⟩
  · decide
  · exact h

theorem IsWhole.exists_cons {w : List Char} (h : IsWhole w) : ∃ c r, w = c :: r ∧ c.isDigit = true := by
  have hover := h.over
  cases w with
  | nil =>
    rcases h with h | ⟨h, -, -⟩
    · cases h
    · exact absurd rfl h
  | cons c r => exact ⟨c, r, rfl, (over_cons.1 hover).1⟩

/-! ## The form of a number -/

/-- The point and the digits behind it, if there are any. -/
def fractionText (fraction : List Char) : List Char := if fraction = [] then [] else '.' :: fraction

/-- The power of ten, if it is not the zeroth. -/
def exponentText (exponent : Int) : List Char :=
  if exponent = 0 then [] else 'e' :: (if exponent < 0 then '-' else '+') :: Nat.toDigits 10 exponent.natAbs

namespace NumberText

/-- The text of a number. -/
def written (t : NumberText) : List Char :=
  (if t.negative then ['-'] else []) ++ (t.whole ++ (fractionText t.fraction ++ exponentText t.exponent))

/-- The decimal that a number stands for, without its sign. -/
def form (t : NumberText) : DecimalForm := .ofDigits t.whole t.fraction t.exponent

structure WellFormed (t : NumberText) : Prop where
  whole : IsWhole t.whole
  fraction : Over Char.isDigit t.fraction

end NumberText

/-- The characters that a number goes on with behind its first digit. -/
def continuesNumber (c : Char) : Bool := c.isDigit || c = '.' || c = 'e' || c = 'E'

theorem stops_of_delimited {s : List Char} (h : Delimited s) : Stops continuesNumber s := by
  intro c hc
  have hends := h c hc
  simp only [endsValue, Bool.or_eq_true, decide_eq_true_eq] at hends
  rcases hends with (rfl | rfl) | rfl <;> decide

theorem stops_isDigit {s : List Char} (h : Stops continuesNumber s) : Stops Char.isDigit s := by
  intro c hc
  have hstop := h c hc
  simp only [continuesNumber, Bool.or_eq_false_iff] at hstop
  exact hstop.1.1.1

theorem readWhole_append {w r : List Char} (hw : IsWhole w) (hr : Stops Char.isDigit r) : readWhole (w ++ r) = .ok (w, r) := by
  rcases hw with rfl | ⟨hne, hhead, hover⟩
  · cases r with
    | nil => rfl
    | cons c r =>
      have hc := stops_cons.1 hr
      simp [readWhole, hc]
  · cases w with
    | nil => exact absurd rfl hne
    | cons c w =>
      obtain ⟨hc, hw⟩ := over_cons.1 hover
      have hzero : c ≠ '0' := fun h => hhead (by rw [h, List.head?_cons])
      rw [List.cons_append]
      simp [readWhole, hc, takeWhile_append_of_stops hw hr, dropWhile_append_of_stops hw hr]

theorem readDigits_append {ds r : List Char} (hne : ds ≠ []) (hds : Over Char.isDigit ds) (hr : Stops Char.isDigit r) :
    readDigits (ds ++ r) = .ok (ds, r) := by
  rw [readDigits, takeWhile_append_of_stops hds hr, dropWhile_append_of_stops hds hr]
  cases ds with
  | nil => exact absurd rfl hne
  | cons => rfl

theorem readFraction_append {fraction r : List Char} (hover : Over Char.isDigit fraction) (hr : Stops Char.isDigit r)
    (hpoint : ∀ s, r ≠ '.' :: s) : readFraction (fractionText fraction ++ r) = .ok (fraction, r) := by
  by_cases hempty : fraction = []
  · subst hempty
    rw [fractionText, if_pos rfl, List.nil_append, readFraction]
    exact hpoint
  · rw [fractionText, if_neg hempty, List.cons_append, readFraction]
    exact readDigits_append hempty hover hr

theorem readExponent_append (exponent : Int) {r : List Char} (hr : Stops continuesNumber r) :
    readExponent (exponentText exponent ++ r) = .ok (exponent, r) := by
  by_cases hzero : exponent = 0
  · subst hzero
    rw [exponentText, if_pos rfl, List.nil_append]
    cases r with
    | nil => rfl
    | cons c r =>
      have hc := stops_cons.1 hr
      simp only [continuesNumber, Bool.or_eq_false_iff, decide_eq_false_iff_not] at hc
      simp [readExponent, hc]
  · have hdigits := readDigits_append (Nat.toDigits_ne_nil (b := 10) (n := exponent.natAbs)) (over_toDigits _)
      (stops_isDigit hr)
    rw [exponentText, if_neg hzero]
    rcases Int.lt_or_le exponent 0 with hneg | hpos
    · have habs : -(exponent.natAbs : Int) = exponent := by omega
      simp only [if_pos hneg, List.cons_append, readExponent, true_or, if_true, Binary64.readSign, hdigits, bind, Except.bind,
        Nat.ofDigitChars_ten_toDigits, habs]
    · have habs : (exponent.natAbs : Int) = exponent := by omega
      simp only [if_neg (Int.not_lt.2 hpos), List.cons_append, readExponent, true_or, if_true, Binary64.readSign, hdigits, bind,
        Except.bind, Nat.ofDigitChars_ten_toDigits, habs, Bool.false_eq_true, if_false]

/-- What follows the digits before the point is none of them. -/
theorem stops_fractionText (fraction : List Char) (exponent : Int) {r : List Char} (hr : Stops continuesNumber r) :
    Stops Char.isDigit (exponentText exponent ++ r) ∧ (∀ s, exponentText exponent ++ r ≠ '.' :: s) ∧
      Stops Char.isDigit (fractionText fraction ++ (exponentText exponent ++ r)) := by
  have hexponent : Stops Char.isDigit (exponentText exponent ++ r) ∧ ∀ s, exponentText exponent ++ r ≠ '.' :: s := by
    unfold exponentText
    split
    · refine ⟨stops_isDigit hr, fun s hs => ?_⟩
      rw [List.nil_append] at hs
      rw [hs, stops_cons] at hr
      exact absurd hr (by decide)
    · refine ⟨stops_cons.2 (by decide), fun s hs => ?_⟩
      rw [List.cons_append, List.cons.injEq] at hs
      exact absurd hs.1 (by decide)
  refine ⟨hexponent.1, hexponent.2, ?_⟩
  unfold fractionText
  split
  · exact hexponent.1
  · exact stops_cons.2 (by decide)

theorem readUnsigned_append {t : NumberText} (h : t.WellFormed) {r : List Char} (hr : Stops continuesNumber r) :
    readUnsigned t.negative (t.whole ++ (fractionText t.fraction ++ (exponentText t.exponent ++ r))) = .ok (t, r) := by
  obtain ⟨hexponent, hpoint, hfraction⟩ := stops_fractionText t.fraction t.exponent hr
  rw [readUnsigned, readWhole_append h.whole hfraction]
  simp only [bind, Except.bind, readFraction_append h.fraction hexponent hpoint, readExponent_append _ hr]

/-- A number starts with its sign or with a digit. -/
theorem NumberText.WellFormed.exists_cons {t : NumberText} (h : t.WellFormed) :
    ∃ c r, t.written = c :: r ∧ startsNumber c = true := by
  obtain ⟨c, r, hwhole, hc⟩ := h.whole.exists_cons
  unfold NumberText.written
  cases t.negative with
  | true => exact ⟨'-', _, rfl, by decide⟩
  | false => exact ⟨c, _, by rw [hwhole]; rfl, by simp [startsNumber, hc]⟩

theorem startsValue_of_startsNumber {c : Char} (h : startsNumber c = true) (r : List Char) : StartsValue (c :: r) := by
  rw [startsValue_cons]
  constructor
  · by_contra hspace
    simp only [isSpace, Bool.not_eq_false, Bool.or_eq_true, decide_eq_true_eq] at hspace
    rcases hspace with ((rfl | rfl) | rfl) | rfl <;> exact absurd h (by decide)
  · by_contra hends
    simp only [endsValue, Bool.not_eq_false, Bool.or_eq_true, decide_eq_true_eq] at hends
    rcases hends with (rfl | rfl) | rfl <;> exact absurd h (by decide)

/-- A number is read back as it is written. -/
theorem reads_numberText {t : NumberText} (h : t.WellFormed) : Reads readNumberText t.written t := by
  constructor
  · obtain ⟨c, r, hwritten, hc⟩ := h.exists_cons
    rw [hwritten]
    exact startsValue_of_startsNumber hc r
  · intro rest hrest
    have hunsigned := readUnsigned_append h (stops_of_delimited hrest)
    unfold NumberText.written
    simp only [List.append_assoc]
    cases hsign : t.negative with
    | true =>
      rw [hsign] at hunsigned
      exact hunsigned
    | false =>
      rw [hsign] at hunsigned
      obtain ⟨c, r, hwhole, hc⟩ := h.whole.exists_cons
      rw [hwhole] at hunsigned ⊢
      simp only [Bool.false_eq_true, if_false, List.nil_append, List.cons_append] at hunsigned ⊢
      rw [readNumberText]
      · exact hunsigned
      · intro s heq
        rw [List.cons.injEq] at heq
        rw [heq.1] at hc
        exact absurd hc (by decide)

theorem NumberText.WellFormed.written_inj {t u : NumberText} (ht : t.WellFormed) (hu : u.WellFormed)
    (h : t.written = u.written) : t = u := by
  have hread := reads_numberText ht
  rw [h] at hread
  exact hread.inj (reads_numberText hu)

/-! ## The numbers that are written -/

/-- The number is written as the text, and it has a sign and the value of a decimal. Its whole part is one that fits 64
bits. -/
structure NumberText.Writes (t : NumberText) (text : List Char) (negative : Bool) (d : DecimalForm) : Prop where
  wellFormed : t.WellFormed
  length_whole : t.whole.length ≤ 19
  written : t.written = text
  negative : t.negative = negative
  value : t.form.Equal d

theorem writes_toDigits (negative : Bool) {n : Nat} (h : n < twoPow 63) :
    NumberText.Writes ⟨negative, Nat.toDigits 10 n, [], 0⟩ ((if negative then ['-'] else []) ++ Nat.toDigits 10 n) negative
      ⟨n, 0⟩ := by
  have hlength : (Nat.toDigits 10 n).length ≤ 19 :=
    (Nat.length_toDigits_le_iff (by decide) (by decide)).2 (Nat.lt_trans h (by decide))
  refine ⟨⟨isWhole_toDigits n, over_nil⟩, hlength, by simp [NumberText.written, fractionText, exponentText], rfl, ?_⟩
  simp [NumberText.form, DecimalForm.ofDigits, Nat.ofDigitChars_ten_toDigits, DecimalForm.Equal]

/-- Zeros behind the digits of a number stand for a power of ten. -/
theorem ofDigitChars_append_zeros (n k : Nat) :
    Nat.ofDigitChars 10 (Nat.toDigits 10 n ++ List.replicate k '0') 0 = n * tenPow k := by
  rw [Nat.ofDigitChars_append, Nat.ofDigitChars_ten_toDigits, Nat.ofDigitChars_replicate_zero, Nat.mul_comm, tenPow_eq]

theorem ofDigitChars_zeros_append (n k : Nat) :
    Nat.ofDigitChars 10 ('0' :: (List.replicate k '0' ++ Nat.toDigits 10 n)) 0 = n := by
  rw [← List.cons_append, ← List.replicate_succ, Nat.ofDigitChars_append, Nat.ofDigitChars_replicate_zero, Nat.mul_zero,
    Nat.ofDigitChars_ten_toDigits]

/-- The digits of a decimal with a point where it belongs. -/
theorem exists_writes_plain (negative : Bool) {d : DecimalForm} (hpos : 0 < d.coefficient) (hplace : d.firstPlace ≤ 15) :
    ∃ t : NumberText, t.Writes ((if negative then ['-'] else []) ++ d.plain) negative d := by
  obtain ⟨c, e⟩ := d
  have hne : Nat.toDigits 10 c ≠ [] := Nat.toDigits_ne_nil
  have hhead : (Nat.toDigits 10 c).head? ≠ some '0' := head?_toDigits hpos
  have hover := over_toDigits c
  cases e with
  | ofNat k =>
    refine ⟨⟨negative, Nat.toDigits 10 c ++ List.replicate k '0', [], 0⟩, ⟨?_, over_nil⟩, ?_, ?_, rfl, ?_⟩
    · exact isWhole_append hne hhead hover fun d hd => by rw [List.eq_of_mem_replicate hd]; decide
    · rw [List.length_append, List.length_replicate]
      simp only [DecimalForm.firstPlace, Int.ofNat_eq_natCast] at hplace
      omega
    · simp [NumberText.written, fractionText, exponentText, DecimalForm.plain]
    · refine DecimalForm.equal_of_scaled (k := 0) (by simp [NumberText.form, DecimalForm.ofDigits]) (by simp) ?_
      simp [NumberText.form, DecimalForm.ofDigits, DecimalForm.scaled, ofDigitChars_append_zeros, tenPow_eq 0]
  | negSucc k =>
    have hvalue : Nat.ofDigitChars 10 (Nat.toDigits 10 c) 0 = c := Nat.ofDigitChars_ten_toDigits
    have hpadded := ofDigitChars_zeros_append c
    rw [DecimalForm.plain]
    rw [DecimalForm.firstPlace] at hplace
    dsimp only at hplace ⊢
    generalize Nat.toDigits 10 c = digits at *
    by_cases hplaces : k + 1 < digits.length
    · rw [if_pos hplaces]
      have hsplit := List.take_append_drop (digits.length - (k + 1)) digits
      have hlength : (digits.drop (digits.length - (k + 1))).length = k + 1 := by
        rw [List.length_drop]
        omega
      have htake : digits.take (digits.length - (k + 1)) ≠ [] := by
        rw [ne_eq, List.take_eq_nil_iff, not_or]
        exact ⟨by omega, hne⟩
      have hdrop : digits.drop (digits.length - (k + 1)) ≠ [] := by
        rw [← List.length_pos_iff, hlength]
        omega
      refine ⟨⟨negative, digits.take (digits.length - (k + 1)), digits.drop (digits.length - (k + 1)), 0⟩, ⟨?_, ?_⟩, ?_, ?_,
        rfl, ?_⟩
      · refine Or.inr ⟨htake, ?_, fun d hd => hover d (List.mem_of_mem_take hd)⟩
        rwa [← hsplit, List.head?_append_of_ne_nil _ htake] at hhead
      · exact fun d hd => hover d (List.mem_of_mem_drop hd)
      · rw [List.length_take]
        omega
      · rw [NumberText.written, fractionText, if_neg hdrop, exponentText, if_pos rfl, List.append_nil]
      · rw [NumberText.form, DecimalForm.ofDigits, hsplit, hlength, hvalue]
        exact DecimalForm.Equal.refl _
    · rw [if_neg hplaces]
      have hlength : (List.replicate (k + 1 - digits.length) '0' ++ digits).length = k + 1 := by
        rw [List.length_append, List.length_replicate]
        omega
      have hne' : List.replicate (k + 1 - digits.length) '0' ++ digits ≠ [] := List.append_ne_nil_of_right_ne_nil _ hne
      refine ⟨⟨negative, ['0'], List.replicate (k + 1 - digits.length) '0' ++ digits, 0⟩,
        ⟨Or.inl rfl, over_append.2 ⟨?_, hover⟩⟩, by simp, ?_, rfl, ?_⟩
      · exact fun d hd => by rw [List.eq_of_mem_replicate hd]; decide
      · rw [NumberText.written, fractionText, if_neg hne', exponentText, if_pos rfl, List.append_nil]
        rfl
      · rw [NumberText.form, DecimalForm.ofDigits, hlength, List.singleton_append, hpadded]
        exact DecimalForm.Equal.refl _

/-- The digits of a decimal with a point behind the first and a power of ten. -/
theorem exists_writes_scientific (negative : Bool) {d : DecimalForm} (hpos : 0 < d.coefficient) (hplace : d.firstPlace ≠ 0) :
    ∃ t : NumberText, t.Writes ((if negative then ['-'] else []) ++ d.scientific) negative d := by
  have hhead : (Nat.toDigits 10 d.coefficient).head? ≠ some '0' := head?_toDigits hpos
  have hover := over_toDigits d.coefficient
  cases hdigits : Nat.toDigits 10 d.coefficient with
  | nil => exact absurd hdigits Nat.toDigits_ne_nil
  | cons c r =>
    rw [hdigits] at hhead hover
    have hvalue : Nat.ofDigitChars 10 (c :: r) 0 = d.coefficient := by rw [← hdigits, Nat.ofDigitChars_ten_toDigits]
    have hexponent : d.firstPlace - r.length = d.exponent := by
      rw [DecimalForm.firstPlace, hdigits, List.length_cons]
      omega
    refine ⟨⟨negative, [c], r, d.firstPlace⟩, ⟨?_, (over_cons.1 hover).2⟩, by simp, ?_, rfl, ?_⟩
    · exact Or.inr ⟨by simp, by simpa using hhead, by simpa using (over_cons.1 hover).1⟩
    · cases r <;> simp [NumberText.written, fractionText, exponentText, DecimalForm.scientific, hdigits, hplace]
    · rw [NumberText.form, DecimalForm.ofDigits, List.singleton_append, hvalue, hexponent]
      exact DecimalForm.Equal.refl _

/-- The shortest decimal of a number, however it is written. -/
theorem exists_writes_shortest (negative : Bool) {code : Nat} (hpos : 0 < code) (h : code ≤ Binary64.infinityCode) :
    ∃ t : NumberText, t.Writes ((if negative then ['-'] else []) ++ Binary64.compactText?.shortestText code) negative
      (.shortest .toEven code) := by
  have hcoefficient := DecimalForm.coefficient_shortest_pos .toEven hpos h
  unfold Binary64.compactText?.shortestText
  dsimp only
  by_cases hplace : (-5 ≤ (DecimalForm.shortest .toEven code).firstPlace &&
      (DecimalForm.shortest .toEven code).firstPlace ≤ 15) = true
  · rw [if_pos hplace]
    simp only [Bool.and_eq_true, decide_eq_true_eq] at hplace
    exact exists_writes_plain negative hcoefficient hplace.2
  · rw [if_neg hplace]
    refine exists_writes_scientific negative hcoefficient fun hzero => hplace ?_
    rw [hzero]
    decide

/-- The magnitude of a whole number, in units. -/
theorem units_of_wholeMagnitude {x : Binary64} {n : Nat} (h : x.wholeMagnitude? = some n) :
    Binary64.units x.code = n * Binary64.unitsPerOne := by
  unfold Binary64.wholeMagnitude? at h
  split at h
  · rename_i hwhole
    simp only [Bool.and_eq_true, beq_iff_eq] at hwhole
    cases h
    exact (Nat.div_mul_cancel (Nat.dvd_of_mod_eq_zero hwhole.2)).symm
  · cases h

theorem nearestCode_of_wholeMagnitude {x : Binary64} {n : Nat} (hfinite : x.code ≤ Binary64.infinityCode)
    (h : x.wholeMagnitude? = some n) : Binary64.nearestCode n 1 = x.code := by
  rw [← Binary64.nearestCode_units hfinite, units_of_wholeMagnitude h]
  exact Binary64.nearestCode_congr Nat.one_pos Binary64.unitsPerOne_pos (by rw [Nat.mul_one])

/-- The number is written as that of binary64: it is rounded to it and has its sign, unless it is zero. -/
structure NumberText.IsTextOf (t : NumberText) (x : Binary64) : Prop where
  wellFormed : t.WellFormed
  length_whole : t.whole.length ≤ 19
  written : ofNumber x = t.written
  nearestCode : t.form.nearestCode = x.code
  negative : x.code ≠ 0 → t.negative = x.negative

theorem isTextOf_shortest {x : Binary64} (hle : x.code ≤ Binary64.infinityCode) (hpos : 0 < x.code)
    (htext : x.compactText? = some (x.signText ++ Binary64.compactText?.shortestText x.code)) :
    ∃ t : NumberText, t.IsTextOf x := by
  obtain ⟨t, ht⟩ := exists_writes_shortest x.negative hpos hle
  refine ⟨t, ht.wellFormed, ht.length_whole, ?_, ?_, fun _ => ht.negative⟩
  · rw [ofNumber, htext, ht.written]
    rfl
  · rw [DecimalForm.nearestCode_congr ht.value, DecimalForm.nearestCode_shortest _ hle]

/-- A whole number below 2^63 is written as its digits, and zero without a sign. -/
theorem isTextOf_whole {x : Binary64} (hfinite : x.isFinite = true) {n : Nat} (hwhole : x.wholeMagnitude? = some n)
    (hsmall : n < twoPow 63) :
    NumberText.IsTextOf ⟨x.negative && decide (n ≠ 0), Nat.toDigits 10 n, [], 0⟩ x := by
  have hcode := nearestCode_of_wholeMagnitude (Nat.le_of_lt (of_decide_eq_true hfinite)) hwhole
  have ht := writes_toDigits (x.negative && decide (n ≠ 0)) hsmall
  refine ⟨ht.wellFormed, ht.length_whole, ?_, ?_, fun hne => ?_⟩
  · rw [ht.written]
    cases n with
    | zero => simp [ofNumber, Binary64.compactText?, hfinite, hwhole]
    | succ n => simp [ofNumber, Binary64.compactText?, Binary64.signText, hfinite, hwhole, hsmall]
  · rw [DecimalForm.nearestCode_congr ht.value, DecimalForm.nearestCode_eq, ← hcode]
    simp [DecimalForm.num, DecimalForm.den, tenPow_eq]
  · have hn : n ≠ 0 := by
      rintro rfl
      exact hne (hcode.symm.trans (Binary64.nearestCode_zero Nat.one_pos))
    simp [hn]

/-- Every finite number is written as a well-formed number. -/
theorem exists_numberText {x : Binary64} (h : x.isFinite = true) : ∃ t : NumberText, t.IsTextOf x := by
  have hle : x.code ≤ Binary64.infinityCode := Nat.le_of_lt (of_decide_eq_true h)
  cases hwhole : x.wholeMagnitude? with
  | none =>
    refine isTextOf_shortest hle (Nat.pos_of_ne_zero fun hzero => ?_) (by simp [Binary64.compactText?, h, hwhole])
    simp [Binary64.wholeMagnitude?, h, hzero, Binary64.units] at hwhole
  | some n =>
    by_cases hsmall : n < twoPow 63
    · exact ⟨_, isTextOf_whole h hwhole hsmall⟩
    · have hn : n ≠ 0 := fun hzero => hsmall (hzero ▸ twoPow_pos 63)
      refine isTextOf_shortest hle (Nat.pos_of_ne_zero fun hzero => ?_) ?_
      · have hunits := units_of_wholeMagnitude hwhole
        rw [hzero] at hunits
        exact absurd hunits.symm (Nat.mul_ne_zero hn (Nat.ne_of_gt Binary64.unitsPerOne_pos))
      · obtain ⟨n, rfl⟩ := Nat.exists_eq_succ_of_ne_zero hn
        simp [Binary64.compactText?, h, hwhole, hsmall]

theorem ofNumber_of_not_finite {x : Binary64} (h : x.isFinite = false) : ofNumber x = ['n', 'u', 'l', 'l'] := by
  simp [ofNumber, Binary64.compactText?, h]

/-- The text of a finite number is that of no other, but for the sign of zero. -/
theorem ofNumber_inj {x y : Binary64} (hx : x.isFinite = true) (hy : y.isFinite = true) (h : ofNumber x = ofNumber y) :
    x.canonical = y.canonical := by
  obtain ⟨t, ht⟩ := exists_numberText hx
  obtain ⟨u, hu⟩ := exists_numberText hy
  obtain rfl := ht.wellFormed.written_inj hu.wellFormed (by rw [← ht.written, ← hu.written, h])
  have hsame : x.code = y.code := by rw [← ht.nearestCode, ← hu.nearestCode]
  by_cases hzero : x.code = 0
  · have hzero' : y.code = 0 := by rw [← hsame, hzero]
    simp [Binary64.canonical, Binary64.isZero, hzero, hzero']
  · have hnegative : x.negative = y.negative := by
      rw [← ht.negative hzero, hu.negative (by rwa [← hsame])]
    obtain ⟨_, _, _⟩ := x
    obtain ⟨_, _, _⟩ := y
    simp only at hsame hnegative
    subst hsame hnegative
    rfl

end Json

end SentenceQuery
