import SentenceQuery.Proofs.Query.CanonicalText
import SentenceQuery.Proofs.Sentence.WellFormed
import SentenceQuery.Query.Fingerprint

/-!
# What the fingerprint of a sentence tells

The fingerprint of a plan is the digest of its canonical text. Sentences with different plans have different texts as long as
their literals are below 2^1024 - 2^970, and such a text is read as a plan again (`toJson_of_ofSentence`). A literal from there on is
accepted too, stands for infinity, and is written as null: two such sentences may share their text, and the text is not read
(`toJson_of_ofSentence_overflow`).
-/

namespace SentenceQuery

open Json Grammar Sentence

/-! ## Literals -/

namespace Numeral

/-- The exact decimal that a numeral stands for, without its sign. -/
def form (n : Numeral) : DecimalForm := .ofDigits n.whole (n.fraction.getD []) 0

/-- The numeral is less than 2^1024 - 2^970 in magnitude, halfway from the largest finite number to 2^1024. -/
def InRange (n : Numeral) : Prop := n.form.num < n.form.den * (twoPow 1024 - twoPow 970)

/-- The numerals in range are those that stand for finite numbers. -/
theorem isFinite_value_iff (n : Numeral) : n.value.isFinite = true ↔ n.InRange := by
  have hcode : n.value.code = min n.form.nearestCode Binary64.infinityCode := rfl
  rw [Binary64.isFinite, decide_eq_true_eq, hcode, InRange, ← Binary64.nearestCode_lt_infinityCode_iff _ n.form.den_pos,
    ← DecimalForm.nearestCode_eq]
  omega

end Numeral

/-- The numbers of an accepted sentence are those of its numerals. -/
theorem exists_numeral_of_mem_numbers {s : String} {p : Plan} (h : Plan.ofSentence s = .ok p) {x : Binary64}
    (hx : x ∈ p.numbers) : ∃ n : Numeral, n.WellFormed ∧ x = n.value := by
  obtain ⟨head, _, _, _, criteria, tail, -, hfilter, hread, -, rfl, -⟩ := ofSentence_eq_ok.1 h
  obtain ⟨c, hc, hvalue⟩ := Plan.mem_numbers.1 hx
  have hmem : c ∈ criteria := hc
  clear hc
  obtain ⟨i, hi, rfl⟩ := List.mem_iff_getElem.1 hmem
  obtain ⟨_, _, ⟨_, l, -, -, hliteral, -⟩, -⟩ := says_of_readFilter hfilter hread i hi
  rw [hvalue] at hliteral
  cases hliteral with
  | number hn => exact ⟨_, hn, rfl⟩

/-! ## Canonical texts -/

/-- The text of the cell is that of no cell that does not count as the same. -/
def Cell.Identified (c : Cell) : Prop := ∀ d : Cell, d.toJson = c.toJson → d.Same c

theorem Cell.identified_of_isFinite {c : Cell} (hc : c.IsFinite) : c.Identified := fun _ hd =>
  (Cell.same_of_toJson_eq hc hd.symm).symm

/-- An infinity is written as the other infinity is. -/
theorem Cell.not_identified_infinity (negative : Bool) : ¬(Cell.number (.infinity negative)).Identified := by
  intro h
  have htext : (Cell.number (.infinity !negative)).toJson = (Cell.number (.infinity negative)).toJson :=
    (ofNumber_of_not_finite rfl).trans (ofNumber_of_not_finite rfl).symm
  have hsame := h _ htext
  revert hsame
  cases negative <;> decide

namespace Numeral

/-- A numeral out of range stands for an infinity. -/
theorem value_eq_infinity {n : Numeral} (h : n.value.isFinite = false) : n.value = .infinity n.negative := by
  have hcode : n.value.code = min n.form.nearestCode Binary64.infinityCode := rfl
  have hlarge : ¬n.value.code < Binary64.infinityCode := of_decide_eq_false h
  have hmin : min n.form.nearestCode Binary64.infinityCode = Binary64.infinityCode := by omega
  simp only [value, Binary64.ofDecimal, Binary64.ofCode, Binary64.infinity, Binary64.mk.injEq, true_and]
  exact hmin

/-- The numerals in range are those that are written so that they are told apart from every other value. -/
theorem identified_iff (n : Numeral) : (Cell.number n.value).Identified ↔ n.InRange := by
  rw [← n.isFinite_value_iff]
  constructor
  · intro h
    by_contra hinfinite
    rw [value_eq_infinity (Bool.eq_false_iff.2 hinfinite)] at h
    exact Cell.not_identified_infinity _ h
  · intro hfinite
    exact Cell.identified_of_isFinite fun x hx => by cases hx; exact hfinite

/-- The numerals in range are those that are written so that they are read as numbers. -/
theorem exists_readNumber_iff (n : Numeral) : (∃ y, readNumber (ofNumber n.value) = .ok (y, [])) ↔ n.InRange := by
  rw [← n.isFinite_value_iff]
  constructor
  · rintro ⟨y, hread⟩
    by_contra hinfinite
    rw [ofNumber_of_not_finite (Bool.eq_false_iff.2 hinfinite)] at hread
    cases hread
  · intro hfinite
    obtain ⟨y, hreads⟩ := exists_reads_number hfinite
    exact ⟨y, hreads.eq_ok⟩

end Numeral

/-- Where the literals of a sentence are in range, its canonical text is that of no sentence with a different plan, and is read as
a plan again. The literals in range are just those that are written so that they are told apart from every other value, and just those
that are written so that they are read as numbers. -/
theorem toJson_of_ofSentence {s : String} {p : Plan} (hs : Plan.ofSentence s = .ok p)
    (hfinite : ∀ x ∈ p.numbers, x.isFinite = true) :
    (∀ (t : String) (q : Plan), Plan.ofSentence t = .ok q → ¬p.Same q → p.toJson ≠ q.toJson) ∧
      (∃ criteria, Plan.ofJson (String.ofList p.toJson) = .ok { p with criteria := criteria }) ∧
      (∀ x ∈ p.numbers, ∃ n : Numeral, n.WellFormed ∧ n.InRange ∧ x = n.value) ∧
      ∀ n : Numeral, n.WellFormed → (n.value.isFinite = true ↔ n.InRange) ∧
        ((Cell.number n.value).Identified ↔ n.InRange) ∧
        ((∃ y, readNumber (ofNumber n.value) = .ok (y, [])) ↔ n.InRange) := by
  obtain ⟨criteria, -, htext⟩ := Plan.exists_ofJson_toJson hfinite
  refine ⟨?_, ⟨criteria, htext⟩, ?_, fun n _ => ⟨n.isFinite_value_iff, n.identified_iff, n.exists_readNumber_iff⟩⟩
  · intro t q _ hdifferent heq
    exact hdifferent (Plan.same_of_toJson_eq hfinite heq)
  · intro x hx
    obtain ⟨n, hn, rfl⟩ := exists_numeral_of_mem_numbers hs hx
    exact ⟨n, hn, n.isFinite_value_iff.1 (hfinite _ hx), rfl⟩

/-- Two sentences whose literals differ in the last digit. -/
theorem toJson_of_ofSentence_places :
    ∃ p q : Plan,
      (Plan.ofSentence "In courses dataset sfu, find entries whose Average is less than 97.5; show Average." = .ok p ∧
        Plan.ofSentence "In courses dataset sfu, find entries whose Average is less than 97.6; show Average." = .ok q) ∧
      p.toJson ≠ q.toJson ∧
      (∃ criteria, Plan.ofJson (String.ofList p.toJson) = .ok { p with criteria := criteria }) ∧
      (Cell.number (Numeral.mk false ['9', '7'] (some ['5'])).value).Identified := by
  have hfirst : Plan.ofSentence "In courses dataset sfu, find entries whose Average is less than 97.5; show Average." =
      .ok ⟨.courses, "sfu", [⟨"avg", .number .lessThan, .number (.ofDecimal false ⟨975, -1⟩), none⟩], ["avg"], [], [],
        .unsorted, none⟩ := by decide +kernel
  have hsecond : Plan.ofSentence "In courses dataset sfu, find entries whose Average is less than 97.6; show Average." =
      .ok ⟨.courses, "sfu", [⟨"avg", .number .lessThan, .number (.ofDecimal false ⟨976, -1⟩), none⟩], ["avg"], [], [],
        .unsorted, none⟩ := by decide +kernel
  have hwellFormed : (Numeral.mk false ['9', '7'] (some ['5'])).WellFormed := by
    simp [Numeral.WellFormed]
  obtain ⟨hseparate, hread, -, hliteral⟩ := toJson_of_ofSentence hfirst (by decide +kernel)
  refine ⟨_, _, ⟨hfirst, hsecond⟩, ?_, hread, ?_⟩
  · exact hseparate _ _ hsecond (by decide +kernel)
  · exact (hliteral _ hwellFormed).2.1.2 (by unfold Numeral.InRange; decide +kernel)

/-- A sentence with a literal of 310 digits, out of range. -/
def overflowSentence (negative : Bool) : String :=
  "In courses dataset sfu, find entries whose Average is less than " ++ (if negative then "-" else "") ++
    String.ofList ('1' :: List.replicate 309 '0') ++ "; show Average."

/-- A literal out of range is accepted and stands for the infinity of its sign. -/
theorem ofSentence_overflowSentence (negative : Bool) : Plan.ofSentence (overflowSentence negative) =
    .ok ⟨.courses, "sfu", [⟨"avg", .number .lessThan, .number (.infinity negative), none⟩], ["avg"], [], [], .unsorted, none⟩ := by
  -- the text is put together of characters first: evaluating the strings would take most of the time
  unfold overflowSentence Plan.ofSentence
  simp only [String.toList_append, String.toList_ofList]
  cases negative <;> decide +kernel

/-- The two sentences differ in the sign of their literal, and their plans compare with different infinities; yet they have one
canonical text, and it is not read as a plan. -/
theorem toJson_of_ofSentence_overflow :
    ∃ p q : Plan, Plan.ofSentence (overflowSentence false) = .ok p ∧ Plan.ofSentence (overflowSentence true) = .ok q ∧
      ¬p.Same q ∧ p.toJson = q.toJson ∧ Plan.ofJson (String.ofList p.toJson) = .error .wrongShape := by
  refine ⟨_, _, ofSentence_overflowSentence false, ofSentence_overflowSentence true, by decide +kernel, by decide +kernel, ?_⟩
  rw [Plan.ofJson, String.toList_ofList]
  decide +kernel

end SentenceQuery
