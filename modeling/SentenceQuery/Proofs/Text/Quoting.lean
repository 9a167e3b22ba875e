import SentenceQuery.Proofs.Text.Span

/-!
# Texts with quoted parts

A reader that passes over quoted parts looks only at the characters outside quotes. `Closed` says that every quote is closed
and that the characters outside are of a class; what stands in quotes can be replaced by any text without quotes
(`Closed.replace`). The place of a quoted part is known from the number of quotes before it, which is even.
-/

namespace SentenceQuery

/-- The text has no quote. -/
abbrev Unquoted (t : List Char) : Prop := '"' ∉ t

theorem over_notQuote_iff {t : List Char} : Over (fun c => !decide ('"' = c)) t ↔ Unquoted t := by
  simp only [Over, Bool.not_eq_true', decide_eq_false_iff_not]
  constructor
  · intro h hmem
    exact h _ hmem rfl
  · rintro h c hc rfl
    exact h hc

/-- There is one way to cut a text at its first quote. -/
theorem unquoted_unique {q v s t : List Char} (hq : Unquoted q) (hv : Unquoted v)
    (h : q ++ '"' :: s = v ++ '"' :: t) : q = v ∧ s = t := by
  have hstops : ∀ x, Stops (fun c => !decide ('"' = c)) ('"' :: x) := fun x => stops_cons.2 (by decide)
  obtain ⟨rfl, hcons⟩ := span_unique h (over_notQuote_iff.2 hq) (hstops s) (over_notQuote_iff.2 hv) (hstops t)
  exact ⟨rfl, (List.cons.inj hcons).2⟩

/-- A quote behind a text without quotes stands in what follows that text. -/
theorem exists_of_unquoted_append {g t a x : List Char} (hg : Unquoted g) (h : g ++ t = a ++ '"' :: x) :
    ∃ a', a = g ++ a' ∧ t = a' ++ '"' :: x := by
  rcases List.append_eq_append_iff.1 h with ⟨a', rfl, ht⟩ | ⟨g', rfl, ht⟩
  · exact ⟨a', rfl, ht⟩
  · cases g' with
    | nil => exact ⟨[], by simp, ht.symm⟩
    | cons c g' =>
      obtain ⟨rfl, -⟩ := List.cons.inj ht
      exact absurd (by simp) hg

/-- The number of quotes is even. -/
def EvenQuotes (t : List Char) : Prop := t.count '"' % 2 = 0

instance (t : List Char) : Decidable (EvenQuotes t) := inferInstanceAs (Decidable (_ = _))

theorem Unquoted.evenQuotes {t : List Char} (h : Unquoted t) : EvenQuotes t := by
  rw [EvenQuotes, List.count_eq_zero_of_not_mem h]

theorem evenQuotes_append {s t : List Char} (hs : EvenQuotes s) : EvenQuotes (s ++ t) ↔ EvenQuotes t := by
  simp only [EvenQuotes, List.count_append] at *
  omega

theorem evenQuotes_quoted {q t : List Char} (hq : Unquoted q) : EvenQuotes ('"' :: (q ++ '"' :: t)) ↔ EvenQuotes t := by
  simp only [EvenQuotes, List.count_cons_self, List.count_append, List.count_eq_zero_of_not_mem hq]
  omega

theorem evenQuotes_cons {c : Char} {t : List Char} (h : c ≠ '"') : EvenQuotes (c :: t) ↔ EvenQuotes t := by
  rw [EvenQuotes, List.count_cons_of_ne h, EvenQuotes]

/-- A quote that opens is closed, if the number of quotes is even. -/
theorem exists_close {t : List Char} (h : EvenQuotes ('"' :: t)) :
    ∃ q r, t = q ++ '"' :: r ∧ Unquoted q ∧ EvenQuotes r := by
  have hmem : '"' ∈ t := by
    rw [EvenQuotes, List.count_cons_self] at h
    exact List.count_pos_iff.1 (by omega)
  obtain ⟨q, r, rfl, hq⟩ := List.eq_append_cons_of_mem hmem
  exact ⟨q, r, rfl, hq, (evenQuotes_quoted hq).1 h⟩

/-- Texts in which every quote is closed and the characters outside quotes are of a class. -/
inductive Closed (outside : Char → Bool) : List Char → Prop where
  | nil : Closed outside []
  | char {c : Char} {t : List Char} (hquote : c ≠ '"') (hc : outside c = true) (h : Closed outside t) :
      Closed outside (c :: t)
  | quoted {q t : List Char} (hq : Unquoted q) (h : Closed outside t) : Closed outside ('"' :: (q ++ '"' :: t))

namespace Closed

variable {outside : Char → Bool} {s t : List Char}

theorem evenQuotes (h : Closed outside t) : EvenQuotes t := by
  induction h with
  | nil => rfl
  | char hquote _ _ ih => exact (evenQuotes_cons hquote).2 ih
  | quoted hq _ ih => exact (evenQuotes_quoted hq).2 ih

theorem append (hs : Closed outside s) (ht : Closed outside t) : Closed outside (s ++ t) := by
  induction hs with
  | nil => exact ht
  | char hquote hc _ ih => exact Closed.char hquote hc ih
  | @quoted q s hq _ ih =>
    have hclosed := Closed.quoted hq ih
    simpa using hclosed

/-- A text over the class without quotes is closed. -/
theorem of_over (h : Over outside t) (hquote : Unquoted t) : Closed outside t := by
  induction t with
  | nil => exact Closed.nil
  | cons c t ih =>
    obtain ⟨hc, ht⟩ := over_cons.1 h
    simp only [Unquoted, List.mem_cons, not_or] at hquote
    exact Closed.char (Ne.symm hquote.1) hc (ih ht hquote.2)

/-- What stands in quotes can be replaced: the text stays closed. -/
theorem replace {a v w b : List Char} (h : Closed outside s) (hs : s = a ++ '"' :: (v ++ '"' :: b)) (ha : EvenQuotes a)
    (hv : Unquoted v) (hw : Unquoted w) : Closed outside (a ++ '"' :: (w ++ '"' :: b)) := by
  induction h generalizing a with
  | nil => cases a <;> cases hs
  | @char c t hquote hc _ ih =>
    cases a with
    | nil =>
      cases hs
      exact absurd rfl hquote
    | cons d a =>
      obtain ⟨rfl, hrest⟩ := List.cons.inj hs
      exact Closed.char hquote hc (ih hrest ((evenQuotes_cons hquote).1 ha))
  | @quoted q t hq ht ih =>
    cases a with
    | nil =>
      obtain ⟨-, hrest⟩ := List.cons.inj hs
      obtain ⟨rfl, rfl⟩ := unquoted_unique hq hv hrest
      exact Closed.quoted hw ht
    | cons d a =>
      obtain ⟨rfl, hrest⟩ := List.cons.inj hs
      -- the quote that closes the first one stands before the text that is replaced
      obtain ⟨q', a', rfl, hq', ha'⟩ := exists_close ha
      simp only [List.append_eq, List.append_assoc, List.cons_append] at hrest
      obtain ⟨rfl, rfl⟩ := unquoted_unique hq hq' hrest
      have hclosed := Closed.quoted hq (ih rfl ha')
      simpa using hclosed

/-- A quoted part that starts in a closed text ends in it. -/
theorem exists_of_append {a v b r : List Char} {x : List Char} (h : Closed outside (a ++ '"' :: x)) (ha : EvenQuotes a)
    (hv : Unquoted v) (hx : x ++ r = v ++ '"' :: b) : ∃ y, x = v ++ '"' :: y ∧ b = y ++ r := by
  obtain ⟨q, y, rfl, hq, -⟩ := exists_close ((evenQuotes_append ha).1 h.evenQuotes)
  rw [List.append_assoc, List.cons_append] at hx
  obtain ⟨rfl, rfl⟩ := unquoted_unique hq hv hx
  exact ⟨y, rfl, rfl⟩

end Closed

end SentenceQuery
