import SentenceQuery.Text.Blank

/-!
# Longest beginnings over a class of characters

A text over a class, followed by one that does not start with a character of the class, is what a reader that takes as much
as it can takes of the two together. `Over` and `Stops` say the two halves of this, so that statements about texts need no
`takeWhile`.
-/

namespace SentenceQuery

/-- Every character of the text is of the class. -/
def Over (accepts : Char → Bool) (t : List Char) : Prop := ∀ c ∈ t, accepts c = true

/-- The text does not start with a character of the class. -/
def Stops (accepts : Char → Bool) (s : List Char) : Prop := ∀ c ∈ s.head?, accepts c = false

instance (accepts : Char → Bool) (t : List Char) : Decidable (Over accepts t) :=
  List.decidableBAll (fun c => accepts c = true) t

instance (accepts : Char → Bool) (s : List Char) : Decidable (Stops accepts s) :=
  Option.decidableForallMem (o := s.head?) (p := fun c => accepts c = false)

variable {accepts : Char → Bool} {s t r : List Char}

@[simp] theorem over_nil : Over accepts [] := by simp [Over]

@[simp] theorem over_cons {c : Char} : Over accepts (c :: t) ↔ accepts c = true ∧ Over accepts t := by simp [Over]

@[simp] theorem over_append : Over accepts (s ++ t) ↔ Over accepts s ∧ Over accepts t := by
  simp only [Over, List.mem_append]
  constructor
  · intro h
    exact ⟨fun c hc => h c (Or.inl hc), fun c hc => h c (Or.inr hc)⟩
  · rintro ⟨hs, ht⟩ c (hc | hc)
    · exact hs c hc
    · exact ht c hc

@[simp] theorem stops_nil : Stops accepts [] := by simp [Stops]

@[simp] theorem stops_cons {c : Char} : Stops accepts (c :: s) ↔ accepts c = false := by simp [Stops]

/-- Only the first character counts. -/
theorem stops_append (h : t ≠ []) : Stops accepts (t ++ s) ↔ Stops accepts t := by
  cases t with
  | nil => exact absurd rfl h
  | cons c t => simp

/-- A text goes on with a character outside the class, if not earlier. -/
theorem stops_append_cons {c : Char} (h : Stops accepts t) (hc : accepts c = false) (s : List Char) :
    Stops accepts (t ++ c :: s) := by
  cases t with
  | nil => exact stops_cons.2 hc
  | cons d t => exact stops_cons.2 (stops_cons.1 h)

theorem Over.mono {accepts' : Char → Bool} (h : Over accepts t) (hsub : ∀ c, accepts c = true → accepts' c = true) :
    Over accepts' t := fun c hc => hsub c (h c hc)

theorem takeWhile_append_of_stops (ht : Over accepts t) (hr : Stops accepts r) : (t ++ r).takeWhile accepts = t := by
  rw [List.takeWhile_append_of_pos ht]
  cases r with
  | nil => simp
  | cons c r =>
    have hc := stops_cons.1 hr
    simp [hc]

theorem dropWhile_append_of_stops (ht : Over accepts t) (hr : Stops accepts r) : (t ++ r).dropWhile accepts = r := by
  rw [List.dropWhile_append_of_pos ht]
  cases r with
  | nil => rfl
  | cons c r =>
    have hc := stops_cons.1 hr
    simp [hc]

theorem over_takeWhile (s : List Char) : Over accepts (s.takeWhile accepts) :=
  List.all_eq_true.1 List.all_takeWhile

theorem stops_dropWhile (s : List Char) : Stops accepts (s.dropWhile accepts) := by
  intro c hc
  have h := List.head?_dropWhile_not accepts s
  rw [Option.mem_def.1 hc] at h
  simpa using h

theorem stops_dropWhile_append (s : List Char) (hr : Stops accepts r) : Stops accepts (s.dropWhile accepts ++ r) := by
  cases hdrop : s.dropWhile accepts with
  | nil => exact hr
  | cons c t =>
    have hstop : Stops accepts (s.dropWhile accepts) := stops_dropWhile s
    rw [hdrop] at hstop
    exact stops_cons.2 (stops_cons.1 hstop)

/-- There is one way to cut a text after its longest beginning over a class. -/
theorem span_unique {t' r' : List Char} (h : t ++ r = t' ++ r') (ht : Over accepts t) (hr : Stops accepts r)
    (ht' : Over accepts t') (hr' : Stops accepts r') : t = t' ∧ r = r' := by
  constructor
  · rw [← takeWhile_append_of_stops ht hr, h, takeWhile_append_of_stops ht' hr']
  · rw [← dropWhile_append_of_stops ht hr, h, dropWhile_append_of_stops ht' hr']

end SentenceQuery
