import SentenceQuery.Proofs.Pattern.Run

/-!
# Patterns that take no quote

A pattern avoids a character if none of its classes and none of its literals takes it. Such a pattern ends before the first
of these characters that it meets, and what comes behind that character does not matter (`exists_run_append`): the outcome
is the same for every continuation, but for the rest. This is what keeps the content of a literal from being read as anything
else by the clauses around it.
-/

namespace SentenceQuery

/-- The outcome with more text after what it leaves. -/
def Outcome.extend {ρ : Type} (y : List Char) (o : Outcome ρ) : Outcome ρ := ⟨o.text, o.nodes, o.rest ++ y⟩

namespace Pattern

variable {ρ : Type}

/-- No class and no literal of the pattern takes the character. -/
def avoids (c : Char) : Pattern ρ → Bool
  | char accepts => !accepts c
  | literal text => !text.contains c
  | finish => true
  | seq p q => p.avoids c && q.avoids c
  | choice p q => p.avoids c && q.avoids c
  | many p => p.avoids c
  | present p => p.avoids c
  | absent p => p.avoids c
  | node _ p => p.avoids c
  | token _ p => p.avoids c

/-- A literal without a character is found before the character or not at all. -/
theorem dropLiteral?_append {c : Char} {text : List Char} (h : c ∉ text) (x : List Char) :
    ∃ r : Option (List Char), ∀ y, dropLiteral? text (x ++ c :: y) = r.map (· ++ c :: y) := by
  induction text generalizing x with
  | nil => exact ⟨some x, fun y => rfl⟩
  | cons d text ih =>
    have hd : d ≠ c := fun hd => h (hd ▸ List.mem_cons_self)
    cases x with
    | nil => exact ⟨none, fun y => by simp [dropLiteral?, hd]⟩
    | cons e x =>
      by_cases he : d = e
      · obtain ⟨r, hr⟩ := ih (fun hc => h (List.mem_cons_of_mem _ hc)) x
        exact ⟨r, fun y => by simp [dropLiteral?, he, hr]⟩
      · exact ⟨none, fun y => by simp [dropLiteral?, he]⟩

/-- A repetition whose steps do not look behind a character does not either. -/
theorem exists_repeated_append {p : Pattern ρ} {c : Char}
    (hp : ∀ offset x, ∃ r : Option (Outcome ρ), ∀ y, p.run offset (x ++ c :: y) = r.map (Outcome.extend (c :: y)))
    (n offset : Nat) (x : List Char) (hx : x.length ≤ n) :
    ∃ o : Outcome ρ, ∀ y, Repeated p.run offset (x ++ c :: y) (o.extend (c :: y)) := by
  have hstop : ∀ offset x, (∀ y one, p.run offset (x ++ c :: y) = some one → one.text = []) →
      ∃ o : Outcome ρ, ∀ y, Repeated p.run offset (x ++ c :: y) (o.extend (c :: y)) :=
    fun offset x h => ⟨⟨[], [], x⟩, fun y => Repeated.stop (h y)⟩
  induction n generalizing offset x with
  | zero =>
    obtain rfl : x = [] := List.length_eq_zero_iff.1 (by omega)
    refine hstop offset [] fun y one h => ?_
    obtain ⟨r, hr⟩ := hp offset []
    rw [hr, Option.map_eq_some_iff] at h
    obtain ⟨one, rfl, rfl⟩ := h
    have hsplit := congrArg List.length (run_splits (hr y))
    simp only [Outcome.extend, List.length_append, List.length_nil] at hsplit ⊢
    exact List.length_eq_zero_iff.1 (by omega)
  | succ n ih =>
    obtain ⟨r, hr⟩ := hp offset x
    cases r with
    | none => exact hstop offset x fun y one h => by simp [hr] at h
    | some one =>
      by_cases hnil : one.text = []
      · refine hstop offset x fun y one' h => ?_
        rw [hr, Option.map_some, Option.some.injEq] at h
        subst h
        exact hnil
      · have hlen := congrArg List.length (run_splits (hr []))
        have hpos := List.length_pos_iff.2 hnil
        simp only [Outcome.extend, List.length_append] at hlen
        obtain ⟨more, hmore⟩ := ih (offset + byteSize one.text) one.rest (by omega)
        refine ⟨⟨one.text ++ more.text, one.nodes ++ more.nodes, more.rest⟩, fun y => ?_⟩
        exact Repeated.more (hr y) hnil (hmore y)

/-- What comes behind a character that a pattern avoids does not matter to it. -/
theorem exists_run_append {p : Pattern ρ} {c : Char} (h : p.avoids c = true) (offset : Nat) (x : List Char) :
    ∃ r : Option (Outcome ρ), ∀ y, p.run offset (x ++ c :: y) = r.map (Outcome.extend (c :: y)) := by
  induction p generalizing offset x with
  | char accepts =>
    simp only [avoids, Bool.not_eq_true'] at h
    cases x with
    | nil => exact ⟨none, fun y => by simp [run, h]⟩
    | cons d x =>
      by_cases hd : accepts d = true
      · exact ⟨some ⟨[d], [], x⟩, fun y => by simp [run, hd, Outcome.extend]⟩
      · exact ⟨none, fun y => by simp [run, hd]⟩
  | literal text =>
    have hc : c ∉ text := by simpa [avoids] using h
    obtain ⟨r, hr⟩ := dropLiteral?_append hc x
    refine ⟨r.map fun rest => ⟨text, [], rest⟩, fun y => ?_⟩
    rw [run, hr]
    cases r <;> rfl
  | finish => exact ⟨none, fun y => by simp [run]⟩
  | seq p q ihp ihq =>
    simp only [avoids, Bool.and_eq_true] at h
    obtain ⟨r, hr⟩ := ihp h.1 offset x
    cases r with
    | none => exact ⟨none, fun y => by simp [run, hr]⟩
    | some one =>
      obtain ⟨r', hr'⟩ := ihq h.2 (offset + byteSize one.text) one.rest
      refine ⟨r'.map fun two => ⟨one.text ++ two.text, one.nodes ++ two.nodes, two.rest⟩, fun y => ?_⟩
      simp only [run, hr, Option.map_some, Outcome.extend, hr']
      cases r' <;> rfl
  | choice p q ihp ihq =>
    simp only [avoids, Bool.and_eq_true] at h
    obtain ⟨r, hr⟩ := ihp h.1 offset x
    obtain ⟨r', hr'⟩ := ihq h.2 offset x
    refine ⟨r.or r', fun y => ?_⟩
    rw [run, hr, hr']
    cases r <;> rfl
  | many p ih =>
    obtain ⟨o, ho⟩ := exists_repeated_append (ih h) x.length offset x (Nat.le_refl _)
    exact ⟨some o, fun y => run_many_eq_some.2 (ho y)⟩
  | present p ih =>
    obtain ⟨r, hr⟩ := ih h offset x
    refine ⟨r.map fun _ => ⟨[], [], x⟩, fun y => ?_⟩
    rw [run, hr]
    cases r <;> rfl
  | absent p ih =>
    obtain ⟨r, hr⟩ := ih h offset x
    cases r with
    | none => exact ⟨some ⟨[], [], x⟩, fun y => by simp [run, hr, Outcome.extend]⟩
    | some one => exact ⟨none, fun y => by simp [run, hr]⟩
  | node rule p ih =>
    obtain ⟨r, hr⟩ := ih h offset x
    refine ⟨r.map fun one => ⟨one.text, [⟨rule, offset, one.text, one.nodes⟩], one.rest⟩, fun y => ?_⟩
    rw [run, hr]
    cases r <;> rfl
  | token rule p ih =>
    obtain ⟨r, hr⟩ := ih h offset x
    refine ⟨r.map fun one => ⟨one.text, [⟨rule, offset, one.text, []⟩], one.rest⟩, fun y => ?_⟩
    rw [run, hr]
    cases r <;> rfl

end Pattern

end SentenceQuery
