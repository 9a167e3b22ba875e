import SentenceQuery.Grammar.Pattern

/-!
# What a run of a pattern says

One statement for each way to build a pattern: when it matches, and with which outcome. They are read from left to right to
take a run apart, and from right to left to build one. A repetition is described by `Repeated`, which has no fuel: its two
cases are the two ways in which a step goes on, so what a repetition takes is found by induction on it.

Two facts hold of every pattern. What it takes and what it leaves make up the text (`run_splits`), and the offset shows only
in where the nodes start (`run_shift`).
-/

namespace SentenceQuery

namespace Pattern

variable {ρ : Type}

-- The equations of a run are made here, once, so that the statements below need not wait for one another.
attribute [grind] dropLiteral? repeatStep run

/-! ## One statement for each way to build a pattern -/

theorem dropLiteral?_eq_some {text s rest : List Char} : dropLiteral? text s = some rest ↔ s = text ++ rest := by
  induction text generalizing s with
  | nil => simp [dropLiteral?]
  | cons c text ih =>
    cases s with
    | nil => simp [dropLiteral?]
    | cons d s =>
      by_cases h : c = d
      · simp [dropLiteral?, h, ih]
      · simp [dropLiteral?, h, Ne.symm h]

theorem run_char_eq_some {accepts : Char → Bool} {offset : Nat} {s : List Char} {o : Outcome ρ} :
    (char accepts).run offset s = some o ↔ ∃ c rest, s = c :: rest ∧ accepts c = true ∧ o = ⟨[c], [], rest⟩ := by
  cases s with
  | nil => simp [run]
  | cons c rest =>
    by_cases h : accepts c = true
    · simp only [run, h, if_true, Option.some.injEq]
      constructor
      · rintro rfl
        exact ⟨c, rest, rfl, h, rfl⟩
      · rintro ⟨c', rest', hs, -, rfl⟩
        cases hs
        rfl
    · simp [run, h]

theorem run_literal_eq_some {text : List Char} {offset : Nat} {s : List Char} {o : Outcome ρ} :
    (literal text).run offset s = some o ↔ ∃ rest, s = text ++ rest ∧ o = ⟨text, [], rest⟩ := by
  simp only [run, Option.map_eq_some_iff, dropLiteral?_eq_some]
  constructor
  · rintro ⟨rest, hs, rfl⟩
    exact ⟨rest, hs, rfl⟩
  · rintro ⟨rest, hs, rfl⟩
    exact ⟨rest, hs, rfl⟩

theorem run_text_eq_some {text : String} {offset : Nat} {s : List Char} {o : Outcome ρ} :
    (Pattern.text text).run offset s = some o ↔ ∃ rest, s = text.toList ++ rest ∧ o = ⟨text.toList, [], rest⟩ :=
  run_literal_eq_some

theorem run_finish_eq_some {offset : Nat} {s : List Char} {o : Outcome ρ} :
    (finish : Pattern ρ).run offset s = some o ↔ s = [] ∧ o = ⟨[], [], []⟩ := by
  cases s <;> simp [run, eq_comm]

theorem run_seq_eq_some {p q : Pattern ρ} {offset : Nat} {s : List Char} {o : Outcome ρ} :
    (seq p q).run offset s = some o ↔ ∃ one two, p.run offset s = some one ∧
      q.run (offset + byteSize one.text) one.rest = some two ∧
      o = ⟨one.text ++ two.text, one.nodes ++ two.nodes, two.rest⟩ := by
  rw [run]
  cases hp : p.run offset s with
  | none => simp
  | some one => cases hq : q.run (offset + byteSize one.text) one.rest <;> simp [hq, eq_comm]

theorem run_choice_eq_some {p q : Pattern ρ} {offset : Nat} {s : List Char} {o : Outcome ρ} :
    (choice p q).run offset s = some o ↔
      p.run offset s = some o ∨ p.run offset s = none ∧ q.run offset s = some o := by
  rw [run]
  cases hp : p.run offset s <;> simp

theorem run_present_eq_some {p : Pattern ρ} {offset : Nat} {s : List Char} {o : Outcome ρ} :
    (present p).run offset s = some o ↔ (∃ one, p.run offset s = some one) ∧ o = ⟨[], [], s⟩ := by
  rw [run]
  cases hp : p.run offset s <;> simp [eq_comm]

theorem run_absent_eq_some {p : Pattern ρ} {offset : Nat} {s : List Char} {o : Outcome ρ} :
    (absent p).run offset s = some o ↔ p.run offset s = none ∧ o = ⟨[], [], s⟩ := by
  rw [run]
  cases hp : p.run offset s <;> simp [eq_comm]

theorem run_node_eq_some {rule : ρ} {p : Pattern ρ} {offset : Nat} {s : List Char} {o : Outcome ρ} :
    (node rule p).run offset s = some o ↔ ∃ one, p.run offset s = some one ∧
      o = ⟨one.text, [⟨rule, offset, one.text, one.nodes⟩], one.rest⟩ := by
  rw [run]
  cases hp : p.run offset s <;> simp [eq_comm]

theorem run_token_eq_some {rule : ρ} {p : Pattern ρ} {offset : Nat} {s : List Char} {o : Outcome ρ} :
    (token rule p).run offset s = some o ↔ ∃ one, p.run offset s = some one ∧
      o = ⟨one.text, [⟨rule, offset, one.text, []⟩], one.rest⟩ := by
  rw [run]
  cases hp : p.run offset s <;> simp [eq_comm]

theorem run_optional_eq_some {p : Pattern ρ} {offset : Nat} {s : List Char} {o : Outcome ρ} :
    (Pattern.optional p).run offset s = some o ↔
      p.run offset s = some o ∨ p.run offset s = none ∧ o = ⟨[], [], s⟩ := by
  rw [Pattern.optional, run_choice_eq_some, run_literal_eq_some]
  constructor
  · rintro (h | ⟨h, rest, rfl, rfl⟩)
    · exact Or.inl h
    · exact Or.inr ⟨h, rfl⟩
  · rintro (h | ⟨h, rfl⟩)
    · exact Or.inl h
    · exact Or.inr ⟨h, s, rfl, rfl⟩

/-! ## Repetition without fuel -/

/-- The outcome of a step taken again and again: it ends where the step fails or takes nothing, and goes on from where the
step ends otherwise. -/
inductive Repeated (step : Nat → List Char → Option (Outcome ρ)) : Nat → List Char → Outcome ρ → Prop where
  | stop {offset : Nat} {s : List Char} (h : ∀ one, step offset s = some one → one.text = []) :
      Repeated step offset s ⟨[], [], s⟩
  | more {offset : Nat} {s : List Char} {one more : Outcome ρ} (h : step offset s = some one) (hne : one.text ≠ [])
      (hmore : Repeated step (offset + byteSize one.text) one.rest more) :
      Repeated step offset s ⟨one.text ++ more.text, one.nodes ++ more.nodes, more.rest⟩

/-- A repetition has one outcome. -/
theorem Repeated.unique {step : Nat → List Char → Option (Outcome ρ)} {offset : Nat} {s : List Char} {o o' : Outcome ρ}
    (h : Repeated step offset s o) (h' : Repeated step offset s o') : o = o' := by
  induction h generalizing o' with
  | stop hstop =>
    cases h' with
    | stop => rfl
    | more h hne => exact absurd (hstop _ h) hne
  | more h hne _ ih =>
    cases h' with
    | stop hstop => exact absurd (hstop _ h) hne
    | more h' _ hmore' =>
      rw [h] at h'
      cases h'
      rw [ih hmore']

/-- What a repetition takes and what it leaves make up the text, if that holds of each step. -/
theorem Repeated.splits {step : Nat → List Char → Option (Outcome ρ)} {offset : Nat} {s : List Char} {o : Outcome ρ}
    (hstep : ∀ offset s o, step offset s = some o → s = o.text ++ o.rest) (h : Repeated step offset s o) :
    s = o.text ++ o.rest := by
  induction h with
  | stop => rfl
  | more h _ _ ih => rw [hstep _ _ _ h, ih, List.append_assoc]

/-- Where a repetition ends, a further step would fail or take nothing. -/
theorem Repeated.stops {step : Nat → List Char → Option (Outcome ρ)} {offset : Nat} {s : List Char} {o : Outcome ρ}
    (h : Repeated step offset s o) : ∃ offset', ∀ one, step offset' o.rest = some one → one.text = [] := by
  induction h with
  | stop h => exact ⟨_, h⟩
  | more _ _ _ ih => exact ih

/-- With as much fuel as there are characters the steps end by themselves. -/
theorem repeated_repeatStep {step : Nat → List Char → Option (Outcome ρ)}
    (hstep : ∀ offset s o, step offset s = some o → s = o.text ++ o.rest) (fuel offset : Nat) (s : List Char)
    (hfuel : s.length ≤ fuel) : Repeated step offset s (repeatStep step fuel offset s) := by
  induction fuel generalizing offset s with
  | zero =>
    obtain rfl : s = [] := List.length_eq_zero_iff.1 (by omega)
    refine Repeated.stop fun one h => ?_
    have := hstep _ _ _ h
    simp only [List.nil_eq, List.append_eq_nil_iff] at this
    exact this.1
  | succ fuel ih =>
    rw [repeatStep]
    split
    · rename_i h
      exact Repeated.stop fun one h' => by rw [h] at h'; cases h'
    · rename_i one h
      split
      · rename_i hnil
        refine Repeated.stop fun one' h' => ?_
        rw [h] at h'
        cases h'
        exact hnil
      · rename_i hne
        refine Repeated.more h hne (ih _ _ ?_)
        have hlen := congrArg List.length (hstep _ _ _ h)
        have hpos := List.length_pos_iff.2 hne
        rw [List.length_append] at hlen
        omega

/-- What a pattern takes and what it leaves make up the text. -/
theorem run_splits {p : Pattern ρ} {offset : Nat} {s : List Char} {o : Outcome ρ} (h : p.run offset s = some o) :
    s = o.text ++ o.rest := by
  induction p generalizing offset s o with
  | char accepts =>
    obtain ⟨c, rest, rfl, -, rfl⟩ := run_char_eq_some.1 h
    rfl
  | literal text =>
    obtain ⟨rest, rfl, rfl⟩ := run_literal_eq_some.1 h
    rfl
  | finish =>
    obtain ⟨rfl, rfl⟩ := run_finish_eq_some.1 h
    rfl
  | seq p q ihp ihq =>
    obtain ⟨one, two, h₁, h₂, rfl⟩ := run_seq_eq_some.1 h
    rw [ihp h₁, ihq h₂, List.append_assoc]
  | choice p q ihp ihq =>
    rcases run_choice_eq_some.1 h with h | ⟨-, h⟩
    · exact ihp h
    · exact ihq h
  | many p ih =>
    simp only [run, Option.some.injEq] at h
    subst h
    exact (repeated_repeatStep (fun _ _ _ => ih) _ _ _ (Nat.le_refl _)).splits fun _ _ _ => ih
  | present p ih =>
    obtain ⟨-, rfl⟩ := run_present_eq_some.1 h
    rfl
  | absent p ih =>
    obtain ⟨-, rfl⟩ := run_absent_eq_some.1 h
    rfl
  | node rule p ih =>
    obtain ⟨one, hone, rfl⟩ := run_node_eq_some.1 h
    have hsplit := ih hone
    exact hsplit
  | token rule p ih =>
    obtain ⟨one, hone, rfl⟩ := run_token_eq_some.1 h
    have hsplit := ih hone
    exact hsplit

theorem run_many_eq_some {p : Pattern ρ} {offset : Nat} {s : List Char} {o : Outcome ρ} :
    (many p).run offset s = some o ↔ Repeated p.run offset s o := by
  have hrun : Repeated p.run offset s (repeatStep p.run s.length offset s) :=
    repeated_repeatStep (fun _ _ _ => run_splits) _ _ _ (Nat.le_refl _)
  simp only [run, Option.some.injEq]
  constructor
  · rintro rfl
    exact hrun
  · exact fun h => hrun.unique h

/-! ## Offsets -/

end Pattern

/-- The node with everything in it so many bytes further on. -/
def Node.shift {ρ : Type} (d : Nat) : Node ρ → Node ρ
  | ⟨rule, start, text, inner⟩ => ⟨rule, start + d, text, inner.map (Node.shift d)⟩

namespace Node

variable {ρ : Type}

@[simp] theorem shift_rule (d : Nat) (n : Node ρ) : (n.shift d).rule = n.rule := by
  cases n
  rw [shift]

@[simp] theorem shift_text (d : Nat) (n : Node ρ) : (n.shift d).text = n.text := by
  cases n
  rw [shift]

@[simp] theorem shift_inner (d : Nat) (n : Node ρ) : (n.shift d).inner = n.inner.map (Node.shift d) := by
  cases n
  rw [shift]

@[simp] theorem shift_string (d : Nat) (n : Node ρ) : (n.shift d).string = n.string := by
  rw [string, string, shift_text]

end Node

/-- The outcome with every node so many bytes further on. -/
def Outcome.shift {ρ : Type} (d : Nat) (o : Outcome ρ) : Outcome ρ := ⟨o.text, o.nodes.map (Node.shift d), o.rest⟩

namespace Pattern

variable {ρ : Type}

theorem Repeated.shift {step : Nat → List Char → Option (Outcome ρ)} {d offset : Nat} {s : List Char} {o : Outcome ρ}
    (hstep : ∀ offset s, step (offset + d) s = (step offset s).map (Outcome.shift d)) (h : Repeated step offset s o) :
    Repeated step (offset + d) s (o.shift d) := by
  induction h with
  | stop h =>
    refine Repeated.stop fun one hone => ?_
    rw [hstep, Option.map_eq_some_iff] at hone
    obtain ⟨one, hone, rfl⟩ := hone
    exact h one hone
  | @more offset s one more h hne _ ih =>
    have h' : step (offset + d) s = some (one.shift d) := by rw [hstep, h]; rfl
    have hsize : offset + d + byteSize (one.shift d).text = offset + byteSize one.text + d := by
      simp only [Outcome.shift]
      omega
    have hmore : Repeated step (offset + d + byteSize (one.shift d).text) (one.shift d).rest (more.shift d) := by
      rw [hsize]
      exact ih
    have := Repeated.more h' hne hmore
    simpa [Outcome.shift] using this

/-- Where a text stands shows only in where the nodes start. -/
theorem run_shift (p : Pattern ρ) (d offset : Nat) (s : List Char) :
    p.run (offset + d) s = (p.run offset s).map (Outcome.shift d) := by
  induction p generalizing offset s with
  | char accepts =>
    cases s with
    | nil => rfl
    | cons c rest => by_cases h : accepts c = true <;> simp [run, h, Outcome.shift]
  | literal text => cases h : dropLiteral? text s <;> simp [run, h, Outcome.shift]
  | finish => cases s <;> simp [run, Outcome.shift]
  | seq p q ihp ihq =>
    simp only [run, ihp]
    cases hp : p.run offset s with
    | none => rfl
    | some one =>
      have hsize : offset + d + byteSize one.text = offset + byteSize one.text + d := by omega
      simp only [Option.map_some, Outcome.shift, hsize, ihq]
      cases q.run (offset + byteSize one.text) one.rest <;> simp [Outcome.shift]
  | choice p q ihp ihq =>
    simp only [run, ihp, ihq]
    cases p.run offset s <;> rfl
  | many p ih =>
    have hrun : (many p).run offset s = some (repeatStep p.run s.length offset s) := rfl
    rw [hrun, Option.map_some, run_many_eq_some]
    exact (run_many_eq_some.1 hrun).shift ih
  | present p ih =>
    simp only [run, ih]
    cases p.run offset s <;> rfl
  | absent p ih =>
    simp only [run, ih]
    cases p.run offset s <;> rfl
  | node rule p ih =>
    simp only [run, ih]
    cases p.run offset s <;> simp [Outcome.shift, Node.shift]
  | token rule p ih =>
    simp only [run, ih]
    cases p.run offset s <;> simp [Outcome.shift, Node.shift]

end Pattern

end SentenceQuery
