import SentenceQuery.Proofs.Steps

/-!
# Steps with faults of their own

A step that fails exactly where it finds a fault, and with that fault: `answerUnless fault a`. In a chain of such steps the
first fault counts (`bind_eq_answerUnless`), and over a list the first member's that has one (`mapM_eq_answerUnless`). That a
step has faults of one sort only (`FailsOnly`) is brought from steps to chains and lists of them.
-/

namespace SentenceQuery

universe u v w

variable {ε : Type u} {α β : Type v}

/-- The answer, if there is no fault. -/
def answerUnless (fault : Option ε) (a : α) : Except ε α :=
  match fault with
  | some e => .error e
  | none => .ok a

@[simp] theorem answerUnless_none (a : α) : answerUnless (none : Option ε) a = .ok a := rfl

@[simp] theorem answerUnless_some (e : ε) (a : α) : answerUnless (some e) a = .error e := rfl

theorem answerUnless_eq_ok {fault : Option ε} {a b : α} : answerUnless fault a = .ok b ↔ fault = none ∧ a = b := by
  cases fault <;> simp

/-- The fault of a step, if it fails. -/
def fault? : Except ε α → Option ε
  | .error e => some e
  | .ok _ => none

@[simp] theorem fault?_error (e : ε) : fault? (.error e : Except ε α) = some e := rfl

@[simp] theorem fault?_ok (a : α) : fault? (.ok a : Except ε α) = none := rfl

theorem fault?_eq_some {x : Except ε α} {e : ε} : fault? x = some e ↔ x = .error e := by
  cases x <;> simp

theorem fault?_eq_none {x : Except ε α} : fault? x = none ↔ ∃ a, x = .ok a := by
  cases x <;> simp

theorem exists_error {x : Except ε α} (h : ¬∃ a, x = .ok a) : ∃ e, x = .error e := by
  cases x with
  | error e => exact ⟨e, rfl⟩
  | ok a => exact absurd ⟨a, rfl⟩ h

/-- A step fails with its fault; what it answers otherwise is left open. -/
theorem exists_eq_answerUnless (x : Except ε α) [Nonempty α] : ∃ a, x = answerUnless (fault? x) a := by
  cases x with
  | error e => exact ⟨Classical.arbitrary α, rfl⟩
  | ok a => exact ⟨a, rfl⟩

theorem fault?_answerUnless (fault : Option ε) (a : α) : fault? (answerUnless fault a) = fault := by
  cases fault <;> rfl

/-- A check before what follows it. -/
theorem check_eq_answerUnless {c p : Prop} [Decidable c] [Decidable p] (h : c ↔ p) {e : ε} {x : Except ε α}
    {fault : Option ε} {a : α} (hx : x = answerUnless fault a) :
    (if c then .error e else x) = answerUnless (if p then some e else fault) a := by
  by_cases hp : p
  · rw [if_pos (h.2 hp), if_pos hp, answerUnless_some]
  · rw [if_neg (mt h.1 hp), if_neg hp, hx]

/-- Of two steps the first fault counts. -/
theorem bind_eq_answerUnless {x : Except ε α} {f : α → Except ε β} {fault fault' : Option ε} {a : α} {b : β}
    (hx : x = answerUnless fault a) (hf : f a = answerUnless fault' b) : (x >>= f) = answerUnless (fault.or fault') b := by
  subst hx
  cases fault with
  | some e => rfl
  | none => exact hf

theorem findSome?_cons_eq_or {γ : Type w} (f : α → Option γ) (x : α) (xs : List α) :
    (x :: xs).findSome? f = (f x).or (xs.findSome? f) := by
  rw [List.findSome?_cons]
  cases f x <;> rfl

/-- Over a list the first fault counts. -/
theorem mapM_eq_answerUnless {f : α → Except ε β} {fault : α → Option ε} {g : α → β} {xs : List α}
    (h : ∀ x ∈ xs, f x = answerUnless (fault x) (g x)) : xs.mapM f = answerUnless (xs.findSome? fault) (xs.map g) := by
  induction xs with
  | nil => rfl
  | cons x xs ih =>
    have hrest := ih fun y hy => h y (List.mem_cons_of_mem _ hy)
    rw [List.mapM_cons, findSome?_cons_eq_or, List.map_cons]
    refine bind_eq_answerUnless (h x List.mem_cons_self) ?_
    rw [hrest]
    cases xs.findSome? fault <;> rfl

/-- Steps with the same faults have the same fault behind a first one. -/
theorem fault?_bind_congr {x : Except ε α} {f g : α → Except ε β} (h : ∀ a, fault? (f a) = fault? (g a)) :
    fault? (x >>= f) = fault? (x >>= g) := by
  cases x with
  | error e => rfl
  | ok a => exact h a

/-- The fault of a step over a list is that of its first member that has one. -/
theorem fault?_mapM (f : α → Except ε β) (xs : List α) : fault? (xs.mapM f) = xs.findSome? fun x => fault? (f x) := by
  induction xs with
  | nil => rfl
  | cons x xs ih =>
    rw [List.mapM_cons, findSome?_cons_eq_or, ← ih]
    cases f x with
    | error e => rfl
    | ok y => cases xs.mapM f <;> rfl

/-- Where every fault is that of a bad member, the first bad member counts. -/
theorem findSome?_ite {γ : Type w} (p : α → Prop) [DecidablePred p] (f : α → γ) (xs : List α) :
    (xs.findSome? fun x => if p x then some (f x) else none) = (xs.find? p).map f := by
  induction xs with
  | nil => rfl
  | cons x xs ih => by_cases h : p x <;> simp [h, ih]

/-! ## Faults of one sort -/

/-- The step fails with no other faults. -/
def FailsOnly (P : ε → Prop) (x : Except ε α) : Prop := ∀ e, x = .error e → P e

section FailsOnly

variable {P : ε → Prop}

theorem failsOnly_ok (a : α) : FailsOnly P (.ok a : Except ε α) := nofun

theorem failsOnly_error {e : ε} (h : P e) : FailsOnly P (.error e : Except ε α) := by
  rintro _ ⟨⟩
  exact h

theorem failsOnly_answerUnless {fault : Option ε} (h : ∀ e, fault = some e → P e) (a : α) :
    FailsOnly P (answerUnless fault a) := by
  cases fault with
  | some e => exact failsOnly_error (h e rfl)
  | none => exact failsOnly_ok a

theorem FailsOnly.bind {x : Except ε α} {f : α → Except ε β} (hx : FailsOnly P x)
    (hf : ∀ a, x = .ok a → FailsOnly P (f a)) : FailsOnly P (x >>= f) := by
  intro e h
  rcases bind_eq_error.1 h with h | ⟨a, ha, h⟩
  · exact hx e h
  · exact hf a ha e h

/-- A check fails with its own fault, or what follows it fails. -/
theorem FailsOnly.check {c : Prop} [Decidable c] {e : ε} {x : Except ε α} (he : P e) (hx : FailsOnly P x) :
    FailsOnly P (if c then .error e else x) := by
  split
  · exact failsOnly_error he
  · exact hx

theorem FailsOnly.mapM {f : α → Except ε β} {xs : List α} (h : ∀ x ∈ xs, FailsOnly P (f x)) :
    FailsOnly P (xs.mapM f) := by
  intro e he
  obtain ⟨x, hx, hfail⟩ := exists_of_mapM_eq_error he
  exact h x hx e hfail

theorem FailsOnly.foldlM {f : β → α → Except ε β} {xs : List α} (h : ∀ b, ∀ x ∈ xs, FailsOnly P (f b x)) (b : β) :
    FailsOnly P (xs.foldlM f b) := by
  intro e he
  obtain ⟨b', x, hx, hfail⟩ := exists_of_foldlM_eq_error he
  exact h b' x hx e hfail

end FailsOnly

end SentenceQuery
