import Mathlib.Data.List.Forall2

/-!
# Steps that may fail

When a chain of steps answers, and with what: every step before answered too. The statements are read from left to right to
take a chain apart and from right to left to run one.
-/

namespace SentenceQuery

universe u v w

variable {ε : Type u} {α : Type v}

theorem ok_bind {β : Type v} (a : α) (f : α → Except ε β) : (Except.ok a >>= f) = f a := rfl

theorem bind_eq_ok {β : Type v} {x : Except ε α} {f : α → Except ε β} {b : β} :
    (x >>= f) = .ok b ↔ ∃ a, x = .ok a ∧ f a = .ok b := by
  cases x with
  | error e => simp [bind, Except.bind]
  | ok a => simp [bind, Except.bind]

theorem mapError_eq_ok {δ : Type w} {x : Except ε α} {f : ε → δ} {a : α} : x.mapError f = .ok a ↔ x = .ok a := by
  cases x with
  | error e => simp [Except.mapError]
  | ok b => simp [Except.mapError]

/-- A chain of two steps fails where the first fails, or the second on what the first answers. -/
theorem bind_eq_error {β : Type v} {x : Except ε α} {f : α → Except ε β} {e : ε} :
    (x >>= f) = .error e ↔ x = .error e ∨ ∃ a, x = .ok a ∧ f a = .error e := by
  cases x with
  | error e' => simp [bind, Except.bind]
  | ok a => simp [bind, Except.bind]

theorem mapError_eq_error {δ : Type w} {x : Except ε α} {f : ε → δ} {e : δ} :
    x.mapError f = .error e ↔ ∃ e', x = .error e' ∧ f e' = e := by
  cases x with
  | error e' => simp [Except.mapError]
  | ok a => simp [Except.mapError]

/-- A check answers if it is passed and what follows it answers. -/
theorem check_eq_ok {c : Prop} [Decidable c] {e : ε} {x : Except ε α} {a : α} :
    (if c then .error e else x) = .ok a ↔ ¬c ∧ x = .ok a := by
  by_cases h : c <;> simp [h]

/-- A step taken over a list answers if it does at each member. -/
theorem mapM_eq_ok {β : Type v} {f : α → Except ε β} {xs : List α} {ys : List β} :
    xs.mapM f = .ok ys ↔ List.Forall₂ (fun x y => f x = .ok y) xs ys := by
  induction xs generalizing ys with
  | nil =>
    rw [List.mapM_nil, List.forall₂_nil_left_iff]
    simp [pure, Except.pure, eq_comm]
  | cons x xs ih =>
    rw [List.mapM_cons, bind_eq_ok]
    simp only [bind_eq_ok, ih, List.forall₂_cons_left_iff, pure, Except.pure, Except.ok.injEq]
    constructor
    · rintro ⟨y, hy, ys, hys, rfl⟩
      exact ⟨y, ys, hy, hys, rfl⟩
    · rintro ⟨y, ys, hy, hys, rfl⟩
      exact ⟨y, hy, ys, hys, rfl⟩

/-- Each member of the first of two lists that are related one by one has its counterpart in the other. -/
theorem exists_right_of_forall₂ {β : Type w} {R : α → β → Prop} {xs : List α} {ys : List β} (h : List.Forall₂ R xs ys)
    {x : α} (hx : x ∈ xs) : ∃ y ∈ ys, R x y := by
  induction h with
  | nil => cases hx
  | cons hxy _ ih =>
    rcases List.mem_cons.1 hx with rfl | hx
    · exact ⟨_, List.mem_cons_self, hxy⟩
    · obtain ⟨z, hz, hxz⟩ := ih hx
      exact ⟨z, List.mem_cons_of_mem _ hz, hxz⟩

/-- Each member of the second of two lists that are related one by one has its counterpart in the first. -/
theorem exists_left_of_forall₂ {β : Type w} {R : α → β → Prop} {xs : List α} {ys : List β} (h : List.Forall₂ R xs ys)
    {y : β} (hy : y ∈ ys) : ∃ x ∈ xs, R x y :=
  exists_right_of_forall₂ h.flip hy

/-- Where each member of a list has a counterpart, the list has. -/
theorem exists_forall₂ {β : Type w} {R : α → β → Prop} {xs : List α} (h : ∀ x ∈ xs, ∃ y, R x y) :
    ∃ ys, List.Forall₂ R xs ys := by
  induction xs with
  | nil => exact ⟨[], .nil⟩
  | cons x xs ih =>
    obtain ⟨y, hy⟩ := h x List.mem_cons_self
    obtain ⟨ys, hys⟩ := ih fun x hx => h x (List.mem_cons_of_mem _ hx)
    exact ⟨y :: ys, .cons hy hys⟩

/-- The step at each member of a list answered. -/
theorem exists_of_mapM_eq_ok {β : Type v} {f : α → Except ε β} {xs : List α} {ys : List β} (h : xs.mapM f = .ok ys)
    {x : α} (hx : x ∈ xs) : ∃ y ∈ ys, f x = .ok y :=
  exists_right_of_forall₂ (mapM_eq_ok.1 h) hx

/-- What the steps over a list answered, some step answered. -/
theorem exists_mem_of_mapM_eq_ok {β : Type v} {f : α → Except ε β} {xs : List α} {ys : List β} (h : xs.mapM f = .ok ys)
    {y : β} (hy : y ∈ ys) : ∃ x ∈ xs, f x = .ok y :=
  exists_left_of_forall₂ (mapM_eq_ok.1 h) hy

/-- A step taken over a list fails at one of its members. -/
theorem exists_of_mapM_eq_error {β : Type v} {f : α → Except ε β} {xs : List α} {e : ε} (h : xs.mapM f = .error e) :
    ∃ x ∈ xs, f x = .error e := by
  induction xs with
  | nil => cases h
  | cons x xs ih =>
    rw [List.mapM_cons, bind_eq_error] at h
    rcases h with h | ⟨y, -, h⟩
    · exact ⟨x, List.mem_cons_self, h⟩
    · rw [bind_eq_error] at h
      rcases h with h | ⟨ys, -, habsurd⟩
      · obtain ⟨z, hz, hfz⟩ := ih h
        exact ⟨z, List.mem_cons_of_mem _ hz, hfz⟩
      · cases habsurd

/-- The steps over a list answer place by place. -/
theorem getElem_of_mapM_eq_ok {β : Type v} {f : α → Except ε β} {xs : List α} {ys : List β} (h : xs.mapM f = .ok ys) :
    xs.length = ys.length ∧ ∀ i (hx : i < xs.length) (hy : i < ys.length), f xs[i] = .ok ys[i] := by
  rw [mapM_eq_ok, List.forall₂_iff_get] at h
  exact h

/-- The step at one member of a list, between those before and behind it. -/
theorem mapM_append_cons_eq_ok {β : Type v} {f : α → Except ε β} {xs ys : List α} {x : α} {zs : List β} :
    (xs ++ x :: ys).mapM f = .ok zs ↔ ∃ zs₁ z zs₂, xs.mapM f = .ok zs₁ ∧ f x = .ok z ∧ ys.mapM f = .ok zs₂ ∧
      zs = zs₁ ++ z :: zs₂ := by
  simp only [List.mapM_append, List.mapM_cons, bind_eq_ok, pure, Except.pure, Except.ok.injEq]
  constructor
  · rintro ⟨zs₁, h₁, _, ⟨z, hz, zs₂, h₂, rfl⟩, rfl⟩
    exact ⟨zs₁, z, zs₂, h₁, hz, h₂, rfl⟩
  · rintro ⟨zs₁, z, zs₂, h₁, hz, h₂, rfl⟩
    exact ⟨zs₁, h₁, z :: zs₂, ⟨z, hz, zs₂, h₂, rfl⟩, rfl⟩

/-- What every step preserves holds after all of them. -/
theorem foldlM_preserves {β : Type v} {f : β → α → Except ε β} {P : β → Prop}
    (hstep : ∀ b a b', P b → f b a = .ok b' → P b') {xs : List α} {b b' : β} (hb : P b) (h : xs.foldlM f b = .ok b') :
    P b' := by
  induction xs generalizing b with
  | nil =>
    rw [List.foldlM_nil] at h
    cases h
    exact hb
  | cons a xs ih =>
    rw [List.foldlM_cons, bind_eq_ok] at h
    obtain ⟨b₁, hfirst, hrest⟩ := h
    exact ih (hstep b a b₁ hb hfirst) hrest

/-- Steps that do the same at each member of a list do the same over the list. -/
theorem foldlM_congr {β : Type v} {f g : β → α → Except ε β} {xs : List α} (h : ∀ a ∈ xs, ∀ b, f b a = g b a) (b : β) :
    xs.foldlM f b = xs.foldlM g b := by
  induction xs generalizing b with
  | nil => rw [List.foldlM_nil, List.foldlM_nil]
  | cons a xs ih =>
    rw [List.foldlM_cons, List.foldlM_cons, h a List.mem_cons_self]
    exact bind_congr fun b => ih (fun a ha => h a (List.mem_cons_of_mem _ ha)) b

/-- A step that carries something over a list fails at one of its members. -/
theorem exists_of_foldlM_eq_error {β : Type v} {f : β → α → Except ε β} {xs : List α} {b : β} {e : ε}
    (h : xs.foldlM f b = .error e) : ∃ b' a, a ∈ xs ∧ f b' a = .error e := by
  induction xs generalizing b with
  | nil => cases h
  | cons a xs ih =>
    rw [List.foldlM_cons, bind_eq_error] at h
    rcases h with h | ⟨b₁, -, h⟩
    · exact ⟨b, a, List.mem_cons_self, h⟩
    · obtain ⟨b', a', ha', hfail⟩ := ih h
      exact ⟨b', a', List.mem_cons_of_mem _ ha', hfail⟩

end SentenceQuery
