import Mathlib.Data.Finset.Card
import SentenceQuery.Aggregate

/-!
# What is left when repeats go

Dropping what came before leaves each member of a list once, at its first place, so that the number of those left is the number of
different members.
-/

namespace SentenceQuery

universe u

variable {α : Type u} [BEq α] [LawfulBEq α]

theorem nodup_eraseDups (xs : List α) : xs.eraseDups.Nodup := by
  induction h : xs.length using Nat.strongRecOn generalizing xs with
  | ind n ih =>
    subst h
    cases xs with
    | nil => simp
    | cons x rest =>
      rw [List.eraseDups_cons, List.nodup_cons]
      refine ⟨?_, ih _ ?_ _ rfl⟩
      · simp [List.mem_eraseDups]
      · exact Nat.lt_succ_of_le (List.length_filter_le _ _)

/-- One more member comes at the end, unless it was there before. -/
theorem eraseDups_concat (xs : List α) (x : α) :
    (xs ++ [x]).eraseDups = if x ∈ xs then xs.eraseDups else xs.eraseDups ++ [x] := by
  rw [List.eraseDups_append]
  split
  · rename_i h
    simp [List.removeAll, h]
  · rename_i h
    simp [List.removeAll, h, List.eraseDups_cons]

theorem length_eraseDups [DecidableEq α] (xs : List α) : xs.eraseDups.length = xs.toFinset.card := by
  rw [← List.toFinset_card_of_nodup (nodup_eraseDups xs)]
  congr 1
  ext x
  simp

/-- What is counted is the number of different members. -/
theorem countDistinct_eq_card {α : Type} [DecidableEq α] (xs : List α) : countDistinct xs = xs.toFinset.card :=
  length_eraseDups xs

/-! ## Counting -/

section Counting

variable {α β : Type} [DecidableEq α] [DecidableEq β]

theorem countDistinct_perm {xs ys : List α} (h : xs.Perm ys) : countDistinct xs = countDistinct ys := by
  rw [countDistinct_eq_card, countDistinct_eq_card, List.toFinset_eq_of_perm _ _ h]

theorem countDistinct_append {xs ys : List α} (h : xs.Disjoint ys) :
    countDistinct (xs ++ ys) = countDistinct xs + countDistinct ys := by
  rw [countDistinct_eq_card, countDistinct_eq_card, countDistinct_eq_card, List.toFinset_append]
  exact Finset.card_union_of_disjoint (List.disjoint_toFinset_iff_disjoint.2 h)

theorem countDistinct_map {f : α → β} (hf : Function.Injective f) (xs : List α) :
    countDistinct (xs.map f) = countDistinct xs := by
  have himage : (xs.map f).toFinset = xs.toFinset.image f := by
    ext y
    simp
  rw [countDistinct_eq_card, countDistinct_eq_card, himage, Finset.card_image_of_injective _ hf]

theorem countDistinct_eq_zero {xs : List α} : countDistinct xs = 0 ↔ xs = [] := by
  rw [countDistinct_eq_card, Finset.card_eq_zero, List.toFinset_eq_empty_iff]

/-- Members that are all alike count once, if there are any. -/
theorem countDistinct_of_forall_eq {xs : List α} (hne : xs ≠ []) (h : ∀ x ∈ xs, ∀ y ∈ xs, x = y) : countDistinct xs = 1 := by
  rw [countDistinct_eq_card, Finset.card_eq_one]
  obtain ⟨x, hx⟩ := List.exists_mem_of_ne_nil xs hne
  refine ⟨x, Finset.eq_singleton_iff_unique_mem.2 ⟨List.mem_toFinset.2 hx, fun y hy => ?_⟩⟩
  exact h y (List.mem_toFinset.1 hy) x hx

end Counting

end SentenceQuery
