import Mathlib.Data.List.Basic
import SentenceQuery.Query.Word

/-!
# Comparisons that a list can be sorted by

A comparison may be no order of its type and still order the members of one list, up to ties (`OrdersWeakly`). Then the list has
exactly one sorting that keeps the order of ties, and merge sort is it (`OrdersWeakly.sortedStably_iff`). Comparisons of keys order
every list; so do those made of such comparisons one behind the other, or turned round.
-/

namespace SentenceQuery

universe u v

variable {α : Type u}

/-- A comparison is a strict weak order of the members of a list: what is less is less the other way round greater, less is
irreflexive and transitive, and so is what ties. -/
structure OrdersWeakly (cmp : α → α → Ordering) (xs : List α) : Prop where
  swap : ∀ a ∈ xs, ∀ b ∈ xs, cmp b a = (cmp a b).swap
  lt_irrefl : ∀ a ∈ xs, cmp a a ≠ .lt
  lt_trans : ∀ a ∈ xs, ∀ b ∈ xs, ∀ c ∈ xs, cmp a b = .lt → cmp b c = .lt → cmp a c = .lt
  eq_trans : ∀ a ∈ xs, ∀ b ∈ xs, ∀ c ∈ xs, cmp a b = .eq → cmp b c = .eq → cmp a c = .eq

/-- The list is sorted, and what ties is in the order in which it was. -/
structure SortedStably (cmp : α → α → Ordering) (xs ys : List α) : Prop where
  perm : ys.Perm xs
  sorted : ys.Pairwise fun a b => cmp a b ≠ .gt
  stable : ∀ a ∈ xs, ys.filter (cmp a · = .eq) = xs.filter (cmp a · = .eq)

namespace OrdersWeakly

variable {cmp cmp' : α → α → Ordering} {xs : List α}

/-! ## Comparisons that order weakly -/

theorem congr (h : OrdersWeakly cmp xs) (heq : ∀ a ∈ xs, ∀ b ∈ xs, cmp' a b = cmp a b) : OrdersWeakly cmp' xs where
  swap := fun a ha b hb => by rw [heq a ha b hb, heq b hb a ha, h.swap a ha b hb]
  lt_irrefl := fun a ha => by
    rw [heq a ha a ha]
    exact h.lt_irrefl a ha
  lt_trans := fun a ha b hb c hc => by
    rw [heq a ha b hb, heq b hb c hc, heq a ha c hc]
    exact h.lt_trans a ha b hb c hc
  eq_trans := fun a ha b hb c hc => by
    rw [heq a ha b hb, heq b hb c hc, heq a ha c hc]
    exact h.eq_trans a ha b hb c hc

/-- What orders a list orders any part of it. -/
theorem mono (h : OrdersWeakly cmp xs) {ys : List α} (hsub : ∀ a ∈ ys, a ∈ xs) : OrdersWeakly cmp ys where
  swap := fun a ha b hb => h.swap a (hsub a ha) b (hsub b hb)
  lt_irrefl := fun a ha => h.lt_irrefl a (hsub a ha)
  lt_trans := fun a ha b hb c hc => h.lt_trans a (hsub a ha) b (hsub b hb) c (hsub c hc)
  eq_trans := fun a ha b hb c hc => h.eq_trans a (hsub a ha) b (hsub b hb) c (hsub c hc)

/-- The comparison of keys in an order. -/
theorem ofKey {β : Type v} [Ord β] [Std.TransOrd β] (key : α → β) (xs : List α) :
    OrdersWeakly (fun a b => compare (key a) (key b)) xs where
  swap := fun _ _ _ _ => Std.OrientedCmp.eq_swap
  lt_irrefl := fun a _ => by
    have hself : compare (key a) (key a) = .eq := Std.ReflCmp.compare_self
    rw [hself]
    decide
  lt_trans := fun _ _ _ _ _ _ => Std.TransCmp.lt_trans
  eq_trans := fun _ _ _ _ _ _ => Std.TransCmp.eq_trans

/-- The comparison by which everything ties. -/
theorem ofTies (h : ∀ a ∈ xs, ∀ b ∈ xs, cmp a b = .eq) : OrdersWeakly cmp xs :=
  (ofKey (fun _ => 0) xs).congr fun a ha b hb => (h a ha b hb).trans rfl

theorem eq_self (h : OrdersWeakly cmp xs) {a : α} (ha : a ∈ xs) : cmp a a = .eq := by
  have hswap := h.swap a ha a ha
  cases hself : cmp a a <;> rw [hself] at hswap <;> first | rfl | cases hswap

theorem eq_symm (h : OrdersWeakly cmp xs) {a b : α} (ha : a ∈ xs) (hb : b ∈ xs) (hab : cmp a b = .eq) : cmp b a = .eq := by
  rw [h.swap a ha b hb, hab]
  rfl

theorem lt_of_lt_of_eq (h : OrdersWeakly cmp xs) {a b c : α} (ha : a ∈ xs) (hb : b ∈ xs) (hc : c ∈ xs) (hab : cmp a b = .lt)
    (hbc : cmp b c = .eq) : cmp a c = .lt := by
  cases hac : cmp a c with
  | lt => rfl
  | eq =>
    have habsurd := h.eq_trans a ha c hc b hb hac (h.eq_symm hb hc hbc)
    rw [hab] at habsurd
    cases habsurd
  | gt =>
    have hca : cmp c a = .lt := by rw [h.swap a ha c hc, hac]; rfl
    have habsurd := h.lt_trans c hc a ha b hb hca hab
    rw [h.eq_symm hb hc hbc] at habsurd
    cases habsurd

theorem lt_of_eq_of_lt (h : OrdersWeakly cmp xs) {a b c : α} (ha : a ∈ xs) (hb : b ∈ xs) (hc : c ∈ xs) (hab : cmp a b = .eq)
    (hbc : cmp b c = .lt) : cmp a c = .lt := by
  cases hac : cmp a c with
  | lt => rfl
  | eq =>
    have habsurd := h.eq_trans b hb a ha c hc (h.eq_symm ha hb hab) hac
    rw [hbc] at habsurd
    cases habsurd
  | gt =>
    have hca : cmp c a = .lt := by rw [h.swap a ha c hc, hac]; rfl
    have habsurd := h.lt_trans b hb c hc a ha hbc hca
    rw [h.eq_symm ha hb hab] at habsurd
    cases habsurd

/-- Two comparisons one behind the other: the second decides what ties by the first. -/
theorem andThen (h : OrdersWeakly cmp xs) (h' : OrdersWeakly cmp' xs) :
    OrdersWeakly (fun a b => (cmp a b).then (cmp' a b)) xs where
  swap := fun a ha b hb => by rw [h.swap a ha b hb, h'.swap a ha b hb, Ordering.swap_then]
  lt_irrefl := fun a ha => by
    rw [h.eq_self ha, Ordering.eq_then]
    exact h'.lt_irrefl a ha
  lt_trans := fun a ha b hb c hc hab hbc => by
    rw [Ordering.then_eq_lt] at hab hbc ⊢
    rcases hab with hab | ⟨hab, hab'⟩ <;> rcases hbc with hbc | ⟨hbc, hbc'⟩
    · exact Or.inl (h.lt_trans a ha b hb c hc hab hbc)
    · exact Or.inl (h.lt_of_lt_of_eq ha hb hc hab hbc)
    · exact Or.inl (h.lt_of_eq_of_lt ha hb hc hab hbc)
    · exact Or.inr ⟨h.eq_trans a ha b hb c hc hab hbc, h'.lt_trans a ha b hb c hc hab' hbc'⟩
  eq_trans := fun a ha b hb c hc hab hbc => by
    rw [Ordering.then_eq_eq] at hab hbc ⊢
    exact ⟨h.eq_trans a ha b hb c hc hab.1 hbc.1, h'.eq_trans a ha b hb c hc hab.2 hbc.2⟩

/-- A comparison turned round. -/
theorem reversed (h : OrdersWeakly cmp xs) : OrdersWeakly (fun a b => (cmp a b).swap) xs where
  swap := fun a ha b hb => by rw [h.swap a ha b hb]
  lt_irrefl := fun a ha => by
    rw [h.eq_self ha]
    decide
  lt_trans := fun a ha b hb c hc hab hbc => by
    rw [← h.swap a ha b hb] at hab
    rw [← h.swap b hb c hc] at hbc
    rw [← h.swap a ha c hc]
    exact h.lt_trans c hc b hb a ha hbc hab
  eq_trans := fun a ha b hb c hc hab hbc => by
    rw [Ordering.swap_eq_eq] at hab hbc ⊢
    exact h.eq_trans a ha b hb c hc hab hbc

theorem directed (h : OrdersWeakly cmp xs) (d : Direction) : OrdersWeakly (fun a b => d.apply (cmp a b)) xs := by
  cases d with
  | ascending => exact h
  | descending => exact h.reversed

/-- A direction keeps what is a weak order from becoming one, and the other way round. -/
theorem directed_iff {d : Direction} : OrdersWeakly (fun a b => d.apply (cmp a b)) xs ↔ OrdersWeakly cmp xs := by
  refine ⟨fun h => (h.directed d).congr fun a _ b _ => ?_, fun h => h.directed d⟩
  cases d with
  | ascending => rfl
  | descending => exact Ordering.swap_swap.symm

/-! ## Sorting -/

/-- Two members are in order, one way or the other, and what is in order stays so over a third. -/
theorem isLE_total (h : OrdersWeakly cmp xs) {a b : α} (ha : a ∈ xs) (hb : b ∈ xs) :
    ((cmp a b).isLE || (cmp b a).isLE) = true := by
  rw [h.swap a ha b hb]
  cases cmp a b <;> rfl

theorem isLE_trans (h : OrdersWeakly cmp xs) {a b c : α} (ha : a ∈ xs) (hb : b ∈ xs) (hc : c ∈ xs)
    (hab : (cmp a b).isLE = true) (hbc : (cmp b c).isLE = true) : (cmp a c).isLE = true := by
  rw [Ordering.isLE_iff_eq_lt_or_eq_eq] at hab hbc ⊢
  rcases hab with hab | hab <;> rcases hbc with hbc | hbc
  · exact Or.inl (h.lt_trans a ha b hb c hc hab hbc)
  · exact Or.inl (h.lt_of_lt_of_eq ha hb hc hab hbc)
  · exact Or.inl (h.lt_of_eq_of_lt ha hb hc hab hbc)
  · exact Or.inr (h.eq_trans a ha b hb c hc hab hbc)

/-- Merge sort of the members, each with the proof that it is one. -/
theorem map_mergeSort_attach (cmp : α → α → Ordering) (xs : List α) :
    (xs.attach.mergeSort fun a b => (cmp a.1 b.1).isLE).map Subtype.val = xs.mergeSort fun a b => (cmp a b).isLE := by
  rw [List.map_mergeSort (s := fun a b => (cmp a b).isLE) fun _ _ _ _ => rfl, List.attach_map_subtype_val]

theorem pairwise_mergeSort (h : OrdersWeakly cmp xs) :
    (xs.mergeSort fun a b => (cmp a b).isLE).Pairwise fun a b => cmp a b ≠ .gt := by
  rw [← map_mergeSort_attach, List.pairwise_map]
  refine (List.pairwise_mergeSort ?_ ?_ xs.attach).imp fun hab => ?_
  · exact fun a b c => h.isLE_trans a.2 b.2 c.2
  · exact fun a b => h.isLE_total a.2 b.2
  · exact Ordering.ne_gt_iff_isLE.2 hab

/-- The members that tie are a part of the sorted list, in their order. -/
theorem filter_sublist_mergeSort (h : OrdersWeakly cmp xs) {a : α} (ha : a ∈ xs) :
    (xs.filter (cmp a · = .eq)).Sublist (xs.mergeSort fun a b => (cmp a b).isLE) := by
  have htie : (xs.attach.filter fun b => decide (cmp a b.1 = .eq)).Pairwise fun b c => (cmp b.1 c.1).isLE = true := by
    refine List.pairwise_of_forall_mem_list fun b hb c hc => ?_
    have hab : cmp a b.1 = .eq := by simpa using (List.mem_filter.1 hb).2
    have hac : cmp a c.1 = .eq := by simpa using (List.mem_filter.1 hc).2
    rw [h.eq_trans b.1 b.2 a ha c.1 c.2 (h.eq_symm ha b.2 hab) hac]
    rfl
  have htrans : ∀ b c d : {x // x ∈ xs}, (cmp b.1 c.1).isLE = true → (cmp c.1 d.1).isLE = true → (cmp b.1 d.1).isLE = true :=
    fun b c d => h.isLE_trans b.2 c.2 d.2
  have htotal : ∀ b c : {x // x ∈ xs}, ((cmp b.1 c.1).isLE || (cmp c.1 b.1).isLE) = true := fun b c => h.isLE_total b.2 c.2
  have hsublist := List.sublist_mergeSort htrans htotal htie List.filter_sublist
  have hfilter : (xs.attach.filter fun b => decide (cmp a b.1 = .eq)).map Subtype.val = xs.filter (cmp a · = .eq) := by
    rw [show (fun b : {x // x ∈ xs} => decide (cmp a b.1 = .eq)) = (fun b => decide (cmp a b = .eq)) ∘ Subtype.val from rfl,
      ← List.filter_map, List.attach_map_subtype_val]
  rw [← hfilter, ← map_mergeSort_attach]
  exact hsublist.map _

theorem sortedStably_mergeSort (h : OrdersWeakly cmp xs) :
    SortedStably cmp xs (xs.mergeSort fun a b => (cmp a b).isLE) where
  perm := List.mergeSort_perm _ _
  sorted := h.pairwise_mergeSort
  stable := by
    intro a ha
    have hsublist := (h.filter_sublist_mergeSort ha).filter (cmp a · = .eq)
    rw [List.filter_filter] at hsublist
    simp only [Bool.and_self] at hsublist
    exact (hsublist.eq_of_length ((List.mergeSort_perm _ _).filter _).length_eq.symm).symm

end OrdersWeakly

/-- A sorted list is known by its members and the order of those that tie. -/
theorem eq_of_sorted {cmp : α → α → Ordering} {ys zs : List α} (hord : OrdersWeakly cmp ys) (hperm : ys.Perm zs)
    (hys : ys.Pairwise fun a b => cmp a b ≠ .gt) (hzs : zs.Pairwise fun a b => cmp a b ≠ .gt)
    (hstable : ∀ a ∈ ys, ys.filter (cmp a · = .eq) = zs.filter (cmp a · = .eq)) : ys = zs := by
  induction ys generalizing zs with
  | nil => exact (List.nil_perm.1 hperm).symm
  | cons y ys ih =>
    cases zs with
    | nil => exact absurd hperm.length_eq (by simp)
    | cons z zs =>
      rw [List.pairwise_cons] at hys hzs
      have hymem : y ∈ y :: ys := List.mem_cons_self
      have hzmem : z ∈ y :: ys := hperm.mem_iff.2 List.mem_cons_self
      -- neither head comes behind the other, so they tie, and are the first of those that tie
      have htie : cmp y z = .eq := by
        have hyz : cmp y z ≠ .gt := by
          rcases List.mem_cons.1 hzmem with rfl | hz
          · rw [hord.eq_self hymem]
            decide
          · exact hys.1 z hz
        have hzy : cmp z y ≠ .gt := by
          rcases List.mem_cons.1 (hperm.mem_iff.1 hymem) with rfl | hy
          · rw [hord.eq_self hymem]
            decide
          · exact hzs.1 y hy
        rw [hord.swap y hymem z hzmem] at hzy
        cases h : cmp y z <;> rw [h] at hyz hzy <;> first | rfl | exact absurd rfl hyz | exact absurd rfl hzy
      have hheads := hstable y hymem
      rw [List.filter_cons_of_pos (by simpa using hord.eq_self hymem), List.filter_cons_of_pos (by simpa using htie)] at hheads
      obtain ⟨rfl, -⟩ := List.cons.inj hheads
      have hsub : OrdersWeakly cmp ys := hord.mono fun _ => List.mem_cons_of_mem _
      refine congrArg (y :: ·) (ih hsub (List.perm_cons y |>.1 hperm) hys.2 hzs.2 fun a ha => ?_)
      have hfilter := hstable a (List.mem_cons_of_mem _ ha)
      rw [List.filter_cons, List.filter_cons] at hfilter
      split at hfilter
      · exact (List.cons.inj hfilter).2
      · exact hfilter

/-- What is sorted stably by one comparison and then by another is sorted stably by the other and, where that ties, by the first. -/
theorem SortedStably.andThen {cmp cmp' : α → α → Ordering} {xs ys zs : List α} (hord : OrdersWeakly cmp xs)
    (h' : SortedStably cmp' xs ys) (h : SortedStably cmp ys zs) :
    SortedStably (fun a b => (cmp a b).then (cmp' a b)) xs zs where
  perm := h.perm.trans h'.perm
  sorted := by
    rw [List.pairwise_iff_forall_sublist]
    intro a b hsub
    have ha : a ∈ ys := h.perm.mem_iff.1 (hsub.subset List.mem_cons_self)
    cases hab : cmp a b with
    | lt => exact nofun
    | gt => exact absurd hab (List.pairwise_iff_forall_sublist.1 h.sorted hsub)
    | eq =>
      -- what ties with the earlier one is where the first sorting has put it
      have htied : [a, b].Sublist (zs.filter (cmp a · = .eq)) := by
        have hself := hord.eq_self (h'.perm.mem_iff.1 ha)
        simpa [hself, hab] using hsub.filter (cmp a · = .eq)
      rw [h.stable a ha] at htied
      exact List.pairwise_iff_forall_sublist.1 h'.sorted (htied.trans List.filter_sublist)
  stable := by
    intro a ha
    have hboth : ∀ us : List α, us.filter (fun b => (cmp a b).then (cmp' a b) = .eq) =
        (us.filter (cmp a · = .eq)).filter (cmp' a · = .eq) := fun us => by
      rw [List.filter_filter]
      simp only [Ordering.then_eq_eq, Bool.decide_and, Bool.and_comm]
    rw [hboth zs, h.stable a (h'.perm.mem_iff.2 ha), hboth xs, List.filter_comm, h'.stable a ha, List.filter_comm]

/-- A list that is ordered weakly has one stable sorting. -/
theorem OrdersWeakly.sortedStably_iff {cmp : α → α → Ordering} {xs ys : List α} (h : OrdersWeakly cmp xs) :
    SortedStably cmp xs ys ↔ ys = xs.mergeSort fun a b => (cmp a b).isLE := by
  refine ⟨fun hys => ?_, fun heq => heq ▸ h.sortedStably_mergeSort⟩
  have hsorted := h.sortedStably_mergeSort
  have hmem : ∀ a ∈ ys, a ∈ xs := fun _ ha => hys.perm.mem_iff.1 ha
  exact eq_of_sorted (h.mono hmem) (hys.perm.trans hsorted.perm.symm) hys.sorted hsorted.sorted fun a ha =>
    (hys.stable a (hmem a ha)).trans (hsorted.stable a (hmem a ha)).symm

end SentenceQuery
