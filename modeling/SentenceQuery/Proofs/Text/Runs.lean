import Mathlib.Data.List.Sort
import Mathlib.Tactic.Common

/-!
# Longest runs

The places of a list at which something holds form runs, each as long as it can be (`IsLongestRun`). `longestRuns` has them
from left to right; where no run goes over a place, the runs are those before it and those behind it (`longestRuns_append`).
-/

namespace SentenceQuery

/-- The places from a start up to a stop, which is not among them. -/
structure Span where
  start : Nat
  stop : Nat
deriving DecidableEq

namespace Span

/-- The place is one of the span. -/
def Contains (r : Span) (i : Nat) : Prop := r.start ≤ i ∧ i < r.stop

instance (r : Span) (i : Nat) : Decidable (r.Contains i) := inferInstanceAs (Decidable (_ ∧ _))

/-- The same span further to the right. -/
def shift (d : Nat) (r : Span) : Span := ⟨d + r.start, d + r.stop⟩

@[simp] theorem shift_mk (d a b : Nat) : shift d ⟨a, b⟩ = ⟨d + a, d + b⟩ := rfl

/-- What stands at the places of the span. -/
def slice {α : Type} (r : Span) (s : List α) : List α := s.extract r.start r.stop

theorem slice_append {α : Type} (s t u : List α) : slice ⟨s.length, s.length + t.length⟩ (s ++ (t ++ u)) = t := by
  simp [slice, List.extract]

theorem mem_slice {α : Type} {r : Span} {s : List α} {i : Nat} {a : α} (hi : r.Contains i) (ha : s[i]? = some a) :
    a ∈ r.slice s := by
  obtain ⟨hle, hlt⟩ := hi
  refine List.mem_of_getElem? (i := i - r.start) ?_
  rw [slice, List.extract, List.getElem?_take_of_lt (by omega), List.getElem?_drop, show r.start + (i - r.start) = i by omega]
  exact ha

/-- The span from the start of the first to the stop of the last of several spans. -/
def hull : List Span → Span
  | [] => ⟨0, 0⟩
  | r :: rs => ⟨r.start, ((r :: rs).getLast (List.cons_ne_nil r rs)).stop⟩

/-- Of spans from left to right each lies between the start of the first and the stop of the last. -/
theorem hull_contains {rs : List Span} (hsorted : rs.Pairwise fun r t => r.start < t.start ∧ r.stop < t.stop) {r : Span}
    (hr : r ∈ rs) {i : Nat} (hi : r.Contains i) : (hull rs).Contains i := by
  obtain ⟨hle, hlt⟩ := hi
  cases rs with
  | nil => cases hr
  | cons t ts =>
    have hfirst : t.start ≤ r.start := by
      rcases List.mem_cons.1 hr with rfl | hr
      · exact Nat.le_refl _
      · exact Nat.le_of_lt ((List.pairwise_cons.1 hsorted).1 r hr).1
    have hlast : r.stop ≤ ((t :: ts).getLast (List.cons_ne_nil t ts)).stop := by
      rw [← List.dropLast_append_getLast (List.cons_ne_nil t ts)] at hr hsorted
      rcases List.mem_append.1 hr with hr | hr
      · exact Nat.le_of_lt ((List.pairwise_append.1 hsorted).2.2 r hr _ (by simp)).2
      · rw [List.mem_singleton.1 hr]
    exact ⟨Nat.le_trans hfirst hle, Nat.lt_of_lt_of_le hlt hlast⟩

end Span

/-- A span of places at which something holds, and which can be made longer on neither side within the first places of a
list. -/
structure IsLongestRun (p : Nat → Prop) (n : Nat) (r : Span) : Prop where
  nonempty : r.start < r.stop
  within : r.stop ≤ n
  holds : ∀ i < r.stop, r.start ≤ i → p i
  before : r.start = 0 ∨ ¬p (r.start - 1)
  behind : r.stop = n ∨ ¬p r.stop

theorem isLongestRun_iff {p : Nat → Prop} {n : Nat} {r : Span} : IsLongestRun p n r ↔
    r.start < r.stop ∧ r.stop ≤ n ∧ (∀ i < r.stop, r.start ≤ i → p i) ∧ (r.start = 0 ∨ ¬p (r.start - 1)) ∧
      (r.stop = n ∨ ¬p r.stop) :=
  ⟨fun ⟨h₁, h₂, h₃, h₄, h₅⟩ => ⟨h₁, h₂, h₃, h₄, h₅⟩, fun ⟨h₁, h₂, h₃, h₄, h₅⟩ => ⟨h₁, h₂, h₃, h₄, h₅⟩⟩

instance (p : Nat → Prop) [DecidablePred p] (n : Nat) (r : Span) : Decidable (IsLongestRun p n r) :=
  decidable_of_iff' _ isLongestRun_iff

/-- The longest runs within the first places of a list: for each place from the left, the one that starts there. -/
def longestRuns (p : Nat → Prop) [DecidablePred p] (n : Nat) : List Span :=
  (List.range n).filterMap fun start => ((List.range (n + 1)).map (Span.mk start)).find? (IsLongestRun p n ·)

variable {p q : Nat → Prop} {n d : Nat} {r t : Span}

namespace IsLongestRun

theorem contains_start (h : IsLongestRun p n r) : r.Contains r.start := ⟨Nat.le_refl _, h.nonempty⟩

theorem holds_of_contains (h : IsLongestRun p n r) {i : Nat} (hi : r.Contains i) : p i := h.holds i hi.2 hi.1

/-- Of two runs one ends before the other starts, and something does not hold between them. -/
theorem stop_lt_start (hr : IsLongestRun p n r) (ht : IsLongestRun p n t) (h : r.start < t.start) : r.stop < t.start := by
  rcases ht.before with hzero | hbefore
  · omega
  · rcases Nat.lt_or_ge r.stop t.start with hlt | hge
    · exact hlt
    · exact absurd (hr.holds (t.start - 1) (by omega) (by omega)) hbefore

/-- There is one run at a place. -/
theorem eq_of_contains (hr : IsLongestRun p n r) (ht : IsLongestRun p n t) {i : Nat} (hi : r.Contains i)
    (hi' : t.Contains i) : r = t := by
  obtain ⟨hle, hlt⟩ := hi
  obtain ⟨hle', hlt'⟩ := hi'
  have hstart : r.start = t.start := by
    rcases Nat.lt_trichotomy r.start t.start with h | h | h
    · have := hr.stop_lt_start ht h
      omega
    · exact h
    · have := ht.stop_lt_start hr h
      omega
  have hstop : r.stop = t.stop := by
    have hr' := hr.within
    have ht' := ht.within
    rcases Nat.lt_trichotomy r.stop t.stop with h | h | h
    · rcases hr.behind with hend | hbehind
      · omega
      · exact absurd (ht.holds r.stop h (by omega)) hbehind
    · exact h
    · rcases ht.behind with hend | hbehind
      · omega
      · exact absurd (hr.holds t.stop h (by omega)) hbehind
  cases r
  cases t
  simp only at hstart hstop
  rw [hstart, hstop]

/-- What holds at a place holds up to the first place at which it does not. -/
theorem exists_stop {i : Nat} (hi : i < n) (h : p i) :
    ∃ stop, i < stop ∧ stop ≤ n ∧ (stop = n ∨ ¬p stop) ∧ ∀ j, i ≤ j → j < stop → p j := by
  classical
  have hex : ∃ stop, i < stop ∧ (stop = n ∨ ¬p stop) := ⟨n, hi, Or.inl rfl⟩
  obtain ⟨hlt, hbehind⟩ := Nat.find_spec hex
  refine ⟨Nat.find hex, hlt, Nat.find_min' hex ⟨hi, Or.inl rfl⟩, hbehind, fun j hle hj => ?_⟩
  rcases Nat.eq_or_lt_of_le hle with rfl | hlt'
  · exact h
  · by_contra hnot
    exact Nat.find_min hex hj ⟨hlt', Or.inr hnot⟩

/-- Where something holds there is a run. -/
theorem exists_contains {i : Nat} (hi : i < n) (h : p i) : ∃ r, IsLongestRun p n r ∧ r.Contains i := by
  induction i with
  | zero =>
    obtain ⟨stop, hlt, hle, hbehind, hholds⟩ := exists_stop hi h
    exact ⟨⟨0, stop⟩, ⟨hlt, hle, fun j hj _ => hholds j (Nat.zero_le j) hj, Or.inl rfl, hbehind⟩, Nat.le_refl 0, hlt⟩
  | succ i ih =>
    by_cases hbefore : p i
    · -- the run of the place before goes on over this one
      obtain ⟨r, hr, hle, hlt⟩ := ih (by omega) hbefore
      refine ⟨r, hr, by omega, ?_⟩
      have hwithin := hr.within
      rcases hr.behind with hend | hbehind
      · omega
      · rcases Nat.lt_or_ge (i + 1) r.stop with hstop | hstop
        · exact hstop
        · obtain hstop : r.stop = i + 1 := by omega
          rw [hstop] at hbehind
          exact absurd h hbehind
    · obtain ⟨stop, hlt, hle, hbehind, hholds⟩ := exists_stop hi h
      exact ⟨⟨i + 1, stop⟩, ⟨hlt, hle, fun j hj hj' => hholds j hj' hj, Or.inr hbefore, hbehind⟩, Nat.le_refl _, hlt⟩

theorem imp_of_iff (h : ∀ i < n, (p i ↔ q i)) (hr : IsLongestRun p n r) : IsLongestRun q n r := by
  obtain ⟨hnonempty, hwithin, hholds, hbefore, hbehind⟩ := hr
  refine ⟨hnonempty, hwithin, fun i hi hi' => (h i (by omega)).1 (hholds i hi hi'), hbefore.imp_right fun hnot => ?_, ?_⟩
  · rwa [← h _ (by omega)]
  · rcases Nat.eq_or_lt_of_le hwithin with hend | hlt
    · exact Or.inl hend
    · exact hbehind.imp_right fun hnot => by rwa [← h _ hlt]

/-- A run before a place that no run goes over is one of all places. -/
theorem extend (hr : IsLongestRun p d r) (hedge : d = 0 ∨ n = 0 ∨ ¬p (d - 1) ∨ ¬p d) : IsLongestRun p (d + n) r := by
  obtain ⟨hnonempty, hwithin, hholds, hbefore, hbehind⟩ := hr
  refine ⟨hnonempty, by omega, hholds, hbefore, ?_⟩
  rcases hbehind with hend | hbehind
  · -- the run reaches up to the place: nothing stands there, or it does not hold there
    rcases hedge with hzero | hzero | hnot | hnot
    · omega
    · exact Or.inl (by omega)
    · exact absurd (hholds (d - 1) (by omega) (by omega)) hnot
    · exact Or.inr (by rwa [hend])
  · exact Or.inr hbehind

/-- So is a run behind it. -/
theorem shift (hr : IsLongestRun (fun i => p (d + i)) n r) (hedge : d = 0 ∨ n = 0 ∨ ¬p (d - 1) ∨ ¬p d) :
    IsLongestRun p (d + n) (r.shift d) := by
  obtain ⟨hnonempty, hwithin, hholds, hbefore, hbehind⟩ := hr
  obtain ⟨start, stop⟩ := r
  simp only at hnonempty hwithin hholds hbefore hbehind
  rw [Span.shift_mk]
  refine ⟨by simp only; omega, by simp only; omega, fun i hi hi' => ?_, ?_, hbehind.imp_left fun hend => by simp only; omega⟩
  · simp only at hi hi'
    have hp := hholds (i - d) (by omega) (by omega)
    rwa [show d + (i - d) = i by omega] at hp
  · simp only
    rcases Nat.eq_zero_or_pos start with rfl | hpos
    · -- the run starts at the place: nothing stands before it, or it does not hold there
      rcases hedge with hzero | hzero | hnot | hnot
      · exact Or.inl (by omega)
      · omega
      · exact Or.inr hnot
      · exact absurd (hholds 0 hnonempty (Nat.le_refl 0)) hnot
    · rcases hbefore with hzero | hnot
      · omega
      · refine Or.inr ?_
        rwa [show d + start - 1 = d + (start - 1) by omega]

/-- Where no run goes over a place, the runs are those before it and those behind it. -/
theorem append_iff (hedge : d = 0 ∨ n = 0 ∨ ¬p (d - 1) ∨ ¬p d) :
    IsLongestRun p (d + n) r ↔
      IsLongestRun p d r ∨ ∃ t, IsLongestRun (fun i => p (d + i)) n t ∧ t.shift d = r := by
  constructor
  · intro hr
    have hstart := hr.holds_of_contains hr.contains_start
    have hlt := hr.nonempty
    have hle := hr.within
    rcases Nat.lt_or_ge r.start d with hleft | hright
    · obtain ⟨t, ht, hcontains⟩ := exists_contains hleft hstart
      exact Or.inl (hr.eq_of_contains (ht.extend hedge) hr.contains_start hcontains ▸ ht)
    · have hback : d + (r.start - d) = r.start := by omega
      obtain ⟨t, ht, hcontains⟩ :=
        exists_contains (p := fun i => p (d + i)) (i := r.start - d) (n := n) (by omega) (by simp only [hback]; exact hstart)
      refine Or.inr ⟨t, ht, (ht.shift hedge).eq_of_contains hr ⟨?_, ?_⟩ hr.contains_start⟩
      · have := hcontains.1
        simp only [Span.shift]
        omega
      · have := hcontains.2
        simp only [Span.shift]
        omega
  · rintro (hr | ⟨t, ht, rfl⟩)
    · exact hr.extend hedge
    · exact ht.shift hedge

end IsLongestRun

/-! ## All runs from left to right -/

section Runs

variable [DecidablePred p] [DecidablePred q]

theorem mem_longestRuns : r ∈ longestRuns p n ↔ IsLongestRun p n r := by
  unfold longestRuns
  rw [List.mem_filterMap]
  constructor
  · rintro ⟨start, -, hfind⟩
    simpa using List.find?_some hfind
  · intro hr
    have hlt := hr.nonempty
    have hle := hr.within
    have hmem : r ∈ (List.range (n + 1)).map (Span.mk r.start) :=
      List.mem_map.2 ⟨r.stop, List.mem_range.2 (by omega), rfl⟩
    refine ⟨r.start, List.mem_range.2 (by omega), ?_⟩
    cases hfind : ((List.range (n + 1)).map (Span.mk r.start)).find? (IsLongestRun p n ·) with
    | none =>
      have hnone := List.find?_eq_none.1 hfind r hmem
      simp [hr] at hnone
    | some t =>
      have ht : IsLongestRun p n t := by simpa using List.find?_some hfind
      obtain ⟨stop, -, rfl⟩ := List.mem_map.1 (List.mem_of_find?_eq_some hfind)
      exact congrArg some (ht.eq_of_contains hr ht.contains_start hr.contains_start)

theorem pairwise_longestRuns : (longestRuns p n).Pairwise fun r t => r.start < t.start := by
  unfold longestRuns
  refine List.pairwise_lt_range.filterMap _ fun a b hab r hr t ht => ?_
  obtain ⟨_, -, rfl⟩ := List.mem_map.1 (List.mem_of_find?_eq_some hr)
  obtain ⟨_, -, rfl⟩ := List.mem_map.1 (List.mem_of_find?_eq_some ht)
  exact hab

/-- The runs stand from left to right with both their ends. -/
theorem pairwise_stop_longestRuns : (longestRuns p n).Pairwise fun r t => r.start < t.start ∧ r.stop < t.stop := by
  refine pairwise_longestRuns.imp_of_mem fun hr ht hlt => ?_
  have hr := mem_longestRuns.1 hr
  have ht := mem_longestRuns.1 ht
  exact ⟨hlt, Nat.lt_trans (hr.stop_lt_start ht hlt) ht.nonempty⟩

/-- Spans from left to right that are the longest runs and no others. -/
theorem longestRuns_eq {l : List Span} (hsorted : l.Pairwise fun r t => r.start < t.start)
    (hmem : ∀ r, r ∈ l ↔ IsLongestRun p n r) : longestRuns p n = l := by
  have : Std.Antisymm fun r t : Span => r.start < t.start := ⟨fun r t h h' => by omega⟩
  have : Std.Irrefl fun r t : Span => r.start < t.start := ⟨fun r => Nat.lt_irrefl _⟩
  exact pairwise_longestRuns.eq_of_mem_iff hsorted fun r => by rw [mem_longestRuns, hmem]

theorem longestRuns_append (hedge : d = 0 ∨ n = 0 ∨ ¬p (d - 1) ∨ ¬p d) :
    longestRuns p (d + n) = longestRuns p d ++ (longestRuns (fun i => p (d + i)) n).map (Span.shift d) := by
  refine longestRuns_eq (List.pairwise_append.2 ⟨pairwise_longestRuns, ?_, fun r hr t ht => ?_⟩) fun r => ?_
  · refine List.pairwise_map.2 (pairwise_longestRuns.imp fun h => ?_)
    simp only [Span.shift]
    omega
  · obtain ⟨t, -, rfl⟩ := List.mem_map.1 ht
    have hr := mem_longestRuns.1 hr
    have hlt := hr.nonempty
    have hle := hr.within
    simp only [Span.shift]
    omega
  · simp only [List.mem_append, List.mem_map, mem_longestRuns]
    exact (IsLongestRun.append_iff hedge).symm

/-- Where it never holds there is no run. -/
theorem longestRuns_eq_nil (h : ∀ i < n, ¬p i) : longestRuns p n = [] := by
  refine longestRuns_eq List.Pairwise.nil fun r => ⟨fun hr => absurd hr List.not_mem_nil, fun hr => ?_⟩
  have hlt := hr.nonempty
  have hle := hr.within
  exact absurd (hr.holds_of_contains hr.contains_start) (h r.start (by omega))

/-- Where it always holds there is one run. -/
theorem longestRuns_of_forall (hn : 0 < n) (h : ∀ i < n, p i) : longestRuns p n = [⟨0, n⟩] := by
  have hall : IsLongestRun p n ⟨0, n⟩ := ⟨hn, Nat.le_refl n, fun i hi _ => h i hi, Or.inl rfl, Or.inl rfl⟩
  refine longestRuns_eq (List.pairwise_singleton _ _) fun r => ⟨fun hr => ?_, fun hr => ?_⟩
  · rw [List.mem_singleton.1 hr]
    exact hall
  · have hlt := hr.nonempty
    have hle := hr.within
    refine List.mem_singleton.2 (hr.eq_of_contains hall hr.contains_start ⟨Nat.zero_le _, ?_⟩)
    simp only
    omega

/-- A place at which it does not hold adds no run. -/
theorem longestRuns_succ_of_not (h : ¬p n) : longestRuns p (n + 1) = longestRuns p n := by
  have hnone : longestRuns (fun i => p (n + i)) 1 = [] := by
    refine longestRuns_eq_nil fun i hi => ?_
    rwa [show n + i = n by omega]
  rw [longestRuns_append (Or.inr (Or.inr (Or.inr h))), hnone, List.map_nil, List.append_nil]

theorem longestRuns_congr (h : ∀ i < n, (p i ↔ q i)) : longestRuns p n = longestRuns q n := by
  refine longestRuns_eq pairwise_longestRuns fun r => ?_
  rw [mem_longestRuns]
  exact ⟨IsLongestRun.imp_of_iff fun i hi => (h i hi).symm, IsLongestRun.imp_of_iff h⟩

end Runs

end SentenceQuery
