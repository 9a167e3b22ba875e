import SentenceQuery.Proofs.Pattern.Avoid
import SentenceQuery.Proofs.Steps
import SentenceQuery.Proofs.Text.Quoting
import SentenceQuery.Sentence.Reading

/-!
# The parts of a sentence

A sentence is read in three parts: the clauses before the filter (`readHead`), the filter, and the clauses behind it
(`readTail`). `ofSentence_eq_ok` says that a plan comes of reading the three one after the other. The clauses before and behind
the filter take no quote; those before it are not changed by what stands behind the first quote (`readHead_exchange`), and
those behind it are read the same wherever they stand (`readTail_offset`).
-/

namespace SentenceQuery

namespace Sentence

/-- The columns of a clause that is a list of them. -/
def readColumnList (kind : Kind) (clause : Node Rule) : Except QueryError (List String) := do
  readColumns kind (← clause.single)

/-- The clauses before the filter: the kind, the id and the group fields, and the place behind them. -/
def readHead (c : Cursor) : Except QueryError ((Kind × String × List String) × Cursor) := do
  let (clause, c) ← c.expect .dataset
  let (kind, datasetId) ← readDataset clause
  let (groupFields, c) ← readOptional .groupClause c [] (readColumnList kind)
  .ok ((kind, datasetId, groupFields), c)

/-- The clauses behind the filter: what is shown, what is derived, and the order. -/
def readTail (kind : Kind) (groupFields : List String) (c : Cursor) :
    Except QueryError (List String × List ApplyDefinition × Order) := do
  let (clause, c) ← c.expect .display
  let displayFields ← readColumnList kind clause
  let (applyDefs, c) ← readOptional .applyClause c [] (readDefinitions kind groupFields)
  let (order, c) ← readOptional .sortClause c Order.unsorted (readOrder kind)
  let _ ← c.expect .finish
  .ok (displayFields, applyDefs, order)

end Sentence

open Sentence

/-- The plan of what the parts of a sentence say. -/
def Plan.ofParts (head : Kind × String × List String) (criteria : List Criterion)
    (tail : List String × List ApplyDefinition × Order) : Plan where
  kind := head.1
  datasetId := head.2.1
  criteria
  displayFields := tail.1.eraseDups
  groupFields := head.2.2
  applyDefs := tail.2.1
  order := tail.2.2
  allowedDisplayFields := allowedColumns head.2.2 tail.2.1

/-! ## Taking the readers apart -/

theorem expect_eq_ok {clause : RequiredClause} {c : Cursor} {r : Node Rule × Cursor} :
    c.expect clause = .ok r ↔ c.accept? clause.rule = some r := by
  unfold Cursor.expect
  cases c.accept? clause.rule <;> simp

theorem readOptional_eq_ok {α : Type} {rule : Rule} {c c' : Cursor} {default a : α}
    {read : Node Rule → Except QueryError α} :
    readOptional rule c default read = .ok (a, c') ↔
      (∃ clause, c.accept? rule = some (clause, c') ∧ read clause = .ok a) ∨
        c.accept? rule = none ∧ a = default ∧ c' = c := by
  unfold readOptional
  cases haccept : c.accept? rule with
  | none => simp [eq_comm]
  | some r =>
    obtain ⟨clause, c''⟩ := r
    simp only [bind_eq_ok, Except.ok.injEq, Prod.mk.injEq, Option.some.injEq]
    constructor
    · rintro ⟨b, hread, rfl, rfl⟩
      exact Or.inl ⟨clause, ⟨rfl, rfl⟩, hread⟩
    · rintro (⟨_, ⟨rfl, rfl⟩, hread⟩ | ⟨habsurd, -⟩)
      · exact ⟨a, hread, rfl, rfl⟩
      · cases habsurd

theorem readHead_eq_ok {c c'' : Cursor} {head : Kind × String × List String} :
    readHead c = .ok (head, c'') ↔ ∃ clause c', c.accept? .datasetClause = some (clause, c') ∧
      readDataset clause = .ok (head.1, head.2.1) ∧
      readOptional .groupClause c' [] (readColumnList head.1) = .ok (head.2.2, c'') := by
  obtain ⟨kind, id, groups⟩ := head
  simp only [readHead, bind_eq_ok, Prod.exists, expect_eq_ok, Except.ok.injEq, Prod.mk.injEq]
  constructor
  · rintro ⟨clause, c', haccept, _, _, hread, _, _, hgroup, ⟨rfl, rfl, rfl⟩, rfl⟩
    exact ⟨clause, c', haccept, hread, hgroup⟩
  · rintro ⟨clause, c', haccept, hread, hgroup⟩
    exact ⟨clause, c', haccept, kind, id, hread, groups, c'', hgroup, ⟨rfl, rfl, rfl⟩, rfl⟩

theorem readTail_eq_ok {kind : Kind} {groupFields : List String} {c : Cursor}
    {tail : List String × List ApplyDefinition × Order} :
    readTail kind groupFields c = .ok tail ↔ ∃ display c₁ c₂ c₃ finish c₄,
      c.accept? .displayClause = some (display, c₁) ∧ readColumnList kind display = .ok tail.1 ∧
      readOptional .applyClause c₁ [] (readDefinitions kind groupFields) = .ok (tail.2.1, c₂) ∧
      readOptional .sortClause c₂ Order.unsorted (readOrder kind) = .ok (tail.2.2, c₃) ∧
      c₃.accept? .finish = some (finish, c₄) := by
  obtain ⟨shown, defs, order⟩ := tail
  simp only [readTail, bind_eq_ok, Prod.exists, expect_eq_ok, Except.ok.injEq, Prod.mk.injEq]
  constructor
  · rintro ⟨display, c₁, hdisplay, _, hshown, _, c₂, hdefs, _, c₃, horder, finish, c₄, hfinish, rfl, rfl, rfl⟩
    exact ⟨display, c₁, c₂, c₃, finish, c₄, hdisplay, hshown, hdefs, horder, hfinish⟩
  · rintro ⟨display, c₁, c₂, c₃, finish, c₄, hdisplay, hshown, hdefs, horder, hfinish⟩
    exact ⟨display, c₁, hdisplay, shown, hshown, defs, c₂, hdefs, order, c₃, horder, finish, c₄, hfinish, rfl, rfl, rfl⟩

/-- A sentence is accepted where its three parts are, and what concerns several clauses is in order. -/
theorem ofSentence_eq_ok {s : String} {p : Plan} :
    Plan.ofSentence s = .ok p ↔ ∃ head c clause c' criteria tail,
      readHead (Cursor.start s.toList) = .ok (head, c) ∧ c.accept? .filterClause = some (clause, c') ∧
      readFilter head.1 clause = .ok criteria ∧ readTail head.1 head.2.2 c' = .ok tail ∧
      p = Plan.ofParts head criteria tail ∧ p.validate = .ok () := by
  simp only [Plan.ofSentence, readHead, readTail, readColumnList, bind_eq_ok, Prod.exists, expect_eq_ok,
    Except.ok.injEq, Prod.mk.injEq]
  constructor
  · rintro ⟨dataset, c₁, hdataset, kind, id, hid, groups, c₂, hgroups, filter, c₃, hfilter, criteria, hcriteria, display, c₄,
      hdisplay, list, hlist, shown, hshown, defs, c₅, hdefs, order, c₆, horder, finish, c₇, hfinish, _, hvalid, rfl⟩
    exact ⟨kind, id, groups, c₂, filter, c₃, criteria, shown, defs, order,
      ⟨dataset, c₁, hdataset, kind, id, hid, groups, c₂, hgroups, ⟨rfl, rfl, rfl⟩, rfl⟩, hfilter, hcriteria,
      ⟨display, c₄, hdisplay, shown, ⟨list, hlist, hshown⟩, defs, c₅, hdefs, order, c₆, horder, finish, c₇, hfinish, rfl, rfl,
        rfl⟩, rfl, hvalid⟩
  · rintro ⟨_, _, _, _, filter, c₃, criteria, _, _, _,
      ⟨dataset, c₁, hdataset, kind, id, hid, groups, c₂, hgroups, ⟨rfl, rfl, rfl⟩, rfl⟩, hfilter, hcriteria,
      ⟨display, c₄, hdisplay, shown, ⟨list, hlist, hshown⟩, defs, c₅, hdefs, order, c₆, horder, finish, c₇, hfinish, rfl, rfl,
        rfl⟩, rfl, hvalid⟩
    exact ⟨dataset, c₁, hdataset, kind, id, hid, groups, c₂, hgroups, filter, c₃, hfilter, criteria, hcriteria, display, c₄,
      hdisplay, list, hlist, shown, hshown, defs, c₅, hdefs, order, c₆, horder, finish, c₇, hfinish, _, hvalid, rfl⟩

/-! ## Where a clause stands -/

/-- The place so many bytes further on. -/
def Cursor.shift (d : Nat) (c : Cursor) : Cursor := ⟨c.offset + d, c.rest⟩

theorem accept?_eq_some {rule : Rule} {c c' : Cursor} {n : Node Rule} :
    c.accept? rule = some (n, c') ↔ ∃ o ns, rule.pattern.run c.skipBlanks.offset c.skipBlanks.rest = some o ∧
      o.nodes = n :: ns ∧ c' = ⟨c.skipBlanks.offset + byteSize o.text, o.rest⟩ := by
  unfold Cursor.accept?
  cases hrun : rule.pattern.run c.skipBlanks.offset c.skipBlanks.rest with
  | none => simp [hrun]
  | some o =>
    obtain ⟨text, nodes, rest⟩ := o
    cases nodes with
    | nil => simp [hrun]
    | cons m ms =>
      simp only [hrun, Option.some.injEq, Prod.mk.injEq]
      constructor
      · rintro ⟨rfl, rfl⟩
        exact ⟨_, ms, rfl, rfl, rfl⟩
      · rintro ⟨_, ns, rfl, hnodes, rfl⟩
        exact ⟨(List.cons.inj hnodes).1, rfl⟩

theorem accept?_of_run {rule : Rule} {c : Cursor} {offset : Nat} {s text rest : List Char} {n : Node Rule}
    {ns : List (Node Rule)} (hskip : c.skipBlanks = ⟨offset, s⟩)
    (h : rule.pattern.run offset s = some ⟨text, n :: ns, rest⟩) :
    c.accept? rule = some (n, ⟨offset + byteSize text, rest⟩) := by
  have hrun : rule.pattern.run c.skipBlanks.offset c.skipBlanks.rest = some ⟨text, n :: ns, rest⟩ := by
    rw [hskip]
    exact h
  have hplace : c.skipBlanks.offset = offset := by rw [hskip]
  rw [← hplace]
  exact accept?_eq_some.2 ⟨_, ns, hrun, rfl, rfl⟩

/-- Where a clause stands shows only in where its nodes start. -/
theorem accept?_shift (rule : Rule) (c : Cursor) (d : Nat) :
    (c.shift d).accept? rule = (c.accept? rule).map fun r => (r.1.shift d, r.2.shift d) := by
  have hoffset : (c.shift d).skipBlanks.offset = c.skipBlanks.offset + d := by
    simp only [Cursor.skipBlanks, Cursor.shift]
    omega
  have hrest : (c.shift d).skipBlanks.rest = c.skipBlanks.rest := rfl
  unfold Cursor.accept?
  simp only [hoffset, hrest, Pattern.run_shift]
  cases rule.pattern.run c.skipBlanks.offset c.skipBlanks.rest with
  | none => rfl
  | some o =>
    obtain ⟨text, nodes, rest⟩ := o
    cases nodes with
    | nil => rfl
    | cons n ns =>
      simp only [Option.map_some, Outcome.shift, List.map_cons, Cursor.shift, Option.some.injEq, Prod.mk.injEq,
        Cursor.mk.injEq, true_and, and_true]
      omega

theorem accept?_shift_eq_some {rule : Rule} {c c'' : Cursor} {d : Nat} {m : Node Rule} :
    (c.shift d).accept? rule = some (m, c'') ↔
      ∃ n c', c.accept? rule = some (n, c') ∧ m = n.shift d ∧ c'' = c'.shift d := by
  rw [accept?_shift, Option.map_eq_some_iff]
  constructor
  · rintro ⟨⟨n, c'⟩, haccept, heq⟩
    cases heq
    exact ⟨n, c', haccept, rfl, rfl⟩
  · rintro ⟨n, c', haccept, rfl, rfl⟩
    exact ⟨(n, c'), haccept, rfl⟩

theorem accept?_shift_eq_none {rule : Rule} {c : Cursor} {d : Nat} :
    (c.shift d).accept? rule = none ↔ c.accept? rule = none := by
  rw [accept?_shift, Option.map_eq_none_iff]

theorem readOptional_shift_eq_ok {α : Type} {rule : Rule} {c c'' : Cursor} {d : Nat} {default a : α}
    {read : Node Rule → Except QueryError α} (hread : ∀ n, read (n.shift d) = read n) :
    readOptional rule (c.shift d) default read = .ok (a, c'') ↔
      ∃ c', readOptional rule c default read = .ok (a, c') ∧ c'' = c'.shift d := by
  simp only [readOptional_eq_ok, accept?_shift_eq_some, accept?_shift_eq_none]
  constructor
  · rintro (⟨_, ⟨n, c', haccept, rfl, rfl⟩, h⟩ | ⟨hnone, rfl, rfl⟩)
    · exact ⟨c', Or.inl ⟨n, haccept, (hread n).symm.trans h⟩, rfl⟩
    · exact ⟨c, Or.inr ⟨hnone, rfl, rfl⟩, rfl⟩
  · rintro ⟨c', ⟨n, haccept, h⟩ | ⟨hnone, rfl, rfl⟩, rfl⟩
    · exact Or.inl ⟨_, ⟨n, c', haccept, rfl, rfl⟩, (hread n).trans h⟩
    · exact Or.inr ⟨hnone, rfl, rfl⟩

/-! ### What is read does not depend on it -/

theorem readColumns_shift (kind : Kind) (d : Nat) (list : Node Rule) :
    readColumns kind (list.shift d) = readColumns kind list := by
  unfold readColumns
  rw [Node.shift_inner, List.mapM_map]
  simp only [Function.comp_def, Node.shift_string]

theorem readColumnList_shift (kind : Kind) (d : Nat) (clause : Node Rule) :
    readColumnList kind (clause.shift d) = readColumnList kind clause := by
  unfold readColumnList Node.single
  rw [Node.shift_inner, Node.shift_rule]
  cases clause.inner with
  | nil => rfl
  | cons list ns => exact readColumns_shift kind d list

theorem readDefinition_shift (kind : Kind) (groupFields : List String) (earlier : List ApplyDefinition) (k : Nat)
    (d : Node Rule) : readDefinition kind groupFields earlier (d.shift k) = readDefinition kind groupFields earlier d := by
  unfold readDefinition
  rw [Node.shift_inner]
  rcases d.inner with _ | ⟨name, _ | ⟨op, _ | ⟨source, ns⟩⟩⟩
  · rfl
  · rfl
  · rfl
  · simp only [List.map_cons, Node.shift_string]

theorem readDefinitions_shift (kind : Kind) (groupFields : List String) (d : Nat) (clause : Node Rule) :
    readDefinitions kind groupFields (clause.shift d) = readDefinitions kind groupFields clause := by
  unfold readDefinitions
  rw [Node.shift_inner, List.foldlM_map]
  simp only [readDefinition_shift]

theorem readOrder_shift (kind : Kind) (d : Nat) (clause : Node Rule) :
    readOrder kind (clause.shift d) = readOrder kind clause := by
  unfold readOrder
  rw [Node.shift_inner]
  rcases clause.inner with _ | ⟨direction, _ | ⟨fields, ns⟩⟩
  · rfl
  · rfl
  · simp only [List.map_cons, Node.shift_string, readColumns_shift]

theorem readTail_shift {kind : Kind} {groupFields : List String} {c : Cursor} {d : Nat}
    {tail : List String × List ApplyDefinition × Order} :
    readTail kind groupFields (c.shift d) = .ok tail ↔ readTail kind groupFields c = .ok tail := by
  rw [readTail_eq_ok, readTail_eq_ok]
  constructor
  · rintro ⟨_, _, _, _, _, _, hdisplay, hshown, hdefs, horder, hfinish⟩
    obtain ⟨display, c₁, hdisplay', rfl, rfl⟩ := accept?_shift_eq_some.1 hdisplay
    obtain ⟨c₂, hdefs', rfl⟩ := (readOptional_shift_eq_ok (readDefinitions_shift kind groupFields d)).1 hdefs
    obtain ⟨c₃, horder', rfl⟩ := (readOptional_shift_eq_ok (readOrder_shift kind d)).1 horder
    obtain ⟨finish, c₄, hfinish', -, -⟩ := accept?_shift_eq_some.1 hfinish
    rw [readColumnList_shift] at hshown
    exact ⟨display, c₁, c₂, c₃, finish, c₄, hdisplay', hshown, hdefs', horder', hfinish'⟩
  · rintro ⟨display, c₁, c₂, c₃, finish, c₄, hdisplay, hshown, hdefs, horder, hfinish⟩
    rw [← readColumnList_shift kind d] at hshown
    exact ⟨display.shift d, c₁.shift d, c₂.shift d, c₃.shift d, finish.shift d, c₄.shift d,
      accept?_shift_eq_some.2 ⟨display, c₁, hdisplay, rfl, rfl⟩, hshown,
      (readOptional_shift_eq_ok (readDefinitions_shift kind groupFields d)).2 ⟨c₂, hdefs, rfl⟩,
      (readOptional_shift_eq_ok (readOrder_shift kind d)).2 ⟨c₃, horder, rfl⟩,
      accept?_shift_eq_some.2 ⟨finish, c₄, hfinish, rfl, rfl⟩⟩

/-- The clauses behind the filter are read the same wherever they stand. -/
theorem readTail_offset {kind : Kind} {groupFields : List String} {o o' : Nat} {s : List Char}
    {tail : List String × List ApplyDefinition × Order} (h : readTail kind groupFields ⟨o, s⟩ = .ok tail) :
    readTail kind groupFields ⟨o', s⟩ = .ok tail := by
  have hstart : ∀ d, (⟨d, s⟩ : Cursor) = (Cursor.start s).shift d := fun d => by simp [Cursor.start, Cursor.shift]
  rw [hstart, readTail_shift] at h ⊢
  exact h

/-! ## Clauses without quotes -/

/-- The place with more text behind it. -/
def Cursor.extend (y : List Char) (c : Cursor) : Cursor := ⟨c.offset, c.rest ++ y⟩

theorem skipBlanks_extend_quote (c : Cursor) (y : List Char) :
    (c.extend ('"' :: y)).skipBlanks = c.skipBlanks.extend ('"' :: y) := by
  have hover : Over isBlank (c.rest.takeWhile isBlank) := over_takeWhile c.rest
  have hsplit : c.rest.takeWhile isBlank ++ c.rest.dropWhile isBlank = c.rest := List.takeWhile_append_dropWhile
  have hstops : Stops isBlank (c.rest.dropWhile isBlank ++ '"' :: y) :=
    stops_append_cons (stops_dropWhile c.rest) (by decide) y
  have htake := takeWhile_append_of_stops hover hstops
  have hdrop := dropWhile_append_of_stops hover hstops
  rw [← List.append_assoc, hsplit] at htake hdrop
  simp only [Cursor.skipBlanks, Cursor.extend, htake, hdrop]

/-- A clause without quotes does not depend on what stands behind the next quote. -/
theorem accept?_extend_quote {rule : Rule} (h : rule.pattern.avoids '"' = true) (c : Cursor) :
    ∃ r : Option (Node Rule × Cursor), ∀ y,
      (c.extend ('"' :: y)).accept? rule = r.map fun q => (q.1, q.2.extend ('"' :: y)) := by
  obtain ⟨r, hr⟩ := Pattern.exists_run_append h c.skipBlanks.offset c.skipBlanks.rest
  have hrun : ∀ y, rule.pattern.run (c.skipBlanks.extend ('"' :: y)).offset (c.skipBlanks.extend ('"' :: y)).rest =
      r.map (Outcome.extend ('"' :: y)) := hr
  cases r with
  | none => exact ⟨none, fun y => by simp [Cursor.accept?, skipBlanks_extend_quote, hrun]⟩
  | some o =>
    obtain ⟨text, nodes, rest⟩ := o
    cases nodes with
    | nil => exact ⟨none, fun y => by simp [Cursor.accept?, skipBlanks_extend_quote, hrun, Outcome.extend]⟩
    | cons n ns =>
      refine ⟨some (n, ⟨c.skipBlanks.offset + byteSize text, rest⟩), fun y => ?_⟩
      simp only [Cursor.accept?, skipBlanks_extend_quote, hrun, Option.map_some, Outcome.extend]
      rfl

/-- If the next quote stands behind a clause without quotes, the clause is the same for every text behind that quote. -/
theorem accept?_exchange {rule : Rule} (h : rule.pattern.avoids '"' = true) {c c' : Cursor} {n : Node Rule} {y : List Char}
    (haccept : (c.extend ('"' :: y)).accept? rule = some (n, c')) :
    ∃ c₁ : Cursor, c' = c₁.extend ('"' :: y) ∧
      ∀ z, (c.extend ('"' :: z)).accept? rule = some (n, c₁.extend ('"' :: z)) := by
  obtain ⟨r, hr⟩ := accept?_extend_quote h c
  rw [hr, Option.map_eq_some_iff] at haccept
  obtain ⟨⟨m, c₁⟩, rfl, heq⟩ := haccept
  cases heq
  exact ⟨c₁, rfl, fun z => hr z⟩

theorem accept?_eq_none_exchange {rule : Rule} (h : rule.pattern.avoids '"' = true) {c : Cursor} {y : List Char}
    (haccept : (c.extend ('"' :: y)).accept? rule = none) (z : List Char) :
    (c.extend ('"' :: z)).accept? rule = none := by
  obtain ⟨r, hr⟩ := accept?_extend_quote h c
  rw [hr, Option.map_eq_none_iff] at haccept
  rw [hr, haccept]
  rfl

theorem readOptional_exchange {α : Type} {rule : Rule} (h : rule.pattern.avoids '"' = true) {c c' : Cursor} {default a : α}
    {read : Node Rule → Except QueryError α} {y : List Char}
    (hread : readOptional rule (c.extend ('"' :: y)) default read = .ok (a, c')) :
    ∃ c₁ : Cursor, c' = c₁.extend ('"' :: y) ∧
      ∀ z, readOptional rule (c.extend ('"' :: z)) default read = .ok (a, c₁.extend ('"' :: z)) := by
  rcases readOptional_eq_ok.1 hread with ⟨clause, haccept, hclause⟩ | ⟨hnone, rfl, rfl⟩
  · obtain ⟨c₁, rfl, hsame⟩ := accept?_exchange h haccept
    exact ⟨c₁, rfl, fun z => readOptional_eq_ok.2 (Or.inl ⟨clause, hsame z, hclause⟩)⟩
  · exact ⟨c, rfl, fun z => readOptional_eq_ok.2 (Or.inr ⟨accept?_eq_none_exchange h hnone z, rfl, rfl⟩)⟩

/-- The clauses before the filter do not depend on what stands behind the first quote. -/
theorem readHead_exchange {c c' : Cursor} {head : Kind × String × List String} {y : List Char}
    (h : readHead (c.extend ('"' :: y)) = .ok (head, c')) :
    ∃ c₁ : Cursor, c' = c₁.extend ('"' :: y) ∧ ∀ z, readHead (c.extend ('"' :: z)) = .ok (head, c₁.extend ('"' :: z)) := by
  obtain ⟨clause, _, hdataset, hid, hgroups⟩ := readHead_eq_ok.1 h
  obtain ⟨c₁, rfl, hdataset'⟩ := accept?_exchange (by decide) hdataset
  obtain ⟨c₂, rfl, hgroups'⟩ := readOptional_exchange (by decide) hgroups
  exact ⟨c₂, rfl, fun z => readHead_eq_ok.2 ⟨clause, _, hdataset' z, hid, hgroups' z⟩⟩

/-- What is left behind a clause is an end of what was there. -/
theorem accept?_suffix {rule : Rule} {c c' : Cursor} {n : Node Rule} (h : c.accept? rule = some (n, c')) :
    c'.rest <:+ c.rest := by
  obtain ⟨o, ns, hrun, -, rfl⟩ := accept?_eq_some.1 h
  have hsplit := Pattern.run_splits hrun
  have hdrop : c.skipBlanks.rest <:+ c.rest := List.dropWhile_suffix isBlank
  exact List.IsSuffix.trans ⟨o.text, hsplit.symm⟩ hdrop

theorem readOptional_suffix {α : Type} {rule : Rule} {c c' : Cursor} {default a : α} {read : Node Rule → Except QueryError α}
    (h : readOptional rule c default read = .ok (a, c')) : c'.rest <:+ c.rest := by
  rcases readOptional_eq_ok.1 h with ⟨clause, haccept, -⟩ | ⟨-, -, rfl⟩
  · exact accept?_suffix haccept
  · exact List.suffix_refl _

theorem readHead_suffix {c c' : Cursor} {head : Kind × String × List String} (h : readHead c = .ok (head, c')) :
    c'.rest <:+ c.rest := by
  obtain ⟨clause, c₁, hdataset, -, hgroups⟩ := readHead_eq_ok.1 h
  exact (readOptional_suffix hgroups).trans (accept?_suffix hdataset)

theorem unquoted_of_accept? {rule : Rule} (h : rule.pattern.avoids '"' = true) {c c' : Cursor} {n : Node Rule}
    (haccept : c.accept? rule = some (n, c')) (hrest : Unquoted c'.rest) : Unquoted c.rest := by
  intro hmem
  obtain ⟨x, y, hsplit, -⟩ := List.eq_append_cons_of_mem hmem
  have hextend : c = Cursor.extend ('"' :: y) ⟨c.offset, x⟩ := by rw [Cursor.extend, ← hsplit]
  rw [hextend] at haccept
  obtain ⟨c₁, rfl, -⟩ := accept?_exchange h haccept
  refine hrest ?_
  simp [Cursor.extend]

theorem unquoted_of_readOptional {α : Type} {rule : Rule} (h : rule.pattern.avoids '"' = true) {c c' : Cursor}
    {default a : α} {read : Node Rule → Except QueryError α} (hread : readOptional rule c default read = .ok (a, c'))
    (hrest : Unquoted c'.rest) : Unquoted c.rest := by
  rcases readOptional_eq_ok.1 hread with ⟨clause, haccept, -⟩ | ⟨-, -, rfl⟩
  · exact unquoted_of_accept? h haccept hrest
  · exact hrest

/-- Behind the full stop nothing is left. -/
theorem rest_of_accept?_finish {c c' : Cursor} {n : Node Rule} (h : c.accept? .finish = some (n, c')) : c'.rest = [] := by
  obtain ⟨o, ns, hrun, -, rfl⟩ := accept?_eq_some.1 h
  obtain ⟨one, hone, rfl⟩ := Pattern.run_node_eq_some.1 hrun
  obtain ⟨_, _, -, hrest, rfl⟩ := Pattern.run_seq_eq_some.1 hone
  obtain ⟨_, _, -, hend, rfl⟩ := Pattern.run_seq_eq_some.1 hrest
  obtain ⟨_, hfinish, rfl⟩ := Pattern.run_token_eq_some.1 hend
  obtain ⟨-, rfl⟩ := Pattern.run_finish_eq_some.1 hfinish
  rfl

/-- No quote stands behind the filter. -/
theorem unquoted_of_readTail {kind : Kind} {groupFields : List String} {c : Cursor}
    {tail : List String × List ApplyDefinition × Order} (h : readTail kind groupFields c = .ok tail) :
    Unquoted c.rest := by
  obtain ⟨display, c₁, c₂, c₃, finish, c₄, hdisplay, -, hdefs, horder, hfinish⟩ := readTail_eq_ok.1 h
  have h₄ : Unquoted c₄.rest := by
    rw [rest_of_accept?_finish hfinish]
    exact List.not_mem_nil
  have h₃ : Unquoted c₃.rest := unquoted_of_accept? (by decide) hfinish h₄
  have h₂ : Unquoted c₂.rest := unquoted_of_readOptional (by decide) horder h₃
  have h₁ : Unquoted c₁.rest := unquoted_of_readOptional (by decide) hdefs h₂
  exact unquoted_of_accept? (by decide) hdisplay h₁

end SentenceQuery
