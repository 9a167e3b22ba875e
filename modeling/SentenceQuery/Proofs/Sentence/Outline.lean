import SentenceQuery.Proofs.Grammar.ClauseParts
import SentenceQuery.Proofs.Sentence.Reading

/-!
# The clauses of a sentence and their words

A sentence has its clauses if the grammar finds them one behind the other up to the full stop (`Clauses.ofSentence?`), whatever
their words mean. Such clauses always say something (`exists_outline`): an outline is the words of the clauses, with no check
made on them but those of the grammar. A sentence that has its clauses is read off them, one after the other
(`ofSentence_eq_plan`).
-/

namespace SentenceQuery

open Grammar Sentence

/-- The clauses of a sentence. -/
structure Clauses where
  dataset : Node Rule
  group : Option (Node Rule)
  filter : Node Rule
  display : Node Rule
  apply : Option (Node Rule)
  sort : Option (Node Rule)

/-- A clause that may be left out, and the place behind it. -/
def Cursor.acceptOptional (rule : Rule) (c : Cursor) : Option (Node Rule) × Cursor :=
  match c.accept? rule with
  | some (clause, c) => (some clause, c)
  | none => (none, c)

/-- The clauses of a sentence that has them in order, up to the full stop. -/
def Clauses.ofSentence? (s : String) : Option Clauses := do
  let (dataset, c) ← (Cursor.start s.toList).accept? .datasetClause
  let (group, c) := c.acceptOptional .groupClause
  let (filter, c) ← c.accept? .filterClause
  let (display, c) ← c.accept? .displayClause
  let (apply, c) := c.acceptOptional .applyClause
  let (sort, c) := c.acceptOptional .sortClause
  let _ ← c.accept? .finish
  some { dataset, group, filter, display, apply, sort }

/-- The words of the clauses of a sentence. Where a clause is left out there are none; a filter that selects every record has
no body. -/
structure Outline where
  kind : String
  dataset : String
  groups : Option (List String)
  body : Option (List Char)
  shown : List String
  derived : Option (List Derivation)
  order : Option (Direction × List String)
deriving DecidableEq

/-- The clauses are made of these words. -/
structure Clauses.Say (c : Clauses) (o : Outline) : Prop where
  dataset : ReadsDataset (o.kind, o.dataset) c.dataset
  groups : Option.Rel ReadsColumns o.groups c.group
  filter : ReadsFilter o.body c.filter
  shown : ReadsColumns o.shown c.display
  derived : Option.Rel ReadsDefinitions o.derived c.apply
  order : Option.Rel ReadsOrder o.order c.sort

/-! ## Every clause says something -/

/-- What a rule leaves is what is accepted. -/
theorem leaves_of_accept? {rule : Rule} {c c' : Cursor} {n : Node Rule} (haccept : c.accept? rule = some (n, c'))
    {P : Node Rule → Prop} (h : LeavesOne rule.pattern P) : P n := by
  obtain ⟨o, ns, hrun, hnodes, -⟩ := accept?_eq_some.1 haccept
  obtain ⟨m, hm, hleaves⟩ := h hrun
  rw [hm] at hnodes
  obtain ⟨rfl, -⟩ := List.cons.inj hnodes
  exact hleaves

theorem reads_of_acceptOptional {α : Type} (rule : Rule) (c : Cursor) {reads : α → Node Rule → Prop}
    (h : LeavesOne rule.pattern fun n => ∃ a, reads a n) : ∃ a, Option.Rel reads a (c.acceptOptional rule).1 := by
  unfold Cursor.acceptOptional
  cases haccept : c.accept? rule with
  | none => exact ⟨none, Option.Rel.none⟩
  | some r =>
    obtain ⟨a, ha⟩ := leaves_of_accept? haccept h
    exact ⟨some a, Option.Rel.some ha⟩

/-- A sentence that has its clauses has an outline. -/
theorem exists_outline {s : String} {c : Clauses} (h : Clauses.ofSentence? s = some c) : ∃ o, c.Say o := by
  simp only [Clauses.ofSentence?, Option.bind_eq_bind, Option.bind_eq_some_iff, Prod.exists, Option.some.injEq] at h
  obtain ⟨dataset, c₁, hdataset, filter, c₂, hfilter, display, c₃, hdisplay, _, _, -, rfl⟩ := h
  obtain ⟨words, hwords⟩ := leaves_of_accept? hdataset leaves_datasetClause
  obtain ⟨groups, hgroups⟩ := reads_of_acceptOptional .groupClause c₁ leaves_groupClause
  obtain ⟨body, hbody⟩ := leaves_of_accept? hfilter leaves_filterClause
  obtain ⟨shown, hshown⟩ := leaves_of_accept? hdisplay leaves_displayClause
  obtain ⟨derived, hderived⟩ := reads_of_acceptOptional .applyClause c₃ leaves_applyClause
  obtain ⟨order, horder⟩ := reads_of_acceptOptional .sortClause (c₃.acceptOptional .applyClause).2 leaves_sortClause
  exact ⟨⟨words.1, words.2, groups, body, shown, derived, order⟩, hwords, hgroups, hbody, hshown, hderived, horder⟩

/-! ## Reading the clauses -/

/-- What an optional clause says, or a default where it is left out. -/
def readOr {α : Type} (default : α) (read : Node Rule → Except QueryError α) : Option (Node Rule) → Except QueryError α
  | none => .ok default
  | some clause => read clause

/-- The plan of clauses, which are read and checked one after the other. -/
def Clauses.plan (c : Clauses) : Except QueryError Plan := do
  let (kind, datasetId) ← readDataset c.dataset
  let groupFields ← readOr [] (readColumnList kind) c.group
  let criteria ← readFilter kind c.filter
  let displayFields ← readColumnList kind c.display
  let applyDefs ← readOr [] (readDefinitions kind groupFields) c.apply
  let order ← readOr Order.unsorted (readOrder kind) c.sort
  let plan := Plan.ofParts (kind, datasetId, groupFields) criteria (displayFields, applyDefs, order)
  plan.validate
  .ok plan

theorem readOptional_eq_readOr {α : Type} (rule : Rule) (c : Cursor) (default : α)
    (read : Node Rule → Except QueryError α) :
    readOptional rule c default read =
      (do .ok (← readOr default read (c.acceptOptional rule).1, (c.acceptOptional rule).2)) := by
  unfold readOptional Cursor.acceptOptional
  cases c.accept? rule <;> rfl

/-- A sentence that has its clauses is read off them. -/
theorem ofSentence_eq_plan {s : String} {c : Clauses} (h : Clauses.ofSentence? s = some c) :
    Plan.ofSentence s = c.plan := by
  simp only [Clauses.ofSentence?, Option.bind_eq_bind, Option.bind_eq_some_iff, Prod.exists, Option.some.injEq] at h
  obtain ⟨dataset, c₁, hdataset, filter, c₂, hfilter, display, c₃, hdisplay, finish, c₄, hfinish, rfl⟩ := h
  have hdataset' : (Cursor.start s.toList).expect .dataset = .ok (dataset, c₁) := expect_eq_ok.2 hdataset
  have hfilter' : (c₁.acceptOptional .groupClause).2.expect .filter = .ok (filter, c₂) := expect_eq_ok.2 hfilter
  have hdisplay' : c₂.expect .display = .ok (display, c₃) := expect_eq_ok.2 hdisplay
  have hfinish' : ((c₃.acceptOptional .applyClause).2.acceptOptional .sortClause).2.expect .finish = .ok (finish, c₄) :=
    expect_eq_ok.2 hfinish
  simp only [Plan.ofSentence, Clauses.plan, readOptional_eq_readOr, readColumnList, hdataset', hfilter', hdisplay', hfinish',
    bind_assoc, ok_bind]
  rfl

end SentenceQuery
