import SentenceQuery.Proofs.Grammar.FilterBody
import SentenceQuery.Proofs.Steps

/-!
# What a clause leaves

The nodes that a pattern leaves (`Leaves`), put together as the pattern is: marks, keywords and blanks leave none, so the
inner nodes of a clause are those of its names, lists and fixed words. Each clause that matches thus leaves all the parts that
it is read by: a list has a member, a direction is one of the two and an aggregate one of the five.
-/

namespace SentenceQuery

namespace Grammar

open Pattern

/-- What is left wherever the pattern matches. -/
def Leaves (p : Pattern Rule) (nodes : List (Node Rule) → Prop) : Prop :=
  ∀ ⦃offset : Nat⦄ ⦃s : List Char⦄ ⦃o : Outcome Rule⦄, p.run offset s = some o → nodes o.nodes

/-- The pattern leaves no node. -/
abbrev Silent (p : Pattern Rule) : Prop := Leaves p (· = [])

/-- The pattern leaves one node, and what holds of it. -/
abbrev LeavesOne (p : Pattern Rule) (P : Node Rule → Prop) : Prop := Leaves p fun ns => ∃ n, ns = [n] ∧ P n

theorem Leaves.imp {p : Pattern Rule} {P Q : List (Node Rule) → Prop} (h : Leaves p P) (himp : ∀ ns, P ns → Q ns) :
    Leaves p Q :=
  fun _ _ _ hrun => himp _ (h hrun)

theorem silent_text (k : String) : Silent (text k) := by
  intro offset s o h
  obtain ⟨_, _, rfl⟩ := run_text_eq_some.1 h
  rfl

theorem silent_ws : Silent ws := by
  intro offset s o h
  obtain ⟨_, _, _, _, _, _, rfl⟩ := run_ws_eq_some.1 h
  rfl

theorem silent_sp : Silent sp := by
  intro offset s o h
  rw [run_sp, Option.some.injEq] at h
  rw [← h]

theorem silent_listSep : Silent listSep := by
  intro offset s o h
  obtain ⟨_, _, _, _, _, rfl⟩ := run_listSep_eq_some.1 h
  rfl

/-- What stands before a pattern and leaves nothing. -/
theorem Silent.before {p q : Pattern Rule} {Q : List (Node Rule) → Prop} (hp : Silent p) (hq : Leaves q Q) :
    Leaves (seq p q) Q := by
  intro offset s o h
  obtain ⟨one, two, hone, htwo, rfl⟩ := run_seq_eq_some.1 h
  have hnodes := hq htwo
  rwa [hp hone, List.nil_append]

/-- A word of a clause and the blanks after it. -/
theorem Leaves.afterWord {q : Pattern Rule} {Q : List (Node Rule) → Prop} (k : String) (hq : Leaves q Q) :
    Leaves (seq (text k) (seq ws q)) Q :=
  (silent_text k).before (silent_ws.before hq)

/-- A mark and the blanks that may stand after it. -/
theorem Leaves.afterMark {q : Pattern Rule} {Q : List (Node Rule) → Prop} (k : String) (hq : Leaves q Q) :
    Leaves (seq (text k) (seq sp q)) Q :=
  (silent_text k).before (silent_sp.before hq)

/-- A part, the blanks after it, and the parts behind it. -/
theorem LeavesOne.cons {p q : Pattern Rule} {P : Node Rule → Prop} {Q : List (Node Rule) → Prop} (hp : LeavesOne p P)
    (hq : Leaves q Q) : Leaves (seq p (seq ws q)) fun ns => ∃ n ns', ns = n :: ns' ∧ P n ∧ Q ns' := by
  intro offset s o h
  obtain ⟨one, two, hone, htwo, rfl⟩ := run_seq_eq_some.1 h
  obtain ⟨n, hn, hP⟩ := hp hone
  exact ⟨n, two.nodes, by rw [hn]; rfl, hP, silent_ws.before hq htwo⟩

theorem Leaves.node {p : Pattern Rule} {Q : List (Node Rule) → Prop} (rule : Rule) (h : Leaves p Q) :
    LeavesOne (node rule p) fun n => Q n.inner := by
  intro offset s o hrun
  obtain ⟨one, hone, rfl⟩ := run_node_eq_some.1 hrun
  exact ⟨_, rfl, h hone⟩

/-- A list leaves what its members leave, and has at least one. -/
theorem leaves_listOf {item : Pattern Rule} {P : Node Rule → Prop} (hitem : LeavesOne item P) :
    Leaves (listOf item) fun ns => ns ≠ [] ∧ ∀ n ∈ ns, P n := by
  have hmore : ∀ {offset s o}, Repeated (seq listSep item).run offset s o → ∀ n ∈ o.nodes, P n := by
    intro offset s o h
    induction h with
    | stop => exact fun n hn => absurd hn List.not_mem_nil
    | more hstep _ _ ih =>
      obtain ⟨m, hm, hP⟩ := silent_listSep.before hitem hstep
      intro n hn
      rw [hm] at hn
      rcases List.mem_cons.1 hn with rfl | hn
      · exact hP
      · exact ih n hn
  intro offset s o h
  obtain ⟨one, two, hone, htwo, rfl⟩ := run_seq_eq_some.1 h
  obtain ⟨m, hm, hP⟩ := hitem hone
  rw [hm]
  refine ⟨List.cons_ne_nil _ _, fun n hn => ?_⟩
  rcases List.mem_cons.1 hn with rfl | hn
  · exact hP
  · exact hmore (run_many_eq_some.1 htwo) n hn

/-! ## Names, columns and fixed words -/

theorem leaves_word (rule : Rule) : LeavesOne (token rule word) fun n => IsWord n.text := by
  intro offset s o h
  obtain ⟨_, hone, rfl⟩ := run_token_eq_some.1 h
  obtain ⟨w, _, -, hw, -, rfl⟩ := run_word_eq_some.1 hone
  exact ⟨_, rfl, hw⟩

theorem leaves_ident : LeavesOne ident fun n => ∃ start w, IsName w ∧ n = ⟨.ident, start, w, []⟩ := by
  intro offset s o h
  obtain ⟨w, _, -, hw, -, rfl⟩ := run_ident_eq_some.1 h
  exact ⟨_, rfl, offset, w, hw, rfl⟩

theorem leaves_field : LeavesOne field fun n => ∃ start t, n = ⟨.field, start, t, []⟩ := by
  intro offset s o h
  obtain ⟨t, _, -, -, -, rfl⟩ := run_field_eq_some.1 h
  exact ⟨_, rfl, offset, t, rfl⟩

theorem leaves_aggregate :
    LeavesOne aggregate fun n => ∃ start, ∃ op : Aggregate, n = ⟨.aggregate, start, op.name.toList, []⟩ := by
  intro offset s o h
  obtain ⟨_, hone, rfl⟩ := run_token_eq_some.1 h
  obtain ⟨name, hname, _, -, -, rfl⟩ := (run_oneOf_eq_some isVocabulary_aggregates).1 hone
  obtain ⟨op, -, rfl⟩ := List.mem_map.1 hname
  exact ⟨_, rfl, offset, op, rfl⟩

theorem leaves_direction : LeavesOne direction fun n => ∃ d : Direction, n.string = d.word := by
  intro offset s o h
  obtain ⟨_, hone, rfl⟩ := run_token_eq_some.1 h
  obtain ⟨word, hword, _, -, -, rfl⟩ := (run_oneOf_eq_some isVocabulary_directions).1 hone
  obtain ⟨d, -, rfl⟩ := List.mem_map.1 hword
  exact ⟨_, rfl, d, by simp [Node.string]⟩

theorem leaves_fieldList : LeavesOne fieldList fun n => n.inner ≠ [] :=
  ((leaves_listOf leaves_field).imp fun _ h => h.1).node .fieldList

/-! ## Clauses -/

/-- The clause's parts are a kind and an id, which is a word. -/
def ReadsDataset (words : String × String) (clause : Node Rule) : Prop :=
  ∃ kind id, clause.inner = [kind, id] ∧ kind.string = words.1 ∧ id.string = words.2 ∧ IsWord id.text

/-- The clause has this body, or none and selects every record. -/
def ReadsFilter : Option (List Char) → Node Rule → Prop
  | none, clause => IsAllNode clause
  | some body, clause => IsWhoseNode body clause

/-- The clause's one part is a list of these columns, of which there is at least one. -/
def ReadsColumns (names : List String) (clause : Node Rule) : Prop :=
  names ≠ [] ∧ ∃ list, clause.inner = [list] ∧ list.inner.map Node.string = names

/-- The clause's parts are these definitions, of which there is at least one, each with a name for its name. -/
def ReadsDefinitions (ds : List Derivation) (clause : Node Rule) : Prop :=
  ds ≠ [] ∧ List.Forall₂ (fun d n => IsName d.name.toList ∧ ReadsDefinition d n) ds clause.inner

/-- The clause's parts are a direction and a list of columns. -/
def ReadsOrder (order : Direction × List String) (clause : Node Rule) : Prop :=
  ∃ d list, clause.inner = [d, list] ∧ d.string = order.1.word ∧ list.inner.map Node.string = order.2

theorem leaves_datasetClause : LeavesOne datasetClause fun n => ∃ words, ReadsDataset words n := by
  have h := (LeavesOne.cons (leaves_word .kind) ((leaves_word .datasetId).afterWord "dataset")).afterWord "In"
  refine (h.node .datasetClause).imp ?_
  rintro ns ⟨n, rfl, kind, _, hinner, -, id, rfl, hid⟩
  exact ⟨n, rfl, (kind.string, id.string), kind, id, hinner, rfl, rfl, hid⟩

theorem leaves_filterClause : LeavesOne filterClause fun n => ∃ body, ReadsFilter body n := by
  intro offset s o h
  obtain ⟨n, hn, ⟨_, -, -, hall⟩ | ⟨_, b, _, _, -, -, -, -, -, -, hwhose⟩⟩ := filterClause_cases h
  · exact ⟨n, hn, none, hall⟩
  · exact ⟨n, hn, some b, hwhose⟩

theorem exists_readsColumns {clause list : Node Rule} (h : clause.inner = [list]) (hne : list.inner ≠ []) :
    ∃ names, ReadsColumns names clause :=
  ⟨_, by simpa using hne, list, h, rfl⟩

theorem leaves_groupClause : LeavesOne groupClause fun n => ∃ names, ReadsColumns names n := by
  have h := (leaves_fieldList.afterWord "by").afterWord "grouped"
  refine (h.node .groupClause).imp ?_
  rintro ns ⟨n, rfl, list, hinner, hne⟩
  exact ⟨n, rfl, exists_readsColumns hinner hne⟩

theorem leaves_displayClause : LeavesOne displayClause fun n => ∃ names, ReadsColumns names n := by
  have h := leaves_fieldList.afterWord "show"
  refine (h.node .displayClause).imp ?_
  rintro ns ⟨n, rfl, list, hinner, hne⟩
  exact ⟨n, rfl, exists_readsColumns hinner hne⟩

theorem leaves_applyDef : LeavesOne applyDef fun n => ∃ d, IsName d.name.toList ∧ ReadsDefinition d n := by
  have h := LeavesOne.cons leaves_ident
    (((LeavesOne.cons leaves_aggregate (leaves_field.afterWord "of")).afterWord "the").afterWord "is")
  refine (h.node .applyDef).imp ?_
  rintro ns ⟨n, rfl, _, _, hinner, ⟨o₁, w, hw, rfl⟩, _, _, rfl, ⟨o₂, op, rfl⟩, _, rfl, o₃, t, rfl⟩
  refine ⟨n, rfl, ⟨String.ofList w, op, String.ofList t⟩, by simpa using hw, o₁, o₂, o₃, ?_⟩
  simpa using hinner

theorem leaves_applyClause : LeavesOne applyClause fun n => ∃ ds, ReadsDefinitions ds n := by
  have h := ((leaves_listOf leaves_applyDef).afterWord "where").afterMark ","
  refine (h.node .applyClause).imp ?_
  rintro ns ⟨n, rfl, hne, hdefs⟩
  obtain ⟨ds, hds⟩ := exists_forall₂ hdefs
  refine ⟨n, rfl, ds, fun hnil => ?_, hds.flip⟩
  rw [hnil, List.forall₂_nil_right_iff] at hds
  exact hne hds

theorem leaves_sortClause : LeavesOne sortClause fun n => ∃ order, ReadsOrder order n := by
  have h := ((((LeavesOne.cons leaves_direction ((leaves_fieldList.afterWord "by").afterWord "order")).afterWord
    "in").afterWord "sort").afterMark ";")
  refine (h.node .sortClause).imp ?_
  rintro ns ⟨n, rfl, d, _, hinner, ⟨direction, hword⟩, list, rfl, -⟩
  exact ⟨n, rfl, ⟨direction, _⟩, d, list, hinner, hword, rfl⟩

end Grammar

end SentenceQuery
