import SentenceQuery.Proofs.Sentence.Outline
import SentenceQuery.Proofs.Sentence.Vocabulary

/-!
# Faults that no sentence has

Some faults say that the grammar and a reader of its nodes, or the grammar and a table, do not go together (`IsInternal`). No
sentence is refused with such a fault (`never_internal`). Each reader is taken for any complete node of its rule, so what the
grammar must grant it is the completeness of its nodes and nothing else.
-/

namespace SentenceQuery

open Grammar Sentence

/-- The fault says that a rule left other nodes than are read off it, or a word that is in no table. -/
def QueryError.IsInternal : QueryError → Prop
  | .wording (.malformed _) | .wording (.emptyNode _) | .wording (.unknownDirection _) => True
  | .lookup (.unknownOperator _) | .lookup (.unknownAggregate _) => True
  | _ => False

/-- The step does not fail with an internal fault. -/
abbrev NeverInternal {α : Type} (x : Except QueryError α) : Prop := FailsOnly (fun e => ¬e.IsInternal) x

/-! ## The parts of a complete node -/

/-- What is accepted of a rule that leaves nodes is a complete node of it. -/
theorem complete_of_accept? {rule : Rule} (hrule : rule.isSilent = false) {c c' : Cursor} {n : Node Rule}
    (h : c.accept? rule = some (n, c')) : n.rule = rule ∧ n.Complete := by
  have hleaves : LeavesOne rule.pattern fun n => n.rule = rule ∧ n.Complete := by
    intro offset s o hrun
    obtain ⟨n, hn, hnrule, -, hcomplete⟩ := complete_of_run hrule hrun
    exact ⟨n, hn, hnrule, hcomplete⟩
  exact leaves_of_accept? h hleaves

namespace Node.Complete

variable {n : Node Rule}

theorem hasParts (hn : n.Complete) {rule : Rule} (hrule : n.rule = rule) : rule.HasParts (n.inner.map Node.rule) := by
  obtain ⟨hparts, -, -⟩ := hn
  rw [hrule] at hparts
  exact hparts

theorem accepts (hn : n.Complete) {rule : Rule} (hrule : n.rule = rule) : rule.Accepts n.text := by
  obtain ⟨-, haccepts, -⟩ := hn
  rw [hrule] at haccepts
  exact haccepts

theorem of_mem (hn : n.Complete) {m : Node Rule} (hm : m ∈ n.inner) : m.Complete := by
  obtain ⟨-, -, hinner⟩ := hn
  exact hinner m hm

/-- The one part of a node that has one. -/
theorem single_eq (hn : n.Complete) {rule : Rule} (h : n.inner.map Node.rule = [rule]) :
    ∃ m, n.single = .ok m ∧ m.rule = rule ∧ m.Complete := by
  obtain ⟨m, hm, hrule⟩ := List.map_eq_singleton_iff.1 h
  refine ⟨m, ?_, hrule, hn.of_mem (by rw [hm]; exact List.mem_singleton_self m)⟩
  rw [Node.single, hm]

end Node.Complete

/-! ## The readers -/

section Readers

variable {n : Node Rule} (kind : Kind)

theorem neverInternal_readColumns (n : Node Rule) : NeverInternal (readColumns kind n) := by
  refine FailsOnly.mapM fun column _ => ?_
  unfold resolveColumn
  split
  · exact failsOnly_ok _
  · split
    · exact failsOnly_ok _
    · exact failsOnly_error id

theorem neverInternal_ofName (name : String) : NeverInternal ((Kind.ofName name).mapError QueryError.lookup) := by
  unfold Kind.ofName
  split
  · exact failsOnly_ok _
  · exact failsOnly_error id

theorem neverInternal_readDataset (hn : n.Complete) (hrule : n.rule = .datasetClause) : NeverInternal (readDataset n) := by
  have hparts : n.inner.map Node.rule = [.kind, .datasetId] := hn.hasParts hrule
  obtain ⟨kindNode, ns, hinner, -, hns⟩ := List.map_eq_cons_iff.1 hparts
  obtain ⟨idNode, rfl, -⟩ := List.map_eq_singleton_iff.1 hns
  unfold readDataset
  simp only [hinner]
  exact (neverInternal_ofName _).bind fun kind _ => FailsOnly.check id (failsOnly_ok _)

theorem neverInternal_literalValue (op : Operator) (n : Node Rule) : NeverInternal (literalValue op n) := by
  unfold literalValue
  split
  · split
    · exact failsOnly_ok _
    · exact failsOnly_error id
  · exact failsOnly_ok _
  · exact failsOnly_error id

theorem not_isInternal_of_typeFault? {op : Operator} {literal : FieldType} {column : Option FieldType} {e : QueryError}
    (h : typeFault? op literal column = some e) : ¬e.IsInternal := by
  unfold typeFault? at h
  split at h
  · cases h
    exact id
  · split at h
    · cases h
      exact id
    · cases h

theorem neverInternal_parseCriterion (text : List Char) (glue : Option Connective) :
    NeverInternal (parseCriterion text kind glue) := by
  cases hrun : Rule.criterion.pattern.run 0 (trim text) with
  | none =>
    unfold parseCriterion Rule.match?
    simp only [hrun]
    exact failsOnly_error id
  | some o =>
    obtain ⟨column, op, form, l, m, -, -, hnodes, hm⟩ := run_criterion_eq_some hrun
    obtain ⟨taken, nodes, rest⟩ := o
    simp only at hnodes
    subst hnodes
    obtain ⟨start, hreads⟩ := parseCriterion_of_reads kind glue hrun hm
    rw [hreads]
    cases kind.resolve? (String.ofList column) with
    | none => exact failsOnly_error id
    | some field =>
      refine (neverInternal_literalValue _ _).bind fun value _ => ?_
      exact failsOnly_answerUnless (fun e => not_isInternal_of_typeFault?) _

theorem neverInternal_splitCriteria (s : List Char) : NeverInternal (splitCriteria s) := by
  unfold splitCriteria
  simp only
  split
  · exact failsOnly_ok _
  · exact failsOnly_error id

theorem neverInternal_readFilter (hn : n.Complete) (hrule : n.rule = .filterClause) :
    NeverInternal (readFilter kind n) := by
  have hparts : n.inner.map Node.rule = [.findAll] ∨ n.inner.map Node.rule = [.findWhose] := hn.hasParts hrule
  unfold readFilter
  rcases hparts with hparts | hparts
  · obtain ⟨body, hbody, hrule, -⟩ := hn.single_eq hparts
    simp only [hbody, ok_bind, hrule, if_true]
    exact failsOnly_ok _
  · obtain ⟨body, hbody, hrule, hcomplete⟩ := hn.single_eq hparts
    obtain ⟨text, htext, -, -⟩ := hcomplete.single_eq (hcomplete.hasParts hrule)
    have hne : ¬body.rule = .findAll := by
      rw [hrule]
      decide
    simp only [hbody, ok_bind, if_neg hne, htext]
    exact (neverInternal_splitCriteria _).bind fun cut _ => FailsOnly.mapM fun segment _ =>
      neverInternal_parseCriterion kind _ _

theorem neverInternal_readDefinition (hn : n.Complete) (hrule : n.rule = .applyDef) (groupFields : List String)
    (earlier : List ApplyDefinition) : NeverInternal (readDefinition kind groupFields earlier n) := by
  have hparts : n.inner.map Node.rule = [.ident, .aggregate, .field] := hn.hasParts hrule
  obtain ⟨name, ns, hinner, -, hns⟩ := List.map_eq_cons_iff.1 hparts
  obtain ⟨aggregate, ns', rfl, haggregate, hns'⟩ := List.map_eq_cons_iff.1 hns
  obtain ⟨source, rfl, -⟩ := List.map_eq_singleton_iff.1 hns'
  have hmem : aggregate ∈ n.inner := by simp [hinner]
  obtain ⟨op, hop⟩ : ∃ op, Aggregate.ofName (String.ofList aggregate.text) = .ok op :=
    (hn.of_mem hmem).accepts haggregate
  unfold readDefinition
  simp only [hinner, Node.string, hop, Except.mapError, ok_bind]
  refine FailsOnly.check id (FailsOnly.check id ?_)
  split
  · exact failsOnly_error id
  · split
    · exact failsOnly_error id
    · split
      · exact failsOnly_ok _
      · exact failsOnly_error id

theorem neverInternal_readDefinitions (hn : n.Complete) (hrule : n.rule = .applyClause) (groupFields : List String) :
    NeverInternal (readDefinitions kind groupFields n) := by
  have hparts : n.inner.map Node.rule ≠ [] ∧ ∀ r ∈ n.inner.map Node.rule, r = .applyDef := hn.hasParts hrule
  refine FailsOnly.foldlM (fun earlier d hd => ?_) []
  have hdef := neverInternal_readDefinition kind (hn.of_mem hd) (hparts.2 _ (List.mem_map_of_mem hd)) groupFields earlier
  exact hdef.bind fun definition _ => failsOnly_ok _

theorem neverInternal_readOrder (hn : n.Complete) (hrule : n.rule = .sortClause) : NeverInternal (readOrder kind n) := by
  have hparts : n.inner.map Node.rule = [.direction, .fieldList] := hn.hasParts hrule
  obtain ⟨direction, ns, hinner, hdirection, hns⟩ := List.map_eq_cons_iff.1 hparts
  obtain ⟨fields, rfl, -⟩ := List.map_eq_singleton_iff.1 hns
  have hmem : direction ∈ n.inner := by simp [hinner]
  obtain ⟨d, hd⟩ : ∃ d, Direction.ofWord? (String.ofList direction.text) = some d := (hn.of_mem hmem).accepts hdirection
  unfold readOrder
  simp only [hinner, Node.string, hd]
  exact (neverInternal_readColumns kind fields).bind fun _ _ => failsOnly_ok _

end Readers

/-! ## The sentence -/

theorem complete_of_expect {clause : RequiredClause} {c c' : Cursor} {n : Node Rule}
    (h : c.expect clause = .ok (n, c')) : n.rule = clause.rule ∧ n.Complete :=
  complete_of_accept? (by cases clause <;> rfl) (expect_eq_ok.1 h)

theorem neverInternal_expect (clause : RequiredClause) (c : Cursor) : NeverInternal (c.expect clause) := by
  unfold Cursor.expect
  split
  · exact failsOnly_ok _
  · exact failsOnly_error id

/-- A clause that may be left out, if its reader takes every complete node of its rule. -/
theorem neverInternal_readOptional {α : Type} {rule : Rule} (hrule : rule.isSilent = false) (c : Cursor) (default : α)
    {read : Node Rule → Except QueryError α} (hread : ∀ n : Node Rule, n.Complete → n.rule = rule → NeverInternal (read n)) :
    NeverInternal (readOptional rule c default read) := by
  unfold readOptional
  split
  · rename_i haccept
    obtain ⟨hn, hcomplete⟩ := complete_of_accept? hrule haccept
    exact (hread _ hcomplete hn).bind fun _ _ => failsOnly_ok _
  · exact failsOnly_ok _

theorem neverInternal_validate (p : Plan) : NeverInternal p.validate := by
  unfold Plan.validate
  refine FailsOnly.check id ?_
  split
  · exact failsOnly_error id
  · split
    · exact failsOnly_error id
    · exact failsOnly_ok _

theorem neverInternal_ofSentence (sentence : String) : NeverInternal (Plan.ofSentence sentence) := by
  unfold Plan.ofSentence
  refine (neverInternal_expect .dataset _).bind fun ⟨dataset, c₁⟩ h => ?_
  obtain ⟨hrule, hdataset⟩ := complete_of_expect h
  refine (neverInternal_readDataset hdataset hrule).bind fun ⟨kind, id⟩ _ => ?_
  refine FailsOnly.bind (neverInternal_readOptional rfl c₁ [] fun n hn hrule => ?_) fun ⟨groupFields, c₂⟩ _ => ?_
  · obtain ⟨list, hlist, -⟩ := hn.single_eq (hn.hasParts hrule)
    rw [hlist, ok_bind]
    exact neverInternal_readColumns kind list
  refine (neverInternal_expect .filter c₂).bind fun ⟨filter, c₃⟩ h => ?_
  obtain ⟨hrule, hfilter⟩ := complete_of_expect h
  refine (neverInternal_readFilter kind hfilter hrule).bind fun criteria _ => ?_
  refine (neverInternal_expect .display c₃).bind fun ⟨display, c₄⟩ h => ?_
  obtain ⟨hrule, hdisplay⟩ := complete_of_expect h
  obtain ⟨list, hlist, -⟩ := hdisplay.single_eq (hdisplay.hasParts hrule)
  simp only [hlist, ok_bind]
  refine (neverInternal_readColumns kind list).bind fun displayFields _ => ?_
  refine FailsOnly.bind (neverInternal_readOptional rfl c₄ [] fun n hn hrule =>
    neverInternal_readDefinitions kind hn hrule groupFields) fun ⟨applyDefs, c₅⟩ _ => ?_
  refine FailsOnly.bind (neverInternal_readOptional rfl c₅ _ fun n hn hrule =>
    neverInternal_readOrder kind hn hrule) fun ⟨order, c₆⟩ _ => ?_
  refine (neverInternal_expect .finish c₆).bind fun _ _ => ?_
  exact (neverInternal_validate _).bind fun _ _ => failsOnly_ok _

/-- The grammar and what is read off it go together. No sentence and no text of a criterion is refused with an internal
fault. A rule that matches, at any place, leaves one node, of all the text that it takes; the node has all the parts that
are read off it, its text stands for something where it is that of an operator, an aggregate, a direction or a number, and
so it is for all nodes within it. -/
theorem never_internal :
    (∀ sentence e, Plan.ofSentence sentence = .error e → ¬e.IsInternal) ∧
      (∀ text kind glue e, parseCriterion text kind glue = .error e → ¬e.IsInternal) ∧
      ∀ rule : Rule, rule.isSilent = false → ∀ offset s o, rule.pattern.run offset s = some o →
        ∃ n, o.nodes = [n] ∧ n.rule = rule ∧ n.text = o.text ∧ n.Complete := by
  refine ⟨fun sentence => neverInternal_ofSentence sentence, fun text kind glue => ?_, fun rule hrule offset s o h => ?_⟩
  · exact neverInternal_parseCriterion kind text glue
  · exact complete_of_run hrule h

/-- A sentence whose order is read and then refused, and a phrase that begins like two others. -/
theorem never_internal_order_and_phrase :
    (∃ e, Plan.ofSentence "In rooms dataset r, find all entries; show Name; sort in ascending order by Seats." = .error e ∧
        ¬e.IsInternal) ∧
      ∃ o n, Rule.operator.pattern.run 0 "is not equal to 9".toList = some o ∧ o.nodes = [n] ∧
        n.text = "is not equal to".toList ∧ n.Complete := by
  have hrefused : Plan.ofSentence "In rooms dataset r, find all entries; show Name; sort in ascending order by Seats." =
      .error (.invalidOrderKey "seats") := by
    decide +kernel
  have hrun : Rule.operator.pattern.run 0 "is not equal to 9".toList = some ⟨"is not equal to".toList,
      [⟨.operator, 0, "is not equal to".toList, [⟨.numericOp, 0, "is not equal to".toList, []⟩]⟩], " 9".toList⟩ := rfl
  obtain ⟨hsentence, -, hrule⟩ := never_internal
  obtain ⟨n, hn, -, htext, hcomplete⟩ := hrule .operator rfl 0 _ _ hrun
  exact ⟨⟨_, hrefused, hsentence _ _ hrefused⟩, _, n, hrun, hn, htext, hcomplete⟩

end SentenceQuery
