import Mathlib.Data.List.Infix
import SentenceQuery.Proofs.Names
import SentenceQuery.Proofs.Sentence.Alternation
import SentenceQuery.Proofs.Sentence.Clauses
import SentenceQuery.Proofs.Sentence.Filter
import SentenceQuery.Proofs.Sentence.Outline
import SentenceQuery.Proofs.Sentence.Query

/-!
# The checks that a clause's words are put to

What is wrong with the words of each clause, said of the words alone: a column that is unknown (`columnsFault?`), a body that
does not alternate or has a criterion that is refused (`bodyFault?`), a definition whose name or source is refused after those
before it (`definitionsFault?`). The reader of a clause fails exactly where its words have a fault, and with that fault.
-/

namespace SentenceQuery

open Grammar Sentence

/-! ## Names -/

/-- A name that is kept for something else: it has a `_` in it, or is a keyword or the phrase of an operator. -/
def IsReserved (w : String) : Prop := '_' ∈ w.toList ∨ w ∈ keywords ∨ w ∈ Operator.phrases

instance (w : String) : Decidable (IsReserved w) :=
  inferInstanceAs (Decidable ('_' ∈ w.toList ∨ w ∈ keywords ∨ w ∈ Operator.phrases))

theorem not_isReserved_iff {w : String} : ¬IsReserved w ↔ '_' ∉ w.toList ∧ isKeyword w = false := by
  rw [IsReserved, isKeyword_eq_false, not_or, not_or]

/-- A name of the grammar that is not reserved is a plain word. -/
theorem isPlainWord_iff_not_isReserved {w : String} (h : IsWord w.toList) : IsPlainWord w ↔ ¬IsReserved w := by
  have hne : w ≠ "" := by
    rintro rfl
    exact h.1 rfl
  have hblank : ∀ c ∈ w.toList, isBlank c = false := fun c hc => not_isBlank_of_isWordChar (h.2 c hc)
  have hplain : isPlainName w = true ↔ '_' ∉ w.toList := by
    rw [isPlainName_eq_true]
    exact ⟨fun h => h.2.1, fun h => ⟨hne, h, hblank⟩⟩
  rw [isPlainWord_iff, hplain, not_isReserved_iff]

instance (w : String) : Decidable (IsPlainWord w) := decidable_of_iff' _ isPlainWord_iff

/-! ## The dataset -/

theorem readDataset_eq {kind : Kind} {name id : String} {clause : Node Rule} (hclause : ReadsDataset (name, id) clause)
    (hkind : Kind.ofName? name = some kind) :
    readDataset clause =
      answerUnless (if IsReserved id then some (.wording (.invalidDatasetId id)) else none) (kind, id) := by
  obtain ⟨kindNode, idNode, hinner, rfl, rfl, -⟩ := hclause
  have hid : (idNode.text.contains '_' || isKeyword idNode.string) = true ↔ IsReserved idNode.string := by
    rw [← not_iff_not, not_isReserved_iff, Node.string, String.toList_ofList]
    simp
  have hname : Kind.ofName kindNode.string = .ok kind := Kind.ofName_eq_ok.2 hkind
  simp only [readDataset, hinner, hname, Except.mapError, ok_bind]
  exact check_eq_answerUnless hid rfl

/-- A kind that is none is reported before all else. -/
theorem readDataset_of_unknown {name id : String} {clause : Node Rule} (hclause : ReadsDataset (name, id) clause)
    (hkind : Kind.ofName? name = none) : readDataset clause = .error (.lookup (.unknownKind name)) := by
  obtain ⟨kindNode, idNode, hinner, rfl, rfl, -⟩ := hclause
  simp [readDataset, hinner, Kind.ofName, hkind, Except.mapError, bind, Except.bind]

/-! ## Columns -/

/-- The name is neither that of a column of the kind nor a word that can stand for itself. -/
def IsUnknownColumn (kind : Kind) (name : String) : Prop :=
  (∀ column ∈ kind.columns, name ≠ column.display) ∧ ¬IsPlainWord name

instance (kind : Kind) (name : String) : Decidable (IsUnknownColumn kind name) :=
  inferInstanceAs (Decidable ((∀ column ∈ kind.columns, name ≠ column.display) ∧ ¬IsPlainWord name))

/-- Of a list of columns the first that is unknown is reported. -/
def columnsFault? (kind : Kind) (names : List String) : Option QueryError :=
  (names.find? (IsUnknownColumn kind ·)).map QueryError.unknownField

theorem resolveColumn_eq (kind : Kind) (name : String) :
    resolveColumn kind name =
      answerUnless (if IsUnknownColumn kind name then some (.unknownField name) else none) (kind.fieldOf name) := by
  have hunknown : IsUnknownColumn kind name ↔
      kind.resolve? name = none ∧ ¬(isPlainName name = true ∧ isKeyword name = false) := by
    rw [IsUnknownColumn, Kind.resolve?_eq_none, isPlainWord_iff]
  unfold resolveColumn Kind.fieldOf
  cases hresolve : kind.resolve? name with
  | some field => simp [hunknown, hresolve]
  | none => by_cases h : isPlainName name = true ∧ isKeyword name = false <;> simp [hunknown, hresolve, h]

theorem readColumns_eq (kind : Kind) (list : Node Rule) :
    readColumns kind list =
      answerUnless (columnsFault? kind (list.inner.map Node.string)) ((list.inner.map Node.string).map kind.fieldOf) := by
  have hmap : readColumns kind list = (list.inner.map Node.string).mapM (resolveColumn kind) := by
    rw [readColumns, List.mapM_map]
    rfl
  rw [hmap, columnsFault?, ← findSome?_ite]
  exact mapM_eq_answerUnless fun name _ => resolveColumn_eq kind name

theorem readColumnList_eq {names : List String} {clause : Node Rule} (h : ReadsColumns names clause) (kind : Kind) :
    readColumnList kind clause = answerUnless (columnsFault? kind names) (names.map kind.fieldOf) := by
  obtain ⟨-, list, hinner, rfl⟩ := h
  simp only [readColumnList, Node.single, hinner, ok_bind, readColumns_eq]

theorem readOrder_eq {order : Direction × List String} {clause : Node Rule} (h : ReadsOrder order clause) (kind : Kind) :
    readOrder kind clause = answerUnless (columnsFault? kind order.2) ⟨order.1, order.2.map kind.fieldOf⟩ := by
  obtain ⟨direction, list, hinner, hdirection, hlist⟩ := h
  simp only [readOrder, hinner, hdirection, Direction.ofWord?_word, readColumns_eq, hlist]
  cases columnsFault? kind order.2 <;> rfl

/-! ## The body of a filter -/

/-- A criterion is refused for its text alone, whatever connective follows it. -/
theorem fault?_parseCriterion (s : List Char) (kind : Kind) (glue : Option Connective) :
    fault? (parseCriterion s kind glue) = fault? (parseCriterion s kind none) := by
  unfold parseCriterion
  split
  · split
    · rfl
    · refine fault?_bind_congr fun op => ?_
      split
      · rfl
      · refine fault?_bind_congr fun value => ?_
        split
        · rfl
        · split <;> rfl
  · rfl

/-- A body must alternate; of its criteria the first that is refused is reported. -/
def bodyFault? (kind : Kind) (body : List Char) : Option QueryError :=
  let words := spacedWords (trim body)
  if Alternates words then (runTexts words).findSome? fun text => fault? (parseCriterion text kind none)
  else some (.missingOperand (criteriaCount words) (connectiveCount words))

theorem fault?_readCriteria (kind : Kind) (texts : List (List Char)) (connectives : List Connective) :
    fault? (readCriteria kind texts connectives) =
      texts.findSome? fun text => fault? (parseCriterion text kind none) := by
  have htexts : texts.zipIdx.map Prod.fst = texts := by simp
  rw [readCriteria, fault?_mapM]
  simp only [fault?_parseCriterion]
  rw [← htexts, List.findSome?_map, htexts]
  rfl

/-- A filter is refused for its body; what criteria it has otherwise is left open. -/
theorem exists_readFilter_eq {body : Option (List Char)} {clause : Node Rule} (h : ReadsFilter body clause) (kind : Kind) :
    ∃ criteria, readFilter kind clause = answerUnless (body.bind (bodyFault? kind)) criteria := by
  cases body with
  | none => exact ⟨[], readFilter_of_isAllNode h kind⟩
  | some body =>
    obtain ⟨criteria, hcriteria⟩ := exists_eq_answerUnless (readCriteria kind (runTexts (spacedWords (trim body)))
      ((spacedWords (trim body)).filterMap SpacedWord.connective?))
    refine ⟨criteria, ?_⟩
    rw [readFilter_of_isWhoseNode h, Option.bind_some, bind_eq_answerUnless (splitCriteria_eq _) hcriteria,
      fault?_readCriteria, bodyFault?]
    by_cases halternates : Alternates (spacedWords (trim body)) <;> simp [halternates]

/-! ## Definitions -/

/-- The name is that of an earlier definition, a group field, or a column of the kind or its field. -/
def IsTaken (kind : Kind) (groupFields earlier : List String) (name : String) : Prop :=
  name ∈ earlier ∨ name ∈ groupFields ∨ ∃ column ∈ kind.columns, name = column.display ∨ name = column.field

instance (kind : Kind) (groupFields earlier : List String) (name : String) :
    Decidable (IsTaken kind groupFields earlier name) :=
  inferInstanceAs (Decidable (name ∈ earlier ∨ name ∈ groupFields ∨
    ∃ column ∈ kind.columns, name = column.display ∨ name = column.field))

/-- What is wrong with a definition, after those of the earlier names: its name, then its source. -/
def definitionFault? (kind : Kind) (groupFields earlier : List String) (d : Derivation) : Option QueryError :=
  if IsReserved d.name then some (.unknownField d.name)
  else if IsTaken kind groupFields earlier d.name then some (.duplicateName d.name)
  else match kind.columns.find? (·.display = d.source) with
    | none => some (.unknownField d.source)
    | some column => if d.op.accepts column.type then none else some (.invalidAggregateField d.op column.field)

/-- Of the definitions, each with the names of those before it, the first that is refused is reported. -/
def definitionsFault? (kind : Kind) (groupFields : List String) (ds : List Derivation) : Option QueryError :=
  ((ds.map Derivation.name).inits.zip ds).findSome? fun (earlier, d) => definitionFault? kind groupFields earlier d

theorem readDefinition_eq {d : Derivation} {n : Node Rule} (hname : IsName d.name.toList) (hn : ReadsDefinition d n)
    (kind : Kind) (groupFields : List String) (earlier : List ApplyDefinition) :
    readDefinition kind groupFields earlier n =
      answerUnless (definitionFault? kind groupFields (earlier.map ApplyDefinition.name) d) (d.definition kind) := by
  obtain ⟨o₁, o₂, o₃, hinner⟩ := hn
  have hreserved : (!isPlainName d.name || isKeyword d.name) = true ↔ IsReserved d.name := by
    rw [← not_iff_not, ← isPlainWord_iff_not_isReserved hname.1, isPlainWord_iff]
    simp
  have htaken : (earlier.any (·.name = d.name) || groupFields.contains d.name || (kind.resolve? d.name).isSome ||
      kind.isField d.name) = true ↔ IsTaken kind groupFields (earlier.map ApplyDefinition.name) d.name := by
    have hcolumn : (kind.resolve? d.name).isSome = true ↔ ∃ column ∈ kind.columns, d.name = column.display := by
      rw [← not_iff_not, Bool.not_eq_true, Option.isSome_eq_false_iff, Option.isNone_iff_eq_none, Kind.resolve?_eq_none]
      simp
    have hfield : kind.isField d.name = true ↔ ∃ column ∈ kind.columns, d.name = column.field := by
      rw [← not_iff_not, Bool.not_eq_true, Kind.isField_eq_false]
      simp
    simp only [Bool.or_eq_true, hcolumn, hfield, IsTaken, List.any_eq_true, decide_eq_true_eq, List.contains_iff_mem,
      List.mem_map, or_assoc, and_or_left, exists_or]
  have hop : Aggregate.ofName d.op.name = .ok d.op := Aggregate.ofName_eq_ok.2 (Aggregate.ofName?_name d.op)
  simp only [readDefinition, hinner, Node.string, String.ofList_toList, hop, Except.mapError, ok_bind]
  unfold definitionFault?
  refine check_eq_answerUnless hreserved (check_eq_answerUnless htaken ?_)
  unfold Derivation.definition Kind.fieldOf Kind.resolve?
  cases hfind : kind.columns.find? (·.display = d.source) with
  | none => rfl
  | some column =>
    have htype := Kind.fieldType?_of_mem (List.mem_of_find?_eq_some hfind)
    by_cases haccepts : d.op.accepts column.type = true <;> simp [htype, haccepts]

/-- The definitions behind some others, which are all accepted. -/
theorem foldlM_readDefinition_eq {ds : List Derivation} {ns : List (Node Rule)}
    (h : List.Forall₂ (fun d n => IsName d.name.toList ∧ ReadsDefinition d n) ds ns) (kind : Kind)
    (groupFields : List String) (before : List Derivation) :
    ns.foldlM (fun earlier n => do
        let definition ← readDefinition kind groupFields earlier n
        .ok (earlier ++ [definition])) (before.map (Derivation.definition kind)) =
      answerUnless
        ((((ds.map Derivation.name).inits.map (before.map Derivation.name ++ ·)).zip ds).findSome? fun (earlier, d) =>
          definitionFault? kind groupFields earlier d)
        ((before ++ ds).map (Derivation.definition kind)) := by
  induction h generalizing before with
  | nil => simp [pure, Except.pure]
  | @cons d n ds ns hd _ ih =>
    have hnames : (before.map (Derivation.definition kind)).map ApplyDefinition.name = before.map Derivation.name := by
      rw [List.map_map]
      rfl
    have hstep : (do
        let definition ← readDefinition kind groupFields (before.map (Derivation.definition kind)) n
        .ok (before.map (Derivation.definition kind) ++ [definition])) =
        answerUnless (definitionFault? kind groupFields (before.map Derivation.name) d)
          ((before ++ [d]).map (Derivation.definition kind)) := by
      rw [readDefinition_eq hd.1 hd.2, hnames, List.map_append]
      cases definitionFault? kind groupFields (before.map Derivation.name) d <;> rfl
    have hrest := ih (before ++ [d])
    rw [List.append_assoc, List.singleton_append] at hrest
    rw [List.foldlM_cons, bind_eq_answerUnless hstep hrest, List.map_cons, List.inits_cons, List.map_cons, List.zip_cons_cons,
      findSome?_cons_eq_or, List.append_nil, List.map_map, List.map_append]
    simp [Function.comp_def]

theorem readDefinitions_eq {ds : List Derivation} {clause : Node Rule} (h : ReadsDefinitions ds clause) (kind : Kind)
    (groupFields : List String) :
    readDefinitions kind groupFields clause =
      answerUnless (definitionsFault? kind groupFields ds) (ds.map (Derivation.definition kind)) := by
  have hfold := foldlM_readDefinition_eq h.2 kind groupFields []
  simpa [definitionsFault?, readDefinitions] using hfold

end SentenceQuery
