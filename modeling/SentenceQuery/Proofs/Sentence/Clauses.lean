import SentenceQuery.Proofs.Faults
import SentenceQuery.Proofs.Schema
import SentenceQuery.Proofs.Table.NameMap
import SentenceQuery.Sentence.Reading

/-!
# What the clauses of a sentence say

When the node of a dataset clause, of a definition and of a column is accepted, and what is checked once every clause has been
read. Each statement says all that its reader checks, so it serves to take an accepted sentence apart and to accept one.
-/

namespace SentenceQuery

open Sentence

/-! ## Words -/

/-- A word that can stand for a dataset or for a derived column: it is not empty, has neither `_` nor a blank, and is neither
a keyword nor the phrase of an operator. -/
structure IsPlainWord (w : String) : Prop where
  ne_empty : w ≠ ""
  no_underscore : '_' ∉ w.toList
  no_blank : ∀ c ∈ w.toList, isBlank c = false
  not_keyword : w ∉ keywords
  not_phrase : w ∉ Operator.phrases

theorem isKeyword_eq_false {w : String} : isKeyword w = false ↔ w ∉ keywords ∧ w ∉ Operator.phrases := by
  simp [isKeyword]

theorem isPlainName_eq_true {w : String} :
    isPlainName w = true ↔ w ≠ "" ∧ '_' ∉ w.toList ∧ ∀ c ∈ w.toList, isBlank c = false := by
  simp [isPlainName, and_assoc]

theorem isPlainWord_iff {w : String} : IsPlainWord w ↔ isPlainName w = true ∧ isKeyword w = false := by
  rw [isPlainName_eq_true, isKeyword_eq_false]
  constructor
  · rintro ⟨hne, hscore, hblank, hkeyword, hphrase⟩
    exact ⟨⟨hne, hscore, hblank⟩, hkeyword, hphrase⟩
  · rintro ⟨⟨hne, hscore, hblank⟩, hkeyword, hphrase⟩
    exact ⟨hne, hscore, hblank, hkeyword, hphrase⟩

/-- A column is that of the kind, or a plain word that stands for itself. -/
theorem resolveColumn_eq_ok {kind : Kind} {name field : String} :
    resolveColumn kind name = .ok field ↔
      kind.resolve? name = some field ∨ kind.resolve? name = none ∧ IsPlainWord name ∧ field = name := by
  unfold resolveColumn
  cases hresolve : kind.resolve? name with
  | some f => simp
  | none =>
    rw [isPlainWord_iff]
    by_cases h : isPlainName name = true ∧ isKeyword name = false
    · simp [h, eq_comm]
    · simp only [Bool.and_eq_true, Bool.not_eq_true', h]
      simp

/-- What the columns of an accepted sentence are: fields of the kind, or plain words. -/
def IsColumn (kind : Kind) (field : String) : Prop := kind.isField field = true ∨ IsPlainWord field

theorem isColumn_of_resolveColumn {kind : Kind} {name field : String} (h : resolveColumn kind name = .ok field) :
    IsColumn kind field := by
  rcases resolveColumn_eq_ok.1 h with hresolve | ⟨-, hplain, rfl⟩
  · obtain ⟨type, htype⟩ := Kind.exists_type_of_resolve? hresolve
    exact Or.inl (by rw [Kind.isField, htype]; rfl)
  · exact Or.inr hplain

theorem isColumn_of_readColumns {kind : Kind} {list : Node Rule} {fields : List String}
    (h : readColumns kind list = .ok fields) : ∀ f ∈ fields, IsColumn kind f := by
  intro f hf
  obtain ⟨hlength, hat⟩ := getElem_of_mapM_eq_ok h
  obtain ⟨i, hi, rfl⟩ := List.mem_iff_getElem.1 hf
  exact isColumn_of_resolveColumn (hat i (by omega) hi)

/-! ## The dataset -/

theorem Kind.ofName_eq_ok {name : String} {kind : Kind} : Kind.ofName name = .ok kind ↔ Kind.ofName? name = some kind := by
  unfold Kind.ofName
  cases Kind.ofName? name <;> simp

theorem readDataset_eq_ok {clause kindNode idNode : Node Rule} {ns : List (Node Rule)}
    (hclause : clause.inner = kindNode :: idNode :: ns) {kind : Kind} {id : String} :
    readDataset clause = .ok (kind, id) ↔
      Kind.ofName? kindNode.string = some kind ∧ id = idNode.string ∧ '_' ∉ idNode.text ∧ isKeyword idNode.string = false := by
  unfold readDataset
  simp only [hclause, bind_eq_ok, mapError_eq_ok, Kind.ofName_eq_ok, check_eq_ok, Except.ok.injEq, Prod.mk.injEq,
    Bool.or_eq_true, List.contains_iff_mem, not_or, Bool.not_eq_true]
  constructor
  · rintro ⟨k, hk, ⟨hscore, hkeyword⟩, rfl, rfl⟩
    exact ⟨hk, rfl, hscore, hkeyword⟩
  · rintro ⟨hk, rfl, hscore, hkeyword⟩
    exact ⟨kind, hk, ⟨hscore, hkeyword⟩, rfl, rfl⟩

/-! ## Derived columns -/

theorem Aggregate.ofName_eq_ok {name : String} {op : Aggregate} :
    Aggregate.ofName name = .ok op ↔ Aggregate.ofName? name = some op := by
  unfold Aggregate.ofName
  cases Aggregate.ofName? name <;> simp

/-- A definition is accepted if its name is a plain word that is not taken and its source is a column of the kind that the
aggregate accepts. -/
theorem readDefinition_eq_ok {kind : Kind} {groupFields : List String} {earlier : List ApplyDefinition} {n : Node Rule}
    {d : ApplyDefinition} :
    readDefinition kind groupFields earlier n = .ok d ↔ ∃ op source ns name, n.inner = name :: op :: source :: ns ∧
      d.name = name.string ∧ IsPlainWord d.name ∧ (∀ e ∈ earlier, e.name ≠ d.name) ∧ d.name ∉ groupFields ∧
      kind.resolve? d.name = none ∧ kind.isField d.name = false ∧ Aggregate.ofName? op.string = some d.op ∧
      kind.resolve? source.string = some d.field ∧ ∃ type, kind.fieldType? d.field = some type ∧ d.op.accepts type = true := by
  obtain ⟨dname, dop, dfield⟩ := d
  unfold readDefinition
  rcases hinner : n.inner with _ | ⟨name, _ | ⟨op, _ | ⟨source, ns⟩⟩⟩
  · simp
  · simp
  · simp
  · simp only [List.cons.injEq, check_eq_ok, bind_eq_ok, mapError_eq_ok, Aggregate.ofName_eq_ok, Bool.or_eq_true, not_or,
      Bool.not_eq_true, Bool.not_eq_false, Bool.not_eq_true', Option.isSome_eq_false_iff, Option.isNone_iff_eq_none,
      List.any_eq_false, decide_eq_true_eq]
    constructor
    · rintro ⟨⟨hplain, hkeyword⟩, ⟨⟨⟨hearlier, hgroup⟩, hresolve⟩, hfield⟩, op', hop, h⟩
      cases hsource : kind.resolve? source.string with
      | none => simp [hsource] at h
      | some field =>
        cases htype : kind.fieldType? field with
        | none => simp [hsource, htype] at h
        | some type =>
          simp only [hsource, htype] at h
          split at h
          · rename_i haccepts
            cases h
            exact ⟨op, source, ns, name, ⟨rfl, rfl, rfl, rfl⟩, rfl, isPlainWord_iff.2 ⟨by simpa using hplain, hkeyword⟩,
              hearlier, by simpa using hgroup, hresolve, hfield, hop, hsource, type, htype, haccepts⟩
          · cases h
    · rintro ⟨_, _, _, _, ⟨rfl, rfl, rfl, rfl⟩, rfl, hplain, hearlier, hgroup, hresolve, hfield, hop, hsource, type, htype,
        haccepts⟩
      obtain ⟨hplain, hkeyword⟩ := isPlainWord_iff.1 hplain
      refine ⟨⟨by simp [hplain], hkeyword⟩, ⟨⟨⟨hearlier, by simpa using hgroup⟩, hresolve⟩, hfield⟩, dop, hop, ?_⟩
      simp [hsource, htype, haccepts]

/-! ## What concerns several clauses -/

theorem allowedColumns_eq_none {groupFields : List String} {defs : List ApplyDefinition} :
    allowedColumns groupFields defs = none ↔ groupFields = [] := by
  unfold allowedColumns
  cases groupFields <;> simp

/-- A grouped query may show its group fields and its derived columns. -/
theorem contains_of_allowedColumns {groupFields : List String} {defs : List ApplyDefinition} {allowed : NameSet}
    (h : allowedColumns groupFields defs = some allowed) {name : String} :
    allowed.contains name = true ↔ name ∈ groupFields ∨ name ∈ defs.map ApplyDefinition.name := by
  unfold allowedColumns at h
  split at h
  · cases h
  · cases h
    rw [NameSet.contains_ofNames, List.mem_append]

/-- A plan is refused for the first of three things: derived columns without groups, a column that may not be shown, a sort
key that is not shown. -/
theorem Plan.validate_eq (p : Plan) :
    p.validate = answerUnless
      ((if p.applyDefs ≠ [] ∧ p.groupFields = [] then some (.wording .applyWithoutGroup) else none).or
        ((p.forbiddenColumn?.map .invalidColumns).or
          ((p.order.fields.find? (· ∉ p.displayFields)).map .invalidOrderKey))) () := by
  have hderived : (!p.applyDefs.isEmpty && !p.isGrouped) = true ↔ p.applyDefs ≠ [] ∧ p.groupFields = [] := by
    simp [Plan.isGrouped]
  have horder : (p.order.fields.find? fun f => !p.displayFields.contains f) = p.order.fields.find? (· ∉ p.displayFields) := by
    simp
  unfold Plan.validate
  rw [horder]
  by_cases h : p.applyDefs ≠ [] ∧ p.groupFields = []
  · rw [if_pos (hderived.2 h), if_pos h]
    rfl
  · rw [if_neg (mt hderived.1 h), if_neg h]
    cases p.forbiddenColumn? with
    | some column => rfl
    | none => cases p.order.fields.find? (· ∉ p.displayFields) <;> rfl

theorem validate_eq_ok {p : Plan} :
    p.validate = .ok () ↔ (p.applyDefs ≠ [] → p.groupFields ≠ []) ∧
      (∀ allowed, p.allowedDisplayFields = some allowed → ∀ f ∈ p.displayFields, allowed.contains f = true) ∧
      ∀ f ∈ p.order.fields, f ∈ p.displayFields := by
  have hforbidden : p.forbiddenColumn? = none ↔
      ∀ allowed, p.allowedDisplayFields = some allowed → ∀ f ∈ p.displayFields, allowed.contains f = true := by
    unfold Plan.forbiddenColumn?
    cases p.allowedDisplayFields with
    | none => simp
    | some allowed => simp [List.find?_eq_none]
  rw [Plan.validate_eq, answerUnless_eq_ok, ← hforbidden]
  simp [Option.or_eq_none_iff, List.find?_eq_none]

end SentenceQuery
