import SentenceQuery.Proofs.Distinct
import SentenceQuery.Proofs.Sentence.Clauses
import SentenceQuery.Proofs.Sentence.Filter
import SentenceQuery.Proofs.Sentence.Outline

/-!
# Plans of accepted sentences

What holds of the plan of every sentence that is accepted (`Plan.WellFormed`). Running a plan relies on it and checks none of
it again: the criteria and the derived columns are typed, names do not clash, and what is shown or sorted by may be.
-/

namespace SentenceQuery

open Grammar Sentence

/-- The criterion compares a field of the kind with a literal, both of the type that the operator compares; a text has neither
a quote nor a star. -/
structure Criterion.Typed (kind : Kind) (c : Criterion) : Prop where
  field : kind.fieldType? c.field = some c.operator.operandType
  value : c.value.fieldType = c.operator.operandType
  text : ∀ t, c.value = .text t → '"' ∉ t.toList ∧ '*' ∉ t.toList

/-- The name of a derived column is a plain word that is neither a group field nor a name or a field of the kind, and its
source is a field of the kind that the aggregate accepts. -/
structure ApplyDefinition.WellFormed (kind : Kind) (groupFields : List String) (d : ApplyDefinition) : Prop where
  name : IsPlainWord d.name
  not_group : d.name ∉ groupFields
  not_column : ∀ column ∈ kind.columns, d.name ≠ column.display ∧ d.name ≠ column.field
  source : ∃ type, kind.fieldType? d.field = some type ∧ d.op.accepts type = true

/-- What running a plan relies on. -/
structure Plan.WellFormed (p : Plan) : Prop where
  datasetId : IsPlainWord p.datasetId
  groups : ∀ f ∈ p.groupFields, IsColumn p.kind f
  display : ∀ f ∈ p.displayFields, IsColumn p.kind f
  display_ne_nil : p.displayFields ≠ []
  display_nodup : p.displayFields.Nodup
  criteria : ∀ c ∈ p.criteria, c.Typed p.kind
  /-- every criterion but the last is joined to the next one -/
  glue : ∀ i (h : i < p.criteria.length), p.criteria[i].glue.isSome = true ↔ i + 1 < p.criteria.length
  defs_grouped : p.applyDefs ≠ [] → p.groupFields ≠ []
  defs : ∀ d ∈ p.applyDefs, d.WellFormed p.kind p.groupFields
  names_nodup : (p.applyDefs.map ApplyDefinition.name).Nodup
  allowed_eq_none : p.allowedDisplayFields = none ↔ p.groupFields = []
  mem_allowed : ∀ allowed, p.allowedDisplayFields = some allowed →
    ∀ f, allowed.contains f = true ↔ f ∈ p.groupFields ∨ f ∈ p.applyDefs.map ApplyDefinition.name
  display_allowed : ∀ allowed, p.allowedDisplayFields = some allowed → ∀ f ∈ p.displayFields, allowed.contains f = true
  order_shown : ∀ f ∈ p.order.fields, f ∈ p.displayFields

/-- A plan with groups shows group fields and derived columns. -/
theorem Plan.WellFormed.mem_of_display {p : Plan} (hp : p.WellFormed) (hgrouped : p.groupFields ≠ []) {f : String}
    (hf : f ∈ p.displayFields) : f ∈ p.groupFields ∨ f ∈ p.applyDefs.map ApplyDefinition.name := by
  cases hnames : p.allowedDisplayFields with
  | none => exact absurd (hp.allowed_eq_none.1 hnames) hgrouped
  | some allowed => exact (hp.mem_allowed allowed hnames f).1 (hp.display_allowed allowed hnames f hf)

/-! ## The dataset -/

/-- The id in a sentence is a word of the grammar with no `_` in it, and no keyword. -/
theorem isWord_of_readHead {c c' : Cursor} {head : Kind × String × List String} (h : readHead c = .ok (head, c')) :
    IsWord head.2.1.toList ∧ '_' ∉ head.2.1.toList ∧ isKeyword head.2.1 = false := by
  obtain ⟨clause, _, haccept, hread, -⟩ := readHead_eq_ok.1 h
  obtain ⟨_, _, idNode, hinner, -, -, hword⟩ := leaves_of_accept? haccept leaves_datasetClause
  obtain ⟨-, hid, hscore, hkeyword⟩ := (readDataset_eq_ok hinner).1 hread
  have htext : head.2.1.toList = idNode.text := by rw [hid, Node.string, String.toList_ofList]
  rw [htext]
  exact ⟨hword, hscore, hid ▸ hkeyword⟩

theorem isPlainWord_of_readHead {c c' : Cursor} {head : Kind × String × List String} (h : readHead c = .ok (head, c')) :
    IsPlainWord head.2.1 := by
  obtain ⟨hword, hscore, hkeyword⟩ := isWord_of_readHead h
  refine isPlainWord_iff.2 ⟨isPlainName_eq_true.2 ⟨fun hempty => ?_, hscore, fun d hd => ?_⟩, hkeyword⟩
  · exact hword.1 (by rw [hempty]; rfl)
  · exact not_isBlank_of_isWordChar (hword.2 d hd)

/-! ## The criteria -/

theorem Says.typed {kind : Kind} {t : List Char} {glue : Option Connective} {c : Criterion} (h : Says kind t glue c) :
    c.Typed kind := by
  obtain ⟨column, l, -, -, hl, hvalue, hfield, -⟩ := h
  refine ⟨hfield, hvalue, fun v hv => ?_⟩
  rw [hv] at hl
  cases hl with
  | text hquotable =>
    rw [String.toList_ofList]
    exact ⟨fun hmem => (hquotable _ hmem).1 rfl, fun hmem => (hquotable _ hmem).2 rfl⟩

/-- Each criterion of an accepted filter is said by a text, and is joined to the next by the connective behind it. -/
theorem says_of_readFilter {c c' : Cursor} {clause : Node Rule} {kind : Kind} {criteria : List Criterion}
    (haccept : c.accept? .filterClause = some (clause, c')) (h : readFilter kind clause = .ok criteria) :
    ∀ i (hi : i < criteria.length), ∃ t glue, Says kind t glue criteria[i] ∧
      (glue.isSome = true ↔ i + 1 < criteria.length) := by
  obtain ⟨body, hbody⟩ := leaves_of_accept? haccept leaves_filterClause
  cases body with
  | none =>
    rw [readFilter_of_isAllNode hbody, Except.ok.injEq] at h
    subst h
    simp
  | some b =>
    obtain ⟨texts, connectives, hsplit, hread⟩ := (readFilter_eq_ok hbody).1 h
    obtain ⟨-, -, hlength⟩ := splitCriteria_eq_ok.1 hsplit
    obtain ⟨hlength', hsays⟩ := getElem_of_mapM_eq_ok hread
    rw [List.length_zipIdx] at hlength'
    intro i hi
    have hparse := hsays i (by rw [List.length_zipIdx]; omega) hi
    rw [parseCriterion_eq_ok] at hparse
    simp only [List.getElem_zipIdx, Nat.zero_add] at hparse
    refine ⟨_, _, hparse, ?_⟩
    rw [Option.isSome_iff_ne_none, ne_eq, List.getElem?_eq_none_iff]
    omega

/-- The criteria of an accepted filter are typed, and all but the last are joined to the next. -/
theorem criteria_of_readFilter {c c' : Cursor} {clause : Node Rule} {kind : Kind} {criteria : List Criterion}
    (haccept : c.accept? .filterClause = some (clause, c')) (h : readFilter kind clause = .ok criteria) :
    (∀ d ∈ criteria, d.Typed kind) ∧
      ∀ i (hi : i < criteria.length), criteria[i].glue.isSome = true ↔ i + 1 < criteria.length := by
  have hat := says_of_readFilter haccept h
  constructor
  · intro d hd
    obtain ⟨i, hi, rfl⟩ := List.mem_iff_getElem.1 hd
    obtain ⟨t, glue, ht, -⟩ := hat i hi
    exact ht.typed
  · intro i hi
    obtain ⟨_, _, ⟨-, -, -, -, -, -, -, hglue⟩, hlast⟩ := hat i hi
    rw [hglue]
    exact hlast

/-! ## What is shown -/

theorem isColumn_of_readColumnList {kind : Kind} {clause : Node Rule} {fields : List String}
    (h : readColumnList kind clause = .ok fields) : ∀ f ∈ fields, IsColumn kind f := by
  obtain ⟨list, -, hread⟩ := bind_eq_ok.1 h
  exact isColumn_of_readColumns hread

theorem isColumn_of_readHead {c c' : Cursor} {head : Kind × String × List String} (h : readHead c = .ok (head, c')) :
    ∀ f ∈ head.2.2, IsColumn head.1 f := by
  obtain ⟨_, _, -, -, hgroup⟩ := readHead_eq_ok.1 h
  rcases readOptional_eq_ok.1 hgroup with ⟨clause, -, hread⟩ | ⟨-, hempty, -⟩
  · exact isColumn_of_readColumnList hread
  · rw [hempty]
    simp

theorem isColumn_of_readTail {kind : Kind} {groupFields : List String} {c : Cursor}
    {tail : List String × List ApplyDefinition × Order} (h : readTail kind groupFields c = .ok tail) :
    ∀ f ∈ tail.1, IsColumn kind f := by
  obtain ⟨_, _, _, _, _, _, -, hread, -⟩ := readTail_eq_ok.1 h
  exact isColumn_of_readColumnList hread

/-- Something is shown. -/
theorem display_ne_nil_of_readTail {kind : Kind} {groupFields : List String} {c : Cursor}
    {tail : List String × List ApplyDefinition × Order} (h : readTail kind groupFields c = .ok tail) : tail.1 ≠ [] := by
  obtain ⟨display, _, _, _, _, _, haccept, hread, -⟩ := readTail_eq_ok.1 h
  obtain ⟨_, hne, list, hinner, rfl⟩ := leaves_of_accept? haccept leaves_displayClause
  simp only [readColumnList, Node.single, hinner, ok_bind, readColumns] at hread
  obtain ⟨hlength, -⟩ := getElem_of_mapM_eq_ok hread
  intro hempty
  rw [hempty, List.length_nil, List.length_eq_zero_iff] at hlength
  exact hne (by rw [hlength]; rfl)

/-! ## Derived columns -/

/-- What is kept from one definition to the next: each is well-formed, and their names differ. -/
def DefinitionsWellFormed (kind : Kind) (groupFields : List String) (defs : List ApplyDefinition) : Prop :=
  (∀ d ∈ defs, d.WellFormed kind groupFields) ∧ (defs.map ApplyDefinition.name).Nodup

theorem definitionsWellFormed_concat {kind : Kind} {groupFields : List String} {earlier : List ApplyDefinition}
    {n : Node Rule} {d : ApplyDefinition} (hearlier : DefinitionsWellFormed kind groupFields earlier)
    (h : readDefinition kind groupFields earlier n = .ok d) : DefinitionsWellFormed kind groupFields (earlier ++ [d]) := by
  obtain ⟨_, _, _, _, -, -, hplain, hfree, hgroup, hresolve, hfield, -, -, hsource⟩ := readDefinition_eq_ok.1 h
  have hd : d.WellFormed kind groupFields := by
    refine ⟨hplain, hgroup, fun column hcolumn => ⟨?_, ?_⟩, hsource⟩
    · exact Kind.resolve?_eq_none.1 hresolve column hcolumn
    · exact Kind.isField_eq_false.1 hfield column hcolumn
  constructor
  · intro e he
    rcases List.mem_append.1 he with he | he
    · exact hearlier.1 e he
    · rw [List.mem_singleton.1 he]
      exact hd
  · rw [List.map_append, List.nodup_append]
    refine ⟨hearlier.2, by simp, fun name hname other hother => ?_⟩
    obtain ⟨e, he, rfl⟩ := List.mem_map.1 hname
    rw [List.mem_singleton.1 hother]
    exact hfree e he

theorem definitionsWellFormed_of_readDefinitions {kind : Kind} {groupFields : List String} {clause : Node Rule}
    {defs : List ApplyDefinition} (h : readDefinitions kind groupFields clause = .ok defs) :
    DefinitionsWellFormed kind groupFields defs := by
  refine foldlM_preserves (P := DefinitionsWellFormed kind groupFields) ?_ ⟨by simp, by simp⟩ h
  intro earlier n defs' hearlier hstep
  rw [bind_eq_ok] at hstep
  obtain ⟨d, hread, hdefs⟩ := hstep
  cases hdefs
  exact definitionsWellFormed_concat hearlier hread

theorem definitionsWellFormed_of_readTail {kind : Kind} {groupFields : List String} {c : Cursor}
    {tail : List String × List ApplyDefinition × Order} (h : readTail kind groupFields c = .ok tail) :
    DefinitionsWellFormed kind groupFields tail.2.1 := by
  obtain ⟨_, _, _, _, _, _, -, -, hdefs, -⟩ := readTail_eq_ok.1 h
  rcases readOptional_eq_ok.1 hdefs with ⟨clause, -, hread⟩ | ⟨-, hempty, -⟩
  · exact definitionsWellFormed_of_readDefinitions hread
  · rw [hempty]
    exact ⟨by simp, by simp⟩

/-! ## The plan -/

/-- The plan of parts that are read one after the other, and that fit together, is well-formed. -/
theorem wellFormed_ofParts {c₀ c c' : Cursor} {head : Kind × String × List String} {clause : Node Rule}
    {criteria : List Criterion} {tail : List String × List ApplyDefinition × Order} (hhead : readHead c₀ = .ok (head, c))
    (hfilter : c.accept? .filterClause = some (clause, c')) (hread : readFilter head.1 clause = .ok criteria)
    (htail : readTail head.1 head.2.2 c' = .ok tail) (hvalid : (Plan.ofParts head criteria tail).validate = .ok ()) :
    (Plan.ofParts head criteria tail).WellFormed := by
  obtain ⟨hcriteria, hglue⟩ := criteria_of_readFilter hfilter hread
  obtain ⟨hdefs, hnames⟩ := definitionsWellFormed_of_readTail htail
  obtain ⟨hgrouped, hallowed, horder⟩ := validate_eq_ok.1 hvalid
  have hshown : tail.1.eraseDups ≠ [] := by
    obtain ⟨f, hf⟩ := List.exists_mem_of_ne_nil _ (display_ne_nil_of_readTail htail)
    exact List.ne_nil_of_mem (List.mem_eraseDups.2 hf)
  exact {
    datasetId := isPlainWord_of_readHead hhead
    groups := isColumn_of_readHead hhead
    display := fun f hf => isColumn_of_readTail htail f (List.mem_eraseDups.1 hf)
    display_ne_nil := hshown
    display_nodup := nodup_eraseDups tail.1
    criteria := hcriteria
    glue := hglue
    defs_grouped := hgrouped
    defs := hdefs
    names_nodup := hnames
    allowed_eq_none := allowedColumns_eq_none
    mem_allowed := fun _ hallowed _ => contains_of_allowedColumns hallowed
    display_allowed := hallowed
    order_shown := horder }

/-- The plan of an accepted sentence is well-formed. -/
theorem wellFormed_of_ofSentence {s : String} {p : Plan} (h : Plan.ofSentence s = .ok p) : p.WellFormed := by
  obtain ⟨head, c, clause, c', criteria, tail, hhead, hfilter, hread, htail, rfl, hvalid⟩ := ofSentence_eq_ok.1 h
  exact wellFormed_ofParts hhead hfilter hread htail hvalid

/-- The plan of a sentence with every kind of clause. -/
theorem wellFormed_of_ofSentence_every_clause :
    (⟨.courses, "sfu", [⟨"avg", .number .greaterThan, .number (.ofNat 70), some .or⟩, ⟨"title", .text .is, .text "a;b", none⟩],
      ["dept", "top"], ["dept"], [⟨"top", .max, "avg"⟩], ⟨.descending, ["top"]⟩,
      some (NameSet.ofNames ["dept", "top"])⟩ : Plan).WellFormed :=
  wellFormed_of_ofSentence
    (s := "In courses dataset sfu grouped by Department, find entries whose Average is greater than 70 or Title is \"a;b\"; " ++
      "show Department, top and top, where top is the MAX of Average; sort in descending order by top.")
    (by decide +kernel)

end SentenceQuery
