import SentenceQuery.Proofs.Json.Number
import SentenceQuery.Proofs.Names
import SentenceQuery.Proofs.Table.NameMap
import SentenceQuery.Query.Json

/-!
# Reading a plan back

The canonical text of a plan is read back member by member (`Plan.reads_toJson`). Everything but the numbers comes back as it is; a number
comes back as its text is read.
-/

namespace SentenceQuery

open Json

/-! ## Cells -/

theorem reads_value_string (depth : Nat) (s : String) : Reads (readValue depth) (ofString s) (.string s) := by
  refine ⟨startsValue_cons.2 (by decide), fun rest _ => ?_⟩
  rw [ofString_eq, List.cons_append, readValue, skipSpace_cons (by decide)]
  simp only [readKey_quotedBody, bind, Except.bind]

theorem readValue_of_startsNumber {c : Char} (h : startsNumber c = true) (depth : Nat) (r : List Char) :
    readValue depth (c :: r) = (do let (x, s) ← readNumber (c :: r); .ok (.number x, s)) := by
  obtain ⟨c', r', heq, hspace, -⟩ := startsValue_of_startsNumber h r
  cases heq
  rw [readValue, skipSpace_cons hspace]
  split
  · rename_i heq
    cases heq
  · rename_i heq
    cases heq
    exact absurd h (by decide)
  · rename_i heq
    cases heq
    exact absurd h (by decide)
  · rename_i heq
    cases heq
    exact absurd h (by decide)
  · rename_i heq
    cases heq
    rw [if_pos h]

theorem reads_value_number {x y : Binary64} (hfinite : x.isFinite = true) (h : Reads readNumber (ofNumber x) y)
    (depth : Nat) : Reads (readValue depth) (ofNumber x) (.number y) := by
  obtain ⟨t, ht⟩ := exists_numberText hfinite
  obtain ⟨c, r, hwritten, hc⟩ := ht.wellFormed.exists_cons
  refine ⟨h.starts, fun rest hrest => ?_⟩
  have hread := h.reads rest hrest
  rw [ht.written, hwritten, List.cons_append] at hread ⊢
  rw [readValue_of_startsNumber hc, hread]
  rfl

/-- The cell is read from the text of another. -/
def Cell.ReadFrom (v c : Cell) : Prop := ∀ depth, Reads (Cell.read depth) c.toJson v

theorem Cell.readFrom_text (s : String) : Cell.ReadFrom (.text s) (.text s) := by
  intro depth
  have hvalue := reads_value_string depth s
  refine ⟨hvalue.starts, fun rest hrest => ?_⟩
  rw [Cell.read, Cell.toJson, hvalue.reads rest hrest]
  rfl

theorem Cell.readFrom_number {x y : Binary64} (hfinite : x.isFinite = true) (h : Reads readNumber (ofNumber x) y) :
    Cell.ReadFrom (.number y) (.number x) := by
  intro depth
  have hvalue := reads_value_number hfinite h depth
  refine ⟨hvalue.starts, fun rest hrest => ?_⟩
  rw [Cell.read, Cell.toJson, hvalue.reads rest hrest]
  rfl

/-! ## Members -/

theorem reads_once {α : Type} {value : Reader α} {text : List Char} {v : α} (h : Reads value text v) :
    Reads (readOnce none value) text v := h

/-- A member that is a field is read into what is read so far. -/
theorem reads_field {σ α : Type} {fields : List String} {field : σ → String → Reader σ} {acc acc' : σ} {key : String}
    {text : List Char} {value : Reader α} {v : α} (set : α → σ) (hset : set v = acc') (hkey : fields.contains key = true)
    (hfield : field acc key = fun s => do let (v, s) ← readOnce none value s; .ok (set v, s)) (h : Reads value text v) :
    Reads (readField fields field acc (id key)) text acc' := by
  have hread : readField fields field acc (id key) = field acc key := by
    funext s
    rw [readField, id_eq, if_pos hkey]
  rw [hread, hfield, ← hset]
  exact (reads_once h).map set

/-- What is kept of a list whose member is left out when it is empty. -/
def unlessEmpty {α : Type} : List α → Option (List α)
  | [] => none
  | items => some items

theorem getD_unlessEmpty {α : Type} (items : List α) : (unlessEmpty items).getD [] = items := by
  cases items <;> rfl

/-- A list that is left out when it is empty. -/
theorem readsMembers_listMember {σ α β : Type} {value : σ → String → Reader σ} {acc : σ} {key : String}
    {item : α → List Char} {items : List α} {values : List β} (set : Option (List β) → σ) (hset : set none = acc)
    (hlength : items = [] ↔ values = [])
    (h : items ≠ [] → Reads (value acc key) (ofItems (items.map item)) (set (some values))) :
    ReadsMembers id value acc (listMember key item items) (set (unlessEmpty values)) := by
  cases items with
  | nil =>
    rw [hlength.1 rfl, unlessEmpty, hset]
    exact ReadsMembers.nil acc
  | cons a items =>
    cases values with
    | nil => exact absurd (hlength.2 rfl) (by simp)
    | cons v values => exact ReadsMembers.cons (h (by simp)) (ReadsMembers.nil _)

theorem reads_strings (depth : Nat) (names : List String) : Reads (readStrings (depth + 1)) (ofStrings names) names := by
  refine reads_list ?_
  induction names with
  | nil => exact List.Forall₂.nil
  | cons name names ih => exact List.Forall₂.cons (reads_string name) ih

theorem reads_names (depth : Nat) (names : NameSet) :
    Reads (readNames (depth + 1)) (ofStrings names.names) names := by
  have h := (reads_strings depth names.names).map NameSet.ofNames
  rwa [NameSet.ofNames_names] at h

/-! ## Operators -/

/-- An operator is written with its table and its name. -/
theorem reads_operator (depth : Nat) (op : Operator) : Reads (Operator.read (depth + 1)) op.toJson op := by
  have hobject : ∀ (table name : String) (t : OperatorTable), OperatorTable.ofName? table = some t →
      t.operator? name = some op → op.toJson = Json.ofMembers [("table", Json.ofString table), ("op", Json.ofString name)] →
        Reads (Operator.read (depth + 1)) op.toJson op := by
    intro table name t htable hop htext
    have hfirst : Reads (readField ["table", "op"] (OperatorDraft.field depth) ⟨none, none, none⟩ (id "table"))
        (Json.ofString table) ⟨some t, none, none⟩ :=
      reads_field (fun t => OperatorDraft.mk (some t) none none) rfl (by decide) (by funext s; simp [OperatorDraft.field])
        (reads_choice htable depth)
    have hsecond : Reads (readField ["table", "op"] (OperatorDraft.field depth) ⟨some t, none, none⟩ (id "op"))
        (Json.ofString name) ⟨some t, none, some op⟩ :=
      reads_field (fun op => OperatorDraft.mk (some t) none (some op)) rfl (by decide) (by funext s; simp [OperatorDraft.field, readOnce])
        (reads_choice hop depth)
    have hdraft : Reads (readFields ["table", "op"] OperatorDraft.field ⟨none, none, none⟩ (depth + 1)) op.toJson
        ⟨some t, none, some op⟩ := by
      rw [htext]
      exact reads_fields (ReadsMembers.cons hfirst (ReadsMembers.cons hsecond (ReadsMembers.nil _)))
    refine ⟨hdraft.starts, fun rest hrest => ?_⟩
    have hhead : ¬(skipSpace (op.toJson ++ rest)).head? = some '[' := by
      rw [hdraft.starts.skipSpace, htext, Json.ofMembers, List.cons_append, List.head?_cons]
      decide
    rw [Operator.read]
    simp only [if_neg hhead, hdraft.reads rest hrest, bind, Except.bind, required]
  cases op with
  | number op =>
    exact hobject "Numeric" op.name .numeric (by decide) (by simp [OperatorTable.operator?, op.ofName?_name]) rfl
  | text op =>
    exact hobject "Text" op.name .text (by decide) (by simp [OperatorTable.operator?, op.ofName?_name]) rfl

/-! ## Criteria, definitions and orders -/

/-- The criterion is another but for its value, which is read from that of the other. -/
def Criterion.ReadFrom (c' c : Criterion) : Prop := ∃ v : Cell, v.ReadFrom c.value ∧ c' = { c with value := v }

theorem reads_criterion (depth : Nat) {c c' : Criterion} (h : c'.ReadFrom c) :
    Reads (Criterion.read (depth + 2)) c.toJson c' := by
  obtain ⟨v, hv, rfl⟩ := h
  have hdraft : Reads (readFields ["field", "operator", "value", "glue"] CriterionDraft.readField ⟨none, none, none, none⟩
      (depth + 2)) c.toJson ⟨some c.field, some c.operator, some v, c.glue.map some⟩ := by
    refine reads_fields (ReadsMembers.append (b := ⟨some c.field, some c.operator, some v, none⟩) ?_ ?_)
    · refine ReadsMembers.cons (b := ⟨some c.field, none, none, none⟩) ?_
        (ReadsMembers.cons (b := ⟨some c.field, some c.operator, none, none⟩) ?_
          (ReadsMembers.cons ?_ (ReadsMembers.nil _)))
      · exact reads_field (fun f => CriterionDraft.mk (some f) none none none) rfl (by decide)
          (by funext s; simp [CriterionDraft.readField]) (reads_string c.field)
      · exact reads_field (fun op => CriterionDraft.mk (some c.field) (some op) none none) rfl (by decide)
          (by funext s; simp [CriterionDraft.readField]) (reads_operator depth c.operator)
      · exact reads_field (fun v => CriterionDraft.mk (some c.field) (some c.operator) (some v) none) rfl (by decide)
          (by funext s; simp [CriterionDraft.readField]) (hv (depth + 1))
    · cases c.glue with
      | none => exact ReadsMembers.nil _
      | some g =>
        refine ReadsMembers.cons ?_ (ReadsMembers.nil _)
        exact reads_field (fun g => CriterionDraft.mk (some c.field) (some c.operator) (some v) (some g)) rfl (by decide)
          (by funext s; simp [CriterionDraft.readField])
          (reads_optional (reads_choice g.ofWord?_word (depth + 1)) (by simp [ofString]))
  refine ⟨hdraft.starts, fun rest hrest => ?_⟩
  rw [Criterion.read, hdraft.reads rest hrest]
  cases hc : c.glue <;> rfl

theorem reads_applyDefinition (depth : Nat) (d : ApplyDefinition) :
    Reads (ApplyDefinition.read (depth + 1)) d.toJson d := by
  have hdraft : Reads (readFields ["name", "op", "field"] ApplyDraft.readField ⟨none, none, none⟩ (depth + 1)) d.toJson
      ⟨some d.name, some d.op, some d.field⟩ := by
    refine reads_fields (ReadsMembers.cons (b := ⟨some d.name, none, none⟩) ?_
      (ReadsMembers.cons (b := ⟨some d.name, some d.op, none⟩) ?_ (ReadsMembers.cons ?_ (ReadsMembers.nil _))))
    · exact reads_field (fun n => ApplyDraft.mk (some n) none none) rfl (by decide) (by funext s; simp [ApplyDraft.readField])
        (reads_string d.name)
    · exact reads_field (fun op => ApplyDraft.mk (some d.name) (some op) none) rfl (by decide)
        (by funext s; simp [ApplyDraft.readField]) (reads_choice d.op.ofName?_name depth)
    · exact reads_field (fun f => ApplyDraft.mk (some d.name) (some d.op) (some f)) rfl (by decide)
        (by funext s; simp [ApplyDraft.readField]) (reads_string d.field)
  refine ⟨hdraft.starts, fun rest hrest => ?_⟩
  rw [ApplyDefinition.read, hdraft.reads rest hrest]
  rfl

theorem reads_order (depth : Nat) (o : Order) : Reads (Order.read (depth + 2)) o.toJson o := by
  have hdraft : Reads (readFields ["direction", "fields"] OrderDraft.readField ⟨none, none⟩ (depth + 2)) o.toJson
      ⟨some o.direction, unlessEmpty o.fields⟩ := by
    refine reads_fields (ReadsMembers.cons (b := ⟨some o.direction, none⟩) ?_
      (readsMembers_listMember (OrderDraft.mk (some o.direction)) rfl Iff.rfl fun _ => ?_))
    · exact reads_field (fun d => OrderDraft.mk (some d) none) rfl (by decide) (by funext s; simp [OrderDraft.readField])
        (reads_choice o.direction.ofWord?_word (depth + 1))
    · exact reads_field (fun fields => OrderDraft.mk (some o.direction) (some fields)) rfl (by decide)
        (by funext s; simp [OrderDraft.readField]) (reads_strings depth o.fields)
  refine ⟨hdraft.starts, fun rest hrest => ?_⟩
  rw [Order.read, hdraft.reads rest hrest]
  simp [required, getD_unlessEmpty, bind, Except.bind]

/-! ## Plans -/

theorem reads_criteria (depth : Nat) {criteria criteria' : List Criterion}
    (h : List.Forall₂ (fun c c' => Criterion.ReadFrom c' c) criteria criteria') :
    Reads (readList Criterion.read (depth + 3)) (Json.ofItems (criteria.map Criterion.toJson)) criteria' :=
  reads_list (List.forall₂_map_left_iff.2 (h.imp fun _ _ hc => reads_criterion depth hc))

theorem reads_applyDefinitions (depth : Nat) (defs : List ApplyDefinition) :
    Reads (readList ApplyDefinition.read (depth + 2)) (Json.ofItems (defs.map ApplyDefinition.toJson)) defs :=
  reads_list (List.forall₂_map_left_iff.2 (List.forall₂_same.2 fun d _ => reads_applyDefinition depth d))

/-- Reading the members of a plan into what is read so far. -/
def ReadsPlanMembers (depth : Nat) : PlanDraft → List (String × List Char) → PlanDraft → Prop :=
  ReadsMembers id (readField PlanDraft.fields (PlanDraft.readField depth))

/-- A plan is read member by member in the order in which it is written. -/
theorem Plan.readsMembers {p : Plan} {criteria : List Criterion}
    (h : List.Forall₂ (fun c c' => Criterion.ReadFrom c' c) p.criteria criteria) (depth : Nat) :
    Reads (readFields PlanDraft.fields PlanDraft.readField PlanDraft.empty (depth + 4)) p.toJson
      ⟨some p.kind, some p.datasetId, unlessEmpty criteria, some p.displayFields, unlessEmpty p.groupFields,
        unlessEmpty p.applyDefs, some p.order, p.allowedDisplayFields.map some⟩ := by
  have hempty : p.criteria = [] ↔ criteria = [] := by
    rw [← List.length_eq_zero_iff, ← List.length_eq_zero_iff, h.length_eq]
  have hhead : ReadsPlanMembers (depth + 3) PlanDraft.empty
      [("kind", Json.ofString p.kind.name), ("dataset_id", Json.ofString p.datasetId)]
      { PlanDraft.empty with kind := some p.kind, datasetId := some p.datasetId } := by
    refine ReadsMembers.cons (b := { PlanDraft.empty with kind := some p.kind }) ?_
      (ReadsMembers.cons ?_ (ReadsMembers.nil _))
    · exact reads_field (fun kind => { PlanDraft.empty with kind := some kind }) rfl (by decide)
        (by funext s; simp [PlanDraft.readField, PlanDraft.empty]) (reads_choice p.kind.ofName?_name (depth + 3))
    · exact reads_field (fun id => { PlanDraft.empty with kind := some p.kind, datasetId := some id }) rfl (by decide)
        (by funext s; simp [PlanDraft.readField, PlanDraft.empty]) (reads_string p.datasetId)
  have hcriteria : ∀ d : PlanDraft, d.criteria = none → ReadsPlanMembers (depth + 3) d
      (listMember "criteria" Criterion.toJson p.criteria) { d with criteria := unlessEmpty criteria } := by
    intro d hd
    refine readsMembers_listMember (fun cs => { d with criteria := cs }) (by rw [← hd]) hempty fun _ => ?_
    exact reads_field (fun cs => { d with criteria := some cs }) rfl (by decide) (by funext s; simp [PlanDraft.readField, hd])
      (reads_criteria depth h)
  have hdisplay : ∀ d : PlanDraft, d.displayFields = none → ReadsPlanMembers (depth + 3) d
      [("display_fields", Json.ofStrings p.displayFields)] { d with displayFields := some p.displayFields } := by
    intro d hd
    refine ReadsMembers.cons ?_ (ReadsMembers.nil _)
    exact reads_field (fun names => { d with displayFields := some names }) rfl (by decide)
      (by funext s; simp [PlanDraft.readField, hd]) (reads_strings (depth + 2) p.displayFields)
  have hgroup : ∀ d : PlanDraft, d.groupFields = none → ReadsPlanMembers (depth + 3) d
      (listMember "group_fields" Json.ofString p.groupFields) { d with groupFields := unlessEmpty p.groupFields } := by
    intro d hd
    refine readsMembers_listMember (fun names => { d with groupFields := names }) (by rw [← hd]) Iff.rfl fun _ => ?_
    exact reads_field (fun names => { d with groupFields := some names }) rfl (by decide)
      (by funext s; simp [PlanDraft.readField, hd]) (reads_strings (depth + 2) p.groupFields)
  have hdefs : ∀ d : PlanDraft, d.applyDefs = none → ReadsPlanMembers (depth + 3) d
      (listMember "apply_defs" ApplyDefinition.toJson p.applyDefs) { d with applyDefs := unlessEmpty p.applyDefs } := by
    intro d hd
    refine readsMembers_listMember (fun defs => { d with applyDefs := defs }) (by rw [← hd]) Iff.rfl fun _ => ?_
    exact reads_field (fun defs => { d with applyDefs := some defs }) rfl (by decide)
      (by funext s; simp [PlanDraft.readField, hd]) (reads_applyDefinitions (depth + 1) p.applyDefs)
  have horder : ∀ d : PlanDraft, d.order = none → ReadsPlanMembers (depth + 3) d
      [("order", p.order.toJson)] { d with order := some p.order } := by
    intro d hd
    refine ReadsMembers.cons ?_ (ReadsMembers.nil _)
    exact reads_field (fun o => { d with order := some o }) rfl (by decide) (by funext s; simp [PlanDraft.readField, hd])
      (reads_order (depth + 1) p.order)
  have hallowed : ∀ d : PlanDraft, d.allowedDisplayFields = none → ReadsPlanMembers (depth + 3) d
      (p.allowedDisplayFields.map fun names => ("allowed_display_fields", Json.ofStrings names.names)).toList
      { d with allowedDisplayFields := p.allowedDisplayFields.map some } := by
    intro d hd
    cases p.allowedDisplayFields with
    | none =>
      rw [Option.map_none, Option.map_none, ← hd]
      exact ReadsMembers.nil d
    | some names =>
      refine ReadsMembers.cons ?_ (ReadsMembers.nil _)
      exact reads_field (fun names => { d with allowedDisplayFields := some names }) rfl (by decide)
        (by funext s; simp [PlanDraft.readField, hd])
        (reads_optional (reads_names (depth + 2) names) (by simp [Json.ofStrings, Json.ofItems]))
  exact reads_fields ((((((hhead.append (hcriteria _ rfl)).append (hdisplay _ rfl)).append (hgroup _ rfl)).append
    (hdefs _ rfl)).append (horder _ rfl)).append (hallowed _ rfl))

/-- The canonical text of a plan is read as the plan, but for the values of its criteria, which are read from theirs. -/
theorem Plan.reads_toJson {p : Plan} {criteria : List Criterion}
    (h : List.Forall₂ (fun c c' => Criterion.ReadFrom c' c) p.criteria criteria) (depth : Nat) :
    Reads (Plan.read (depth + 4)) p.toJson { p with criteria := criteria } := by
  have hdraft := Plan.readsMembers h depth
  refine ⟨hdraft.starts, fun rest hrest => ?_⟩
  rw [Plan.read, hdraft.reads rest hrest]
  cases p.allowedDisplayFields <;> simp [PlanDraft.toPlan, required, getD_unlessEmpty, bind, Except.bind]

end SentenceQuery
