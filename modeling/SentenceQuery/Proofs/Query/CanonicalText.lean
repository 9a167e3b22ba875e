import SentenceQuery.Proofs.Json.Pieces
import SentenceQuery.Proofs.Query.Lossless

/-!
# The canonical text tells plans apart

A plan's canonical text is an object whose members are values, so the members can be compared one by one; each tells its field
(`Plan.same_of_toJson_eq`). Of the numbers only the finite ones are told apart: all others are written as null.
-/

namespace SentenceQuery

open Json

/-! ## Cells and criteria -/

/-- A number is not written as a text is. -/
theorem ofNumber_ne_ofString (x : Binary64) (s : String) : ofNumber x ≠ ofString s := by
  intro h
  cases hfinite : x.isFinite with
  | true =>
    obtain ⟨t, ht⟩ := exists_numberText hfinite
    obtain ⟨c, r, hwritten, hc⟩ := ht.wellFormed.exists_cons
    rw [ht.written, hwritten, ofString_eq, List.cons.injEq] at h
    rw [h.1] at hc
    exact absurd hc (by decide)
  | false =>
    rw [ofNumber_of_not_finite hfinite, ofString_eq, List.cons.injEq] at h
    exact absurd h.1 (by decide)

/-- The text of a finite number is that of no cell that does not count as the same. -/
theorem Cell.same_of_toJson_eq {c d : Cell} (hc : c.IsFinite) (h : c.toJson = d.toJson) : c.Same d := by
  cases c with
  | text s =>
    cases d with
    | text t => exact congrArg (fun s => Cell.canonical (.text s)) (ofString_injective h)
    | number y => exact absurd h.symm (ofNumber_ne_ofString y s)
  | number x =>
    have hx := hc x rfl
    cases d with
    | text t => exact absurd h (ofNumber_ne_ofString x t)
    | number y =>
      cases hy : y.isFinite with
      | true => exact congrArg Cell.number (ofNumber_inj hx hy h)
      | false =>
        obtain ⟨t, ht⟩ := exists_numberText hx
        obtain ⟨c, r, hwritten, hc⟩ := ht.wellFormed.exists_cons
        have hnull : t.written = ['n', 'u', 'l', 'l'] := by
          rw [← ht.written, ← ofNumber_of_not_finite hy]
          exact h
        rw [hwritten, List.cons.injEq] at hnull
        rw [hnull.1] at hc
        exact absurd hc (by decide)

theorem isValue_cell (c : Cell) : IsValue c.toJson := by
  cases c with
  | number x => exact isValue_ofNumber x
  | text s => exact isValue_ofString s

theorem isValue_operator (op : Operator) : IsValue op.toJson := by
  cases op with
  | number op => exact isValue_ofMembers (by simp [isValue_ofString])
  | text op => exact isValue_ofMembers (by simp [isValue_ofString])

theorem Operator.toJson_injective {op op' : Operator} (h : op.toJson = op'.toJson) : op = op' :=
  (reads_operator 0 op).inj (h ▸ reads_operator 0 op')

theorem isValue_member_criterion (c : Criterion) :
    ∀ m ∈ [("field", Json.ofString c.field), ("operator", c.operator.toJson), ("value", c.value.toJson)] ++
      (c.glue.map fun g => ("glue", Json.ofString g.word)).toList, IsValue m.2 := by
  cases c.glue <;> simp [isValue_ofString, isValue_operator, isValue_cell]

theorem isValue_criterion (c : Criterion) : IsValue c.toJson := isValue_ofMembers (isValue_member_criterion c)

theorem Connective.word_injective {g g' : Connective} (h : g.word = g'.word) : g = g' := by
  rw [← Option.some.injEq, ← g.ofWord?_word, ← g'.ofWord?_word, h]

theorem Criterion.canonical_of_toJson_eq {c d : Criterion} (hc : c.value.IsFinite) (h : c.toJson = d.toJson) :
    c.canonical = d.canonical := by
  have hmembers := ofMembers_inj (isValue_member_criterion c) (isValue_member_criterion d) h
  simp only [List.cons_append, List.nil_append, List.cons.injEq, Prod.mk.injEq, true_and] at hmembers
  obtain ⟨hfield, hoperator, hvalue, hglue⟩ := hmembers
  have hsame : c.value.canonical = d.value.canonical := Cell.same_of_toJson_eq hc hvalue
  have hconnective : c.glue = d.glue := by
    cases hcg : c.glue with
    | none =>
      cases hdg : d.glue with
      | none => rfl
      | some g => simp [hcg, hdg] at hglue
    | some g =>
      cases hdg : d.glue with
      | none => simp [hcg, hdg] at hglue
      | some g' =>
        simp only [hcg, hdg, Option.map_some, Option.toList_some, List.cons.injEq, Prod.mk.injEq, true_and, and_true] at hglue
        rw [Connective.word_injective (ofString_injective hglue)]
  unfold Criterion.canonical
  rw [ofString_injective hfield, Operator.toJson_injective hoperator, hsame, hconnective]

/-! ## The members of a plan -/

theorem isValue_applyDefinition (d : ApplyDefinition) : IsValue d.toJson :=
  isValue_ofMembers (by simp [isValue_ofString])

theorem isValue_ofItems_map {α : Type} {item : α → List Char} (h : ∀ a, IsValue (item a)) (items : List α) :
    IsValue (Json.ofItems (items.map item)) :=
  isValue_ofItems (List.forall_mem_map.2 fun a _ => h a)

theorem isValue_listMember {α : Type} {item : α → List Char} (h : ∀ a, IsValue (item a)) (key : String) (items : List α) :
    ∀ m ∈ listMember key item items, IsValue m.2 := by
  cases items with
  | nil => simp [listMember]
  | cons a items =>
    intro m hm
    rw [listMember, List.mem_singleton] at hm
    · rw [hm]
      exact isValue_ofItems_map h (a :: items)
    · simp

theorem isValue_order (o : Order) : IsValue o.toJson := by
  refine isValue_ofMembers fun m hm => ?_
  rcases List.mem_cons.1 hm with rfl | hm
  · exact isValue_ofString _
  · exact isValue_listMember isValue_ofString _ _ m hm

/-- The members of a plan in the order in which they are written. -/
def Plan.members (p : Plan) : List (String × List Char) :=
  [("kind", Json.ofString p.kind.name), ("dataset_id", Json.ofString p.datasetId)] ++
    listMember "criteria" Criterion.toJson p.criteria ++
    [("display_fields", Json.ofStrings p.displayFields)] ++
    listMember "group_fields" Json.ofString p.groupFields ++
    listMember "apply_defs" ApplyDefinition.toJson p.applyDefs ++
    [("order", p.order.toJson)] ++
    (p.allowedDisplayFields.map fun names => ("allowed_display_fields", Json.ofStrings names.names)).toList

theorem Plan.toJson_eq (p : Plan) : p.toJson = Json.ofMembers p.members := rfl

theorem Plan.isValue_members (p : Plan) : ∀ m ∈ p.members, IsValue m.2 := by
  intro m hm
  simp only [Plan.members, List.mem_append, List.mem_cons, List.not_mem_nil, or_false, Option.mem_toList,
    Option.map_eq_some_iff] at hm
  rcases hm with ((((((rfl | rfl) | hm) | rfl) | hm) | hm) | rfl) | ⟨names, -, rfl⟩
  · exact isValue_ofString _
  · exact isValue_ofString _
  · exact isValue_listMember isValue_criterion _ _ m hm
  · exact isValue_ofStrings _
  · exact isValue_listMember isValue_ofString _ _ m hm
  · exact isValue_listMember isValue_applyDefinition _ _ m hm
  · exact isValue_order _
  · exact isValue_ofStrings _

/-- What stands under the key of a list: nothing for an empty list. -/
theorem lookup_listMember {α : Type} (key : String) (item : α → List Char) (items : List α) (k : String) :
    (listMember key item items).lookup k =
      if k = key then (unlessEmpty items).map fun items => Json.ofItems (items.map item) else none := by
  cases items with
  | nil => simp [listMember, unlessEmpty]
  | cons a items =>
    by_cases h : k = key
    · simp [listMember, unlessEmpty, h]
    · simp [listMember, h, List.lookup_cons, beq_eq_false_iff_ne.2 h]

/-- The items of two lists whose members are the same. -/
theorem map_eq_of_unlessEmpty {α : Type} {item : α → List Char} (hitem : ∀ a, IsValue (item a)) {xs ys : List α}
    (h : ((unlessEmpty xs).map fun items => Json.ofItems (items.map item)) =
      (unlessEmpty ys).map fun items => Json.ofItems (items.map item)) : xs.map item = ys.map item := by
  have hvalues : ∀ (items : List α), ∀ text ∈ items.map item, IsValue text := fun _ =>
    List.forall_mem_map.2 fun a _ => hitem a
  cases xs with
  | nil =>
    cases ys with
    | nil => rfl
    | cons y ys => simp [unlessEmpty] at h
  | cons x xs =>
    cases ys with
    | nil => simp [unlessEmpty] at h
    | cons y ys =>
      simp only [unlessEmpty, Option.map_some, Option.some.injEq] at h
      exact ofItems_inj (hvalues (x :: xs)) (hvalues (y :: ys)) h

/-- Each member of a plan stands under its key. -/
theorem Plan.lookup_members (p : Plan) :
    p.members.lookup "kind" = some (Json.ofString p.kind.name) ∧
    p.members.lookup "dataset_id" = some (Json.ofString p.datasetId) ∧
    p.members.lookup "criteria" = ((unlessEmpty p.criteria).map fun cs => Json.ofItems (cs.map Criterion.toJson)) ∧
    p.members.lookup "display_fields" = some (Json.ofStrings p.displayFields) ∧
    p.members.lookup "group_fields" = ((unlessEmpty p.groupFields).map fun names => Json.ofItems (names.map Json.ofString)) ∧
    p.members.lookup "apply_defs" = ((unlessEmpty p.applyDefs).map fun ds => Json.ofItems (ds.map ApplyDefinition.toJson)) ∧
    p.members.lookup "order" = some p.order.toJson ∧
    p.members.lookup "allowed_display_fields" = p.allowedDisplayFields.map fun names => Json.ofStrings names.names := by
  have hallowed : ∀ key, (p.allowedDisplayFields.map fun names =>
      ("allowed_display_fields", Json.ofStrings names.names)).toList.lookup key =
        if key = "allowed_display_fields" then p.allowedDisplayFields.map fun names => Json.ofStrings names.names else none := by
    intro key
    cases p.allowedDisplayFields with
    | none => simp
    | some names =>
      by_cases h : key = "allowed_display_fields"
      · simp [h]
      · simp [h, List.lookup_cons, beq_eq_false_iff_ne.2 h]
  unfold Plan.members
  simp only [List.lookup_append, lookup_listMember, hallowed]
  simp [List.lookup_cons]

theorem Kind.name_injective {k k' : Kind} (h : k.name = k'.name) : k = k' := by
  rw [← Option.some.injEq, ← k.ofName?_name, ← k'.ofName?_name, h]

theorem ofStrings_injective {names names' : List String} (h : Json.ofStrings names = Json.ofStrings names') :
    names = names' :=
  (reads_strings 0 names).inj (h ▸ reads_strings 0 names')

theorem map_ofString_injective {names names' : List String} (h : names.map Json.ofString = names'.map Json.ofString) :
    names = names' :=
  List.map_injective_iff.2 (fun _ _ => ofString_injective) h

theorem ApplyDefinition.toJson_injective {d d' : ApplyDefinition} (h : d.toJson = d'.toJson) : d = d' :=
  (reads_applyDefinition 0 d).inj (h ▸ reads_applyDefinition 0 d')

theorem Order.toJson_injective {o o' : Order} (h : o.toJson = o'.toJson) : o = o' :=
  (reads_order 0 o).inj (h ▸ reads_order 0 o')

theorem map_canonical_of_map_toJson_eq {cs ds : List Criterion} (hcs : ∀ c ∈ cs, c.value.IsFinite)
    (h : cs.map Criterion.toJson = ds.map Criterion.toJson) : cs.map Criterion.canonical = ds.map Criterion.canonical := by
  induction cs generalizing ds with
  | nil =>
    cases ds with
    | nil => rfl
    | cons d ds => cases h
  | cons c cs ih =>
    cases ds with
    | nil => cases h
    | cons d ds =>
      rw [List.map_cons, List.map_cons, List.cons.injEq] at h
      rw [List.map_cons, List.map_cons, Criterion.canonical_of_toJson_eq (hcs c List.mem_cons_self) h.1,
        ih (fun e he => hcs e (List.mem_cons_of_mem _ he)) h.2]

/-- The canonical text of a plan with finite numbers is that of no plan that does not count as the same. -/
theorem Plan.same_of_toJson_eq {p q : Plan} (hp : ∀ x ∈ p.numbers, x.isFinite = true) (h : p.toJson = q.toJson) :
    p.Same q := by
  have hmembers : p.members = q.members := ofMembers_inj p.isValue_members q.isValue_members h
  obtain ⟨hkind, hid, hcriteria, hdisplay, hgroup, hdefs, horder, hallowed⟩ := p.lookup_members
  obtain ⟨hkind', hid', hcriteria', hdisplay', hgroup', hdefs', horder', hallowed'⟩ := q.lookup_members
  rw [hmembers] at hkind hid hcriteria hdisplay hgroup hdefs horder hallowed
  have hfinite : ∀ c ∈ p.criteria, c.value.IsFinite := fun c hc x hx => hp x (mem_numbers.2 ⟨c, hc, hx⟩)
  have hsame := map_canonical_of_map_toJson_eq hfinite
    (map_eq_of_unlessEmpty isValue_criterion (hcriteria.symm.trans hcriteria'))
  have hkinds : p.kind = q.kind := Kind.name_injective (ofString_injective (Option.some.inj (hkind.symm.trans hkind')))
  have hids : p.datasetId = q.datasetId := ofString_injective (Option.some.inj (hid.symm.trans hid'))
  have hdisplays : p.displayFields = q.displayFields :=
    ofStrings_injective (Option.some.inj (hdisplay.symm.trans hdisplay'))
  have hgroups : p.groupFields = q.groupFields :=
    map_ofString_injective (map_eq_of_unlessEmpty isValue_ofString (hgroup.symm.trans hgroup'))
  have hdefinitions : p.applyDefs = q.applyDefs :=
    List.map_injective_iff.2 (fun _ _ => ApplyDefinition.toJson_injective)
      (map_eq_of_unlessEmpty isValue_applyDefinition (hdefs.symm.trans hdefs'))
  have horders : p.order = q.order := Order.toJson_injective (Option.some.inj (horder.symm.trans horder'))
  have hsets : p.allowedDisplayFields = q.allowedDisplayFields := by
    refine Option.map_injective (fun s t hst => ?_) (hallowed.symm.trans hallowed')
    rw [← NameSet.ofNames_names s, ← NameSet.ofNames_names t, ofStrings_injective hst]
  unfold Plan.Same Plan.canonical
  rw [hsame, hkinds, hids, hdisplays, hgroups, hdefinitions, horders, hsets]

end SentenceQuery
