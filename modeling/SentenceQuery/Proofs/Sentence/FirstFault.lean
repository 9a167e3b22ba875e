import SentenceQuery.Proofs.Sentence.Checks

/-!
# The first fault of a sentence

A sentence that has its clauses is put to ten checks (`Check`). Each is said of the words of the sentence alone
(`Outline.fault?`), and several may fail at once. The sentence is refused with the fault of the first check that fails, and
accepted if none does (`ofSentence_firstFault`), though the checks are made in several readers and between the clauses.
-/

namespace SentenceQuery

open Grammar Sentence

/-- What a sentence that has its clauses is checked for. -/
inductive Check where
  /-- the kind is one of the two -/
  | kind
  /-- the id of the dataset is not reserved -/
  | datasetId
  /-- the group columns are known -/
  | groupColumns
  /-- criteria and connectives take turns, and each criterion is accepted -/
  | criteria
  /-- the columns shown are known -/
  | shownColumns
  /-- the name and the source of each derived column are accepted -/
  | definitions
  /-- the columns that rows are sorted by are known -/
  | orderColumns
  /-- columns are derived only where there are groups -/
  | derivedOfGroups
  /-- where there are groups, only group fields and derived columns are shown -/
  | shownOfGroups
  /-- rows are sorted only by what is shown -/
  | orderShown
deriving DecidableEq

/-- The checks, the one that counts most first. -/
def Check.all : List Check :=
  [.kind, .datasetId, .groupColumns, .criteria, .shownColumns, .definitions, .orderColumns, .derivedOfGroups, .shownOfGroups,
    .orderShown]

theorem Check.mem_all (check : Check) : check ∈ Check.all := by
  cases check <;> decide

namespace Outline

/-- The sentence has its clauses, and these are their words. -/
def SaidBy (o : Outline) (s : String) : Prop := ∃ c, Clauses.ofSentence? s = some c ∧ c.Say o

def groupFields (o : Outline) (kind : Kind) : List String := (o.groups.getD []).map kind.fieldOf

/-- The fields shown, each once. -/
def shownFields (o : Outline) (kind : Kind) : List String := (o.shown.map kind.fieldOf).eraseDups

def derivedNames (o : Outline) : List String := (o.derived.getD []).map Derivation.name

def orderFields (o : Outline) (kind : Kind) : List String := (o.order.elim [] Prod.snd).map kind.fieldOf

/-- What is found over the kind, if it is one of the two. -/
def onKind (o : Outline) (fault : Kind → Option QueryError) : Option QueryError := (Kind.ofName? o.kind).bind fault

/-- The fault that a check finds. -/
def fault? (o : Outline) : Check → Option QueryError
  | .kind => if o.kind ∈ Kind.all.map Kind.name then none else some (.lookup (.unknownKind o.kind))
  | .datasetId => if IsReserved o.dataset then some (.wording (.invalidDatasetId o.dataset)) else none
  | .groupColumns => o.onKind fun kind => o.groups.bind (columnsFault? kind)
  | .criteria => o.onKind fun kind => o.body.bind (bodyFault? kind)
  | .shownColumns => o.onKind fun kind => columnsFault? kind o.shown
  | .definitions => o.onKind fun kind => o.derived.bind (definitionsFault? kind (o.groupFields kind))
  | .orderColumns => o.onKind fun kind => o.order.bind fun order => columnsFault? kind order.2
  | .derivedOfGroups => if o.derived ≠ none ∧ o.groups = none then some (.wording .applyWithoutGroup) else none
  | .shownOfGroups => o.onKind fun kind =>
    if o.groups = none then none
    else ((o.shownFields kind).find? fun f => f ∉ o.groupFields kind ∧ f ∉ o.derivedNames).map .invalidColumns
  | .orderShown => o.onKind fun kind => ((o.orderFields kind).find? (· ∉ o.shownFields kind)).map .invalidOrderKey

/-- The fault of the first check that finds one. -/
def FirstFault (o : Outline) (e : QueryError) : Prop :=
  ∃ before check after, Check.all = before ++ check :: after ∧ (∀ earlier ∈ before, o.fault? earlier = none) ∧
    o.fault? check = some e

theorem firstFault_iff {o : Outline} {e : QueryError} : o.FirstFault e ↔ Check.all.findSome? o.fault? = some e := by
  rw [List.findSome?_eq_some_iff]
  constructor
  · rintro ⟨before, check, after, hall, hbefore, hcheck⟩
    exact ⟨before, check, after, hall, hcheck, hbefore⟩
  · rintro ⟨before, check, after, hall, hcheck, hbefore⟩
    exact ⟨before, check, after, hall, hbefore, hcheck⟩

end Outline

/-! ## What concerns several clauses -/

/-- Where there are groups, what may not be shown is neither a group field nor a derived column. -/
theorem Plan.forbiddenColumn?_ofParts (head : Kind × String × List String) (criteria : List Criterion)
    (tail : List String × List ApplyDefinition × Order) :
    (Plan.ofParts head criteria tail).forbiddenColumn? =
      if head.2.2 = [] then none
      else tail.1.eraseDups.find? fun f => f ∉ head.2.2 ∧ f ∉ tail.2.1.map ApplyDefinition.name := by
  unfold Plan.forbiddenColumn?
  cases hallowed : (Plan.ofParts head criteria tail).allowedDisplayFields with
  | none => rw [if_pos (allowedColumns_eq_none.1 hallowed)]
  | some allowed =>
    have hgrouped : head.2.2 ≠ [] := by
      intro hnil
      rw [Plan.ofParts, allowedColumns_eq_none.2 hnil] at hallowed
      cases hallowed
    rw [if_neg hgrouped]
    refine congrArg (fun p => tail.1.eraseDups.find? p) (funext fun f => ?_)
    rw [Bool.eq_iff_iff, Bool.not_eq_true', decide_eq_true_eq, ← not_or, ← contains_of_allowedColumns hallowed,
      Bool.not_eq_true]

/-- The plan of the words of a sentence, given its criteria. -/
def Outline.planOver (o : Outline) (kind : Kind) (criteria : List Criterion) : Plan :=
  Plan.ofParts (kind, o.dataset, o.groupFields kind) criteria
    (o.shown.map kind.fieldOf, (o.derived.getD []).map (Derivation.definition kind),
      ⟨o.order.elim .ascending Prod.fst, o.orderFields kind⟩)

/-- An optional list of words that is there has a member. -/
theorem map_getD_eq_nil {α β : Type} {reads : List α → Node Rule → Prop} (hne : ∀ as n, reads as n → as ≠ [])
    {words : Option (List α)} {clause : Option (Node Rule)} (h : Option.Rel reads words clause) (f : α → β) :
    (words.getD []).map f = [] ↔ words = none := by
  cases h with
  | none => simp
  | some h => simp [hne _ _ h]

/-- The checks that concern several clauses come last. -/
theorem validate_planOver {c : Clauses} {o : Outline} (h : c.Say o) {kind : Kind} (hkind : Kind.ofName? o.kind = some kind)
    (criteria : List Criterion) :
    (o.planOver kind criteria).validate = answerUnless
      ((o.fault? .derivedOfGroups).or ((o.fault? .shownOfGroups).or (o.fault? .orderShown))) () := by
  have hnames : ((o.derived.getD []).map (Derivation.definition kind)).map ApplyDefinition.name = o.derivedNames := by
    rw [List.map_map]
    rfl
  have hgroups : o.groupFields kind = [] ↔ o.groups = none :=
    map_getD_eq_nil (fun _ _ hn => hn.1) h.groups kind.fieldOf
  have hderived := map_getD_eq_nil (fun _ _ hn => hn.1) h.derived (Derivation.definition kind)
  have hforbidden : (o.planOver kind criteria).forbiddenColumn?.map QueryError.invalidColumns = o.fault? .shownOfGroups := by
    simp only [Outline.planOver, Plan.forbiddenColumn?_ofParts, hnames, hgroups, Outline.fault?, Outline.onKind, hkind,
      Option.bind_some, Outline.shownFields]
    split <;> rfl
  have horder : ((o.planOver kind criteria).order.fields.find? (· ∉ (o.planOver kind criteria).displayFields)).map
      QueryError.invalidOrderKey = o.fault? .orderShown := by
    simp only [Outline.fault?, Outline.onKind, hkind, Option.bind_some]
    rfl
  rw [Plan.validate_eq, hforbidden, horder]
  simp only [Outline.planOver, Plan.ofParts, hgroups, ne_eq, hderived, Outline.fault?]

/-! ## The sentence -/

/-- What an optional clause says is refused for its words. -/
theorem readOr_eq {α β : Type} {reads : α → Node Rule → Prop} {read : Node Rule → Except QueryError β}
    {fault : α → Option QueryError} (answer : Option α → β) {words : Option α} {clause : Option (Node Rule)}
    (h : Option.Rel reads words clause)
    (hread : ∀ a n, reads a n → read n = answerUnless (fault a) (answer (some a))) :
    readOr (answer none) read clause = answerUnless (words.bind fault) (answer words) := by
  cases h with
  | none => rfl
  | some h => exact hread _ _ h

/-- Over a kind that is one of the two, clauses are read with the faults of the other checks. -/
theorem exists_plan_eq {c : Clauses} {o : Outline} (h : c.Say o) {kind : Kind} (hkind : Kind.ofName? o.kind = some kind) :
    ∃ p, c.plan = answerUnless (Check.all.tail.findSome? o.fault?) p := by
  obtain ⟨criteria, hcriteria⟩ := exists_readFilter_eq h.filter kind
  have hgroups : readOr [] (readColumnList kind) c.group =
      answerUnless (o.groups.bind (columnsFault? kind)) (o.groupFields kind) :=
    readOr_eq (fun groups => (groups.getD []).map kind.fieldOf) h.groups fun _ _ hn => readColumnList_eq hn kind
  have hdefs : readOr [] (readDefinitions kind (o.groupFields kind)) c.apply =
      answerUnless (o.derived.bind (definitionsFault? kind (o.groupFields kind)))
        ((o.derived.getD []).map (Derivation.definition kind)) :=
    readOr_eq (fun ds => (ds.getD []).map (Derivation.definition kind)) h.derived
      fun _ _ hn => readDefinitions_eq hn kind _
  have horder : readOr Order.unsorted (readOrder kind) c.sort =
      answerUnless (o.order.bind fun order => columnsFault? kind order.2)
        ⟨o.order.elim .ascending Prod.fst, o.orderFields kind⟩ :=
    readOr_eq (fun order => (⟨order.elim .ascending Prod.fst, (order.elim [] Prod.snd).map kind.fieldOf⟩ : Order)) h.order
      fun _ _ hn => readOrder_eq hn kind
  have hplan : c.plan = answerUnless _ (o.planOver kind criteria) :=
    bind_eq_answerUnless (readDataset_eq h.dataset hkind) (bind_eq_answerUnless hgroups
      (bind_eq_answerUnless hcriteria (bind_eq_answerUnless (readColumnList_eq h.shown kind) (bind_eq_answerUnless hdefs
        (bind_eq_answerUnless horder
          (bind_eq_answerUnless (validate_planOver h hkind criteria) (answerUnless_none _).symm))))))
  refine ⟨_, hplan.trans (congrArg (answerUnless · _) ?_)⟩
  simp only [Check.all, List.tail_cons, findSome?_cons_eq_or, List.findSome?_nil, Option.or_assoc]
  simp only [Outline.fault?, Outline.onKind, hkind, Option.bind_some]

/-- Clauses are refused with the first fault of their words. -/
theorem fault?_plan {c : Clauses} {o : Outline} (h : c.Say o) : fault? c.plan = Check.all.findSome? o.fault? := by
  have hname : o.kind ∈ Kind.all.map Kind.name ↔ Kind.ofName? o.kind ≠ none := by
    unfold Kind.ofName?
    rw [ne_eq, List.find?_eq_none]
    simp
  have hall : Check.all = .kind :: Check.all.tail := rfl
  rw [hall, findSome?_cons_eq_or]
  cases hkind : Kind.ofName? o.kind with
  | none =>
    have hfault : o.fault? .kind = some (.lookup (.unknownKind o.kind)) := if_neg fun hmem => hname.1 hmem hkind
    rw [hfault, Clauses.plan, readDataset_of_unknown h.dataset hkind]
    rfl
  | some kind =>
    have hfault : o.fault? .kind = none := if_pos (hname.2 (by simp [hkind]))
    obtain ⟨p, hplan⟩ := exists_plan_eq h hkind
    rw [hfault, hplan, fault?_answerUnless, Option.none_or]

/-- A sentence that has its clauses has words, and of the faults of these words the first is reported. It is accepted if they
have none. -/
theorem ofSentence_firstFault {s : String} (h : (Clauses.ofSentence? s).isSome = true) :
    (∃ o : Outline, o.SaidBy s) ∧ ∀ o : Outline, o.SaidBy s →
      (∀ e, Plan.ofSentence s = .error e ↔ o.FirstFault e) ∧
      ((∃ p, Plan.ofSentence s = .ok p) ↔ ∀ check, o.fault? check = none) := by
  constructor
  · obtain ⟨c, hc⟩ := Option.isSome_iff_exists.1 h
    obtain ⟨o, ho⟩ := exists_outline hc
    exact ⟨o, c, hc, ho⟩
  · rintro o ⟨c, hc, ho⟩
    have hfault : fault? (Plan.ofSentence s) = Check.all.findSome? o.fault? := by
      rw [ofSentence_eq_plan hc, fault?_plan ho]
    constructor
    · intro e
      rw [Outline.firstFault_iff, ← hfault, fault?_eq_some]
    · rw [← fault?_eq_none, hfault, List.findSome?_eq_none_iff]
      exact ⟨fun hnone check => hnone check check.mem_all, fun hnone check _ => hnone check⟩

/-- A sentence with an unknown column and, behind it, a derived column whose name is taken: the unknown column is reported. -/
theorem ofSentence_firstFault_unknown_column :
    let s := "In rooms dataset r grouped by Seats, find all entries; show a_b, where Name is the MAX of Type."
    (Clauses.ofSentence? s).isSome = true ∧ (∃ o : Outline, o.SaidBy s) ∧
      ∀ o : Outline, o.SaidBy s → o.FirstFault (.unknownField "a_b") := by
  intro s
  have hclauses : (Clauses.ofSentence? s).isSome = true := by decide +kernel
  have hrefused : Plan.ofSentence s = .error (.unknownField "a_b") := by decide +kernel
  obtain ⟨hsaid, hfirst⟩ := ofSentence_firstFault hclauses
  exact ⟨hclauses, hsaid, fun o ho => ((hfirst o ho).1 _).1 hrefused⟩

end SentenceQuery
