import SentenceQuery.Proofs.Dataset.Service
import SentenceQuery.Proofs.Query.Meaning
import SentenceQuery.Proofs.Sentence.Completeness

/-!
# Asking for every record of a dataset

One sentence shows a column of every record that is stored under an id (`everythingSentence`). It has its answer where the id is a
word of ASCII letters, digits and `-` that means nothing else in sentences; under any other id a dataset may be stored, but no
sentence at all names it (`Service.query_everything`).
-/

namespace SentenceQuery

open Grammar Sentence

/-- The query that shows a column of every record of a dataset. -/
def Query.everything (kind : Kind) (dataset shown : String) : Query := ⟨kind, dataset, [], none, [shown], [], none⟩

/-- The sentence that asks for a column of every record of a dataset. -/
def everythingSentence (kind : Kind) (dataset shown : String) : String :=
  "In " ++ kind.name ++ " dataset " ++ dataset ++ ", find all entries; show " ++ shown ++ "."

theorem Query.wellFormed_everything {kind : Kind} {dataset : String} (hdataset : IsAsciiWord dataset) {column : Column}
    (hcolumn : column ∈ kind.columns) : (Query.everything kind dataset column.display).WellFormed where
  dataset := hdataset
  groups := by simp [everything]
  filter := by simp [everything]
  shown := by
    intro token htoken
    obtain rfl := List.mem_singleton.1 htoken
    exact Or.inl ⟨column, hcolumn, rfl⟩
  derived := by simp [everything]
  names_nodup := by simp [everything]
  derived_grouped := fun h => absurd rfl h
  shown_allowed := fun h => absurd rfl h
  order := by simp [everything]

/-- The sentence is made of the clauses of its query. -/
theorem toList_everythingSentence (kind : Kind) (dataset shown : String) :
    (everythingSentence kind dataset shown).toList =
      [] ++ (("In".toList ++ furtherText [kind.name.toList, "dataset".toList, dataset.toList]) ++ ([] ++ ([] ++
        (',' :: ([' '] ++ (("find".toList ++ furtherText ["all".toList, "entries".toList]) ++ [])) ++ [';'] ++ ([' '] ++
          (("show".toList ++ furtherText [shown.toList]) ++ ([] ++ ([] ++ ([] ++ '.' :: []))))))))) := by
  simp [everythingSentence, furtherText, String.toList_append]

/-- The sentence is accepted where the id is a word of its own, and means the query. -/
theorem ofSentence_everythingSentence {kind : Kind} {dataset : String} (hdataset : IsAsciiWord dataset) {column : Column}
    (hcolumn : column ∈ kind.columns) :
    Plan.ofSentence (everythingSentence kind dataset column.display) =
      .ok (Query.everything kind dataset column.display).plan := by
  have hq := Query.wellFormed_everything hdataset hcolumn
  have hall : AllText (',' :: ([' '] ++ (("find".toList ++ furtherText ["all".toList, "entries".toList]) ++ []))) :=
    ⟨_, _, _, by decide, spaced_furtherText _ _, over_nil, rfl⟩
  obtain ⟨o, hhead⟩ := readHead_of_worded hq over_nil (spaced_furtherText _ _) GroupPart.absent
    (startsWithKeyword_of_filterPart (FilterPart.all hall) over_nil _)
  obtain ⟨clause, o', haccept, hread⟩ := accept?_filterPart hq.filter (FilterPart.all hall) over_nil o _
  have htail := readTail_of_worded hq (u := [' ']) (by decide) (ListText.last rfl) (spaced_furtherText _ _) ApplyPart.absent
    SortPart.absent over_nil over_nil o'
  rw [← toList_everythingSentence] at hhead
  exact ofSentence_eq_ok.2 ⟨_, _, clause, _, _, _, hhead, haccept, hread, htail, rfl, validate_plan hq⟩

/-- The id that a sentence names is a word of ASCII letters, digits and `-` that means nothing else. -/
theorem isAsciiWord_of_ofSentence {sentence : String} {p : Plan} (h : Plan.ofSentence sentence = .ok p) :
    IsAsciiWord p.datasetId := by
  obtain ⟨head, _, _, _, _, _, hhead, -, -, -, rfl, -⟩ := ofSentence_eq_ok.1 h
  obtain ⟨hword, hscore, hkeyword⟩ := isWord_of_readHead hhead
  obtain ⟨hkeywords, hphrases⟩ := isKeyword_eq_false.1 hkeyword
  refine ⟨fun hempty => hword.1 (String.toList_eq_nil_iff.2 hempty), fun c hc => ?_, hkeywords, hphrases⟩
  have hchar := hword.2 c hc
  have hne : c ≠ '_' := fun heq => hscore (heq ▸ hc)
  simpa [isWordChar, isAsciiWordChar, hne] using hchar

namespace Service

/-- Every record that is stored under a word is shown. -/
theorem exists_query_everythingSentence {s : Service} {id : String} {d : Dataset}
    (hget : s.store.datasets.get? id = some d) (hid : IsAsciiWord id) {column : Column} (hcolumn : column ∈ d.kind.columns)
    (hsize : byteSize (everythingSentence d.kind id column.display).toList ≤ s.limits.maxSentenceBytes) :
    ∃ rows, s.query (everythingSentence d.kind id column.display) = .ok rows ∧ rows.length = d.records.length := by
  have hsentence := ofSentence_everythingSentence hid hcolumn
  obtain ⟨_, _, _, _, _, _, hhead, hfilter, hread, htail, hplan, hvalid⟩ := ofSentence_eq_ok.1 hsentence
  have hp := wellFormed_ofParts hhead hfilter hread htail (hplan ▸ hvalid)
  rw [← hplan] at hp
  have hmeans := Plan.meansRecords_answer hp rfl d.records
  obtain ⟨rows, hrows⟩ := hmeans.answers
  refine ⟨rows, query_eq_ok.2 ⟨hsize, _, d.records, hsentence, ⟨d, hget, rfl, rfl⟩, hrows⟩, ?_⟩
  have hall : Criteria.select (Query.everything d.kind id column.display).plan.criteria d.records = d.records :=
    List.filter_eq_self.2 fun _ _ => rfl
  rw [hmeans.length_eq rows hrows, hall]

/-- What is added under a word can be asked for, whatever was added and removed before: the sentence that shows a column of every
record names it, and has as many rows as were reported. An id that is no such word is named by no sentence. -/
theorem query_everything {limits : Limits} {calls : List Call} {id : String} {kind : Kind} {records : List Record}
    {info : DatasetInfo} {s : Service} (hadd : ((start limits).run calls).add id kind records = .ok (info, s))
    {column : Column} (hcolumn : column ∈ kind.columns)
    (hsize : byteSize (everythingSentence kind id column.display).toList ≤ limits.maxSentenceBytes) :
    (IsAsciiWord id →
      (∃ p, Plan.ofSentence (everythingSentence kind id column.display) = .ok p ∧ p.datasetId = id) ∧
        ∃ rows, s.query (everythingSentence kind id column.display) = .ok rows ∧ rows.length = info.size) ∧
      ∀ sentence p, Plan.ofSentence sentence = .ok p → p.datasetId = id → IsAsciiWord id := by
  obtain ⟨-, -, -, -, rfl, rfl⟩ := add_eq_ok.1 hadd
  refine ⟨fun hid => ⟨⟨_, ofSentence_everythingSentence hid hcolumn, rfl⟩, ?_⟩, ?_⟩
  · refine exists_query_everythingSentence (d := ⟨kind, records.filter kind.conforms⟩) ?_ hid hcolumn ?_
    · rw [Store.insert, NameMap.get?_insert, if_pos rfl]
    · rwa [limits_run]
  · rintro sentence p hp rfl
    exact isAsciiWord_of_ofSentence hp

/-- Two records of which one conforms, under an id that was in use before. -/
theorem query_everything_added_again :
    let s := (start Limits.default).run [.add "ubc-1" .courses [courseRecord], .remove "ubc-1"]
    let s' : Service := { s with store := s.store.insert "ubc-1" ⟨.courses, [courseRecord]⟩ }
    s.add "ubc-1" .courses [courseRecord, courseRecord.erase "dept"] = .ok (⟨"ubc-1", .courses, 1⟩, s') ∧
      ∃ rows, s'.query (everythingSentence .courses "ubc-1" "Department") = .ok rows ∧ rows.length = 1 := by
  intro s s'
  have hadd : s.add "ubc-1" .courses [courseRecord, courseRecord.erase "dept"] = .ok (⟨"ubc-1", .courses, 1⟩, s') := by
    decide +kernel
  have hcolumn : (⟨"Department", "dept", .text⟩ : Column) ∈ Kind.courses.columns := by decide
  have hasked := query_everything hadd hcolumn (by decide +kernel)
  exact ⟨hadd, (hasked.1 (by decide)).2⟩

/-- Under a keyword, and under a word with a full stop in it, a record is stored that the sentence does not get. -/
theorem query_everything_unnamed :
    let s : String → Service := fun id => ⟨Limits.default, Store.empty.insert id ⟨.courses, [courseRecord]⟩⟩
    ((start Limits.default).add "where" .courses [courseRecord] = .ok (⟨"where", .courses, 1⟩, s "where") ∧
      (s "where").query (everythingSentence .courses "where" "Department") =
        .error (.query (.wording (.invalidDatasetId "where")))) ∧
    ((start Limits.default).add "ubc.2020" .courses [courseRecord] = .ok (⟨"ubc.2020", .courses, 1⟩, s "ubc.2020") ∧
      (s "ubc.2020").query (everythingSentence .courses "ubc.2020" "Department") =
        .error (.query (.wording (.expected .filter 22)))) := by
  decide +kernel

end Service

end SentenceQuery
