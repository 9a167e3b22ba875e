import SentenceQuery.Proofs.Http.Requests
import SentenceQuery.Proofs.Query.Finite
import SentenceQuery.Proofs.Query.RowShape

/-!
# Answers over HTTP are faithful

No infinity and no NaN gets into the store through a request, and none comes up in an answer. So the body of an answer to a query
is an array of objects over numbers and texts, without a null and without a key twice, and read back as rows it is what was
answered (`Service.faithful_serve`). Of the reader of numbers it is assumed that a number of the answer is read back from its
text, and only where that is not an integer below 2^63.
-/

namespace SentenceQuery

open Json

/-! ## Records that are read -/

theorem Record.isFinite_of_read {depth : Nat} {s s' : List Char} {r : Record} (h : Record.read depth s = .ok (r, s')) :
    r.IsFinite := by
  refine readMap_keeps (K := Record.IsFinite) (fun depth r key s r' s' hr hmember => ?_) ?_ h
  · obtain ⟨⟨cell, s₁⟩, hcell, hinsert⟩ := bind_eq_ok.1 hmember
    cases hinsert
    intro field cell' hget
    rw [NameMap.get?_insert] at hget
    split at hget
    · cases hget
      exact Cell.isFinite_of_read hcell
    · exact hr field cell' hget
  · intro field cell hget
    cases hget

/-- The numbers in the records of a body are finite. -/
theorem Record.isFinite_of_listOfJsonStart {text : String} {records : List Record}
    (h : Record.listOfJsonStart text = .ok records) : ∀ r ∈ records, r.IsFinite := by
  obtain ⟨⟨read, rest⟩, hread, heq⟩ := bind_eq_ok.1 h
  cases heq
  exact readList_forall (P := Record.IsFinite) (fun _ _ _ _ hr => Record.isFinite_of_read hr) hread

namespace Service

variable {s s' : Service}

/-! ## Stored records -/

/-- Every stored dataset has no more records than the limit, and no infinity or NaN in them. -/
def HoldsFinite (s : Service) : Prop :=
  ∀ id d, s.store.datasets.get? id = some d →
    d.records.length ≤ s.limits.maxDatasetRecords ∧ ∀ r ∈ d.records, Record.IsFinite r

theorem start_holdsFinite (limits : Limits) : (start limits).HoldsFinite := by
  intro id d h
  cases h

theorem add_holdsFinite (hs : s.HoldsFinite) {name : String} {kind : Kind} {records : List Record} {info : DatasetInfo}
    (h : s.add name kind records = .ok (info, s')) (hrecords : ∀ r ∈ records, Record.IsFinite r) : s'.HoldsFinite := by
  have hgains := gains_of_add h
  obtain ⟨-, hfew, -⟩ := add_eq_ok.1 h
  intro id d hget
  rw [hgains.limits]
  by_cases hid : id = name
  · rw [hid, hgains.stored, Option.some.injEq] at hget
    subst hget
    exact ⟨Nat.le_trans (List.length_filter_le _ _) hfew, fun r hr => hrecords r (List.mem_filter.1 hr).1⟩
  · rw [hgains.others id hid] at hget
    exact hs id d hget

theorem remove_holdsFinite (hs : s.HoldsFinite) {name : String} (h : s.remove name = .ok s') : s'.HoldsFinite := by
  have hloses := loses_of_remove h
  intro id d hget
  rw [hloses.limits]
  by_cases hid : id = name
  · rw [hid, hloses.gone] at hget
    cases hget
  · rw [hloses.others id hid] at hget
    exact hs id d hget

/-- No request brings in an infinity or a NaN, or more records than the limit. -/
theorem respond_holdsFinite (hs : s.HoldsFinite) (r : Request) : (s.respond r).2.HoldsFinite := by
  rcases s.respond_cases r with ⟨_, _, _, _, _, hbody, hadd, heq⟩ | ⟨_, _, hremove, heq⟩ | ⟨-, heq⟩
  · rw [heq]
    exact add_holdsFinite hs hadd (Record.isFinite_of_listOfJsonStart hbody)
  · rw [heq]
    exact remove_holdsFinite hs hremove
  · rw [heq]
    exact hs

theorem serve_holdsFinite (hs : s.HoldsFinite) (requests : List Request) : (s.serve requests).HoldsFinite := by
  unfold serve
  induction requests generalizing s with
  | nil => exact hs
  | cons r requests ih => exact ih (respond_holdsFinite hs r)

theorem limits_respond (s : Service) (r : Request) : (s.respond r).2.limits = s.limits := by
  rcases s.respond_cases r with ⟨_, _, _, _, _, -, hadd, heq⟩ | ⟨_, _, hremove, heq⟩ | ⟨-, heq⟩
  · rw [heq]
    exact (gains_of_add hadd).limits
  · rw [heq]
    exact (loses_of_remove hremove).limits
  · rw [heq]

theorem limits_serve (s : Service) (requests : List Request) : (s.serve requests).limits = s.limits := by
  unfold serve
  induction requests generalizing s with
  | nil => rfl
  | cons r requests ih => rw [List.foldl_cons, ih, limits_respond]

end Service

/-! ## Answers -/

/-- The text is that of rows: an object with an array of objects, one for each row, with its keys in their order and none
twice, over numbers and texts; and the array is read as rows that count as the same, if the numbers in it that are
not short integers are read back from their texts. -/
structure IsAnswer (text : String) (rows : List Row) : Prop where
  body : ∃ items, readWholeText (readValue maxDepth) text.toList = .ok (.object [("result", .array items)]) ∧
    List.Forall₂ (fun row item => item.IsFlat row.keys) rows items
  keys_nodup : ∀ row ∈ rows, row.keys.Nodup
  read_back : (∀ row ∈ rows, ∀ c ∈ row.cells, ∀ x, c.2 = .number x → ¬IsShortWhole x → ReadsBack x) →
    ∃ array rows', text = String.ofList (Json.ofMembers [("result", array)]) ∧
      readWholeText (readList Row.read maxDepth) array = .ok rows' ∧ List.Forall₂ Row.Same rows' rows

theorem isAnswer_results {rows : List Row} (hfinite : ∀ row ∈ rows, row.IsFinite)
    (hkeys : ∀ row ∈ rows, row.keys.Nodup) : IsAnswer (Response.results (rows.map Row.toJson)).body rows := by
  refine ⟨?_, hkeys, fun hback => ?_⟩
  · obtain ⟨items, hreads, hflat⟩ := Row.exists_flat_of_rows hfinite 124
    have hbody : Reads (readValue maxDepth) (Json.ofMembers [("result", Json.ofItems (rows.map Row.toJson))])
        (.object [("result", .array items)]) := reads_value_object (.cons ⟨rfl, hreads⟩ .nil)
    refine ⟨items, ?_, hflat⟩
    rw [Response.results, String.toList_ofList]
    exact hbody.wholeText
  · obtain ⟨rows', hreads, hsame⟩ := Row.exists_same_rows hfinite hback 125
    exact ⟨_, rows', rfl, hreads.wholeText, hsame⟩

namespace Service

variable {s : Service} {r : Request}

/-- The rows that answer a sentence over finite records are finite, and have no key twice. -/
theorem rows_of_query (hs : s.HoldsFinite) (hlimit : s.limits.maxDatasetRecords < twoPow 64) {sentence : String}
    {rows : List Row} (h : s.query sentence = .ok rows) :
    (∀ row ∈ rows, row.IsFinite) ∧ ∀ row ∈ rows, row.keys.Nodup := by
  obtain ⟨-, p, records, hsentence, ⟨d, hget, -, rfl⟩, hrows⟩ := query_eq_ok.1 h
  obtain ⟨_, _, _, _, _, _, hhead, hfilter, hread, htail, hplan, hvalid⟩ := ofSentence_eq_ok.1 hsentence
  have hp : p.WellFormed := hplan ▸ wellFormed_ofParts hhead hfilter hread htail (hplan ▸ hvalid)
  obtain ⟨hfew, hfinite⟩ := hs _ d hget
  refine ⟨Plan.isFinite_answer hp hfinite (Nat.lt_of_le_of_lt hfew hlimit) hrows, fun row hrow => ?_⟩
  obtain ⟨hasCell, hkeys⟩ := Plan.exists_keys_of_answer hp hrows hrow
  exact hkeys ▸ Plan.nodup_shownKeys hp hasCell

/-- The response to a query that is answered is made of the texts of the rows. -/
theorem body_of_respond_query (hmethod : r.method = .post) (h : r.IsFor .query) {rows : List Row}
    (hrows : s.query r.body = .ok rows) : (s.respond r).1 = .results (rows.map Row.toJson) := by
  have hrespond : s.respond r = s.respondOn r .query := by rw [respond, h]
  rw [hrespond]
  simp only [respondOn, hmethod, post, hrows]
  rfl

/-- After whatever requests, under a limit that 64 bits can hold: the body of each answer to a query is that of the rows of its
sentence. -/
theorem faithful_serve {limits : Limits} (hlimit : limits.maxDatasetRecords < twoPow 64) (requests : List Request)
    (hmethod : r.method = .post) (h : r.IsFor .query)
    (hstatus : (((start limits).serve requests).respond r).1.status = 200) :
    ∃ rows, ((start limits).serve requests).query r.body = .ok rows ∧
      IsAnswer (((start limits).serve requests).respond r).1.body rows := by
  have hs := serve_holdsFinite (start_holdsFinite limits) requests
  have hlimits := limits_serve (start limits) requests
  generalize (start limits).serve requests = s at hs hlimits hstatus ⊢
  rcases respond_query (s := s) hmethod h with ⟨-, rows, hrows⟩ | ⟨hrefused, -⟩
  · obtain ⟨hfinite, hkeys⟩ := rows_of_query hs (hlimits ▸ hlimit) hrows
    refine ⟨rows, hrows, ?_⟩
    rw [body_of_respond_query hmethod h hrows]
    exact isAnswer_results hfinite hkeys
  · exact absurd (hstatus.symm.trans hrefused) (by decide)

/-- A course is put in, and its average and the number of titles are asked for. -/
theorem faithful_serve_one_course :
    let requests : List Request := [⟨.put, "/dataset/sfu/courses", some "application/json",
      "[\x7b\"avg\":905e-1,\"pass\":8,\"fail\":1,\"audit\":0,\"year\":1,\"dept\":\"c\",\"id\":\"\"," ++
        "\"instructor\":\"\",\"title\":\"\\u0070\",\"uuid\":\"1\"\x7d]"⟩]
    let r : Request := ⟨.post, "/query", none, "In courses dataset sfu grouped by Title, find all entries; " ++
      "show Title, top and n, where top is the MAX of Average and n is the COUNT of Title."⟩
    let rows : List Row := [⟨[("sfu_title", .text "p"), ("top", .number (.ofDecimal false ⟨905, -1⟩)), ("n", .number (.ofNat 1))]⟩]
    Limits.default.maxDatasetRecords < twoPow 64 ∧ r.method = .post ∧ r.IsFor .query ∧
      (((start .default).serve requests).respond r).1.status = 200 ∧
      IsAnswer (((start .default).serve requests).respond r).1.body rows ∧
      ∃ array rows', (((start .default).serve requests).respond r).1.body = String.ofList (Json.ofMembers [("result", array)]) ∧
        readWholeText (readList Row.read maxDepth) array = .ok rows' ∧ List.Forall₂ Row.Same rows' rows := by
  intro requests r rows
  have hlimit : Limits.default.maxDatasetRecords < twoPow 64 := by decide
  have hroute : Target.route? (Target.path r.target.toList) = some .query := by decide +kernel
  have hrows : ((start .default).serve requests).query r.body = .ok rows := by decide +kernel
  have hstatus : (((start .default).serve requests).respond r).1.status = 200 := by
    rw [body_of_respond_query rfl hroute hrows]
    rfl
  obtain ⟨rows', hrows', hanswer⟩ := faithful_serve hlimit requests rfl hroute hstatus
  rw [hrows, Except.ok.injEq] at hrows'
  subst hrows'
  refine ⟨hlimit, rfl, hroute, hstatus, hanswer, hanswer.read_back ?_⟩
  intro row hrow c hc x hx hlong
  obtain rfl := List.mem_singleton.1 hrow
  simp only [List.mem_cons, List.not_mem_nil, or_false] at hc
  rcases hc with rfl | rfl | rfl
  · cases hx
  · cases hx
    decide +kernel
  · cases hx
    decide +kernel

end Service

end SentenceQuery
