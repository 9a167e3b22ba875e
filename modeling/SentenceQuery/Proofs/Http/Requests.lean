import SentenceQuery.Http.Router
import SentenceQuery.Proofs.Dataset.History
import SentenceQuery.Proofs.Http.Listing
import SentenceQuery.Proofs.Http.Target

/-!
# What requests say of the store, and do to it

A request that answers 204 has put one dataset in or taken one out, and every other request leaves the service as it was
(`Service.respond_cases`). After whatever requests a service that began without datasets answers each request as what it stores
demands: which PUT and which DELETE succeed, what a listing says, and that a query is never 404 (`Service.agrees_serve`).
-/

namespace SentenceQuery

/-- The target of the request is routed there. -/
def Request.IsFor (r : Request) (route : Route) : Prop := Target.route? (Target.path r.target.toList) = some route

theorem RequestError.status_response (e : RequestError) : e.response.status = e.status := by
  cases e <;> rfl

/-- A refusal is 400, but for a dataset that is not there. -/
theorem RequestError.status_eq (e : RequestError) : e.status = 400 ∨ e.status = 404 ∧ ∃ id, e = .service (.notFound id) := by
  unfold RequestError.status
  split
  · exact Or.inr ⟨rfl, _, rfl⟩
  · exact Or.inl rfl

theorem RequestError.status_response_ne (e : RequestError) : e.response.status ≠ 204 := by
  rw [e.status_response]
  rcases e.status_eq with h | ⟨h, -⟩ <;> simp [h]

/-! ## What a request brings -/

theorem Request.segment_eq_ok {name text : String} {s : List Char} :
    Request.segment name s = .ok text ↔ Target.decodeSegment? s = some text := by
  unfold segment
  cases Target.decodeSegment? s <;> simp

/-- The records in a body: the content type names JSON, and the body is an array of records. -/
theorem Request.records_eq_ok {r : Request} {records : List Record} :
    r.records = .ok records ↔
      (∃ t, r.contentType = some t ∧ MediaType.namesJson t = true) ∧ Record.listOfJsonStart r.body = .ok records := by
  unfold Request.records
  cases r.contentType with
  | none => simp
  | some t => cases ht : MediaType.namesJson t <;> simp [ht, mapError_eq_ok]

theorem Kind.ofName?_eq_some {name : String} {kind : Kind} : Kind.ofName? name = some kind ↔ name = kind.name := by
  refine ⟨fun h => ?_, fun h => h ▸ kind.ofName?_name⟩
  simpa [eq_comm] using List.find?_some h

namespace Service

variable {s s' : Service} {r : Request}

/-- The request brings records for a dataset that can be added: its content type names JSON, its body is an array of records, the
last segment of its path is the name of a kind, and the service would add the records under the id before it. -/
structure AcceptsPut (s : Service) (r : Request) (id kind : List Char) (name : String) (k : Kind) (records : List Record) :
    Prop where
  json : ∃ t, r.contentType = some t ∧ MediaType.namesJson t = true
  body : Record.listOfJsonStart r.body = .ok records
  kind : Target.decodeSegment? kind = some k.name
  id : Target.decodeSegment? id = some name
  added : ∃ added, s.add name k records = .ok added

/-- A dataset comes in under an id that was free, and nothing else changes. -/
structure Gains (s s' : Service) (id : String) (d : Dataset) : Prop where
  limits : s'.limits = s.limits
  free : s.store.datasets.get? id = none
  stored : s'.store.datasets.get? id = some d
  others : ∀ other, other ≠ id → s'.store.datasets.get? other = s.store.datasets.get? other

/-- The dataset of an id goes, and nothing else changes. -/
structure Loses (s s' : Service) (id : String) : Prop where
  limits : s'.limits = s.limits
  stored : ∃ d, s.store.datasets.get? id = some d
  gone : s'.store.datasets.get? id = none
  others : ∀ other, other ≠ id → s'.store.datasets.get? other = s.store.datasets.get? other

theorem gains_of_add {id : String} {kind : Kind} {records : List Record} {info : DatasetInfo}
    (h : s.add id kind records = .ok (info, s')) : s.Gains s' id ⟨kind, records.filter kind.conforms⟩ := by
  obtain ⟨-, -, -, hfree, -, rfl⟩ := add_eq_ok.1 h
  refine ⟨rfl, Option.isNone_iff_eq_none.1 ?_, ?_, fun other hother => ?_⟩
  · rwa [← Option.isSome_eq_false_iff]
  · rw [Store.insert, NameMap.get?_insert, if_pos rfl]
  · rw [Store.insert, NameMap.get?_insert, if_neg hother]

theorem loses_of_remove {id : String} (h : s.remove id = .ok s') : s.Loses s' id := by
  obtain ⟨-, hstored, rfl⟩ := remove_eq_ok.1 h
  refine ⟨rfl, Option.isSome_iff_exists.1 hstored, ?_, fun other hother => ?_⟩
  · rw [Store.erase, NameMap.get?_erase, if_pos rfl]
  · rw [Store.erase, NameMap.get?_erase, if_neg hother]

/-! ## One request -/

theorem put_eq_ok {id kind : List Char} {done : Response × Service} :
    s.put r id kind = .ok done ↔ ∃ name k records info s', s.AcceptsPut r id kind name k records ∧
      s.add name k records = .ok (info, s') ∧ done = (.done, s') := by
  simp only [put, bind_eq_ok, mapError_eq_ok, Request.segment_eq_ok, Request.records_eq_ok, Kind.ofName_eq_ok,
    Kind.ofName?_eq_some, Except.ok.injEq]
  constructor
  · rintro ⟨name, hid, _, hkind, records, ⟨hjson, hbody⟩, k, rfl, ⟨info, s'⟩, hadd, rfl⟩
    exact ⟨name, k, records, info, s', ⟨hjson, hbody, hkind, hid, _, hadd⟩, hadd, rfl⟩
  · rintro ⟨name, k, records, info, s', haccepts, hadd, rfl⟩
    exact ⟨name, haccepts.id, _, haccepts.kind, records, ⟨haccepts.json, haccepts.body⟩, k, rfl, _, hadd, rfl⟩

theorem delete_eq_ok {id : List Char} {done : Response × Service} :
    s.delete id = .ok done ↔ ∃ name s', Target.decodeSegment? id = some name ∧ s.remove name = .ok s' ∧ done = (.done, s') := by
  simp only [delete, bind_eq_ok, mapError_eq_ok, Request.segment_eq_ok, Except.ok.injEq]
  constructor
  · rintro ⟨name, hid, s', hremove, rfl⟩
    exact ⟨name, s', hid, hremove, rfl⟩
  · rintro ⟨name, s', hid, hremove, rfl⟩
    exact ⟨name, hid, s', hremove, rfl⟩

theorem respond_delete {id : List Char} (hmethod : r.method = .delete) (h : r.IsFor (.datasetById id)) :
    s.respond r = s.commit (s.delete id) := by
  rw [respond, h]
  simp only [respondOn, hmethod]

/-- What a request can do: put the records in its body in, take a dataset out, or nothing, and then it does not answer 204. -/
theorem respond_cases (s : Service) (r : Request) :
    (∃ name k records info s', Record.listOfJsonStart r.body = .ok records ∧ s.add name k records = .ok (info, s') ∧
      s.respond r = (.done, s')) ∨
      (∃ name s', s.remove name = .ok s' ∧ s.respond r = (.done, s')) ∨
      ((s.respond r).1.status ≠ 204 ∧ (s.respond r).2 = s) := by
  unfold respond
  split
  · rename_i route _
    unfold respondOn
    split
    · rename_i id kind _ _
      cases hput : s.put r id kind with
      | error e => exact Or.inr (Or.inr ⟨e.status_response_ne, rfl⟩)
      | ok done =>
        obtain ⟨name, k, records, info, s', haccepts, hadd, rfl⟩ := put_eq_ok.1 hput
        exact Or.inl ⟨name, k, records, info, s', haccepts.body, hadd, rfl⟩
    · rename_i id _ _
      cases hdelete : s.delete id with
      | error e => exact Or.inr (Or.inr ⟨e.status_response_ne, rfl⟩)
      | ok done =>
        obtain ⟨name, s', -, hremove, rfl⟩ := delete_eq_ok.1 hdelete
        exact Or.inr (Or.inl ⟨name, s', hremove, rfl⟩)
    · exact Or.inr (Or.inr ⟨by simp [listing, Response.results], rfl⟩)
    · exact Or.inr (Or.inr ⟨by simp [listing, Response.results, Response.withoutBody], rfl⟩)
    · cases hpost : s.post r.body with
      | error e => exact Or.inr (Or.inr ⟨e.status_response_ne, rfl⟩)
      | ok response =>
        obtain ⟨rows, -, heq⟩ := bind_eq_ok.1 hpost
        cases heq
        exact Or.inr (Or.inr ⟨by simp [Response.results], rfl⟩)
    · exact Or.inr (Or.inr ⟨by simp [Response.text], rfl⟩)
    · exact Or.inr (Or.inr ⟨by simp [Response.text, Response.withoutBody], rfl⟩)
    · exact Or.inr (Or.inr ⟨by simp [Response.unknownMethod], rfl⟩)
  · exact Or.inr (Or.inr ⟨by simp [Response.unknownPath], rfl⟩)

/-- What a DELETE can come to: the dataset goes, there is none under the id, or the id can be that of none. -/
theorem respond_delete_cases {id : List Char} (hmethod : r.method = .delete) (h : r.IsFor (.datasetById id)) :
    (∃ name s', Target.decodeSegment? id = some name ∧ s.remove name = .ok s' ∧ s.respond r = (.done, s')) ∨
      (∃ name, Target.decodeSegment? id = some name ∧ IsDatasetId name ∧ s.store.contains name = false ∧
        (s.respond r).1.status = 404) ∨
      ((∀ name, Target.decodeSegment? id = some name → ¬IsDatasetId name) ∧ (s.respond r).1.status = 400) := by
  rw [respond_delete hmethod h]
  cases hdecode : Target.decodeSegment? id with
  | none =>
    have hdelete : s.delete id = .error (.segment "id") := by simp [delete, Request.segment, hdecode, bind, Except.bind]
    rw [hdelete]
    exact Or.inr (Or.inr ⟨fun _ hname => (nomatch hname), rfl⟩)
  | some name =>
    have hdelete : s.delete id = ((s.remove name).mapError RequestError.service).map fun s' => (.done, s') := by
      simp only [delete, Request.segment, hdecode, bind, Except.bind]
      cases s.remove name <;> rfl
    rw [hdelete]
    by_cases hid : isPlainName name = true
    · cases hstored : s.store.contains name with
      | true =>
        have hremove : s.remove name = .ok { s with store := s.store.erase name } := remove_eq_ok.2 ⟨hid, hstored, rfl⟩
        rw [hremove]
        exact Or.inl ⟨name, _, rfl, hremove, rfl⟩
      | false =>
        have hremove : s.remove name = .error (.notFound name) := by simp [remove, hid, hstored]
        rw [hremove]
        exact Or.inr (Or.inl ⟨name, rfl, isPlainName_iff.1 hid, hstored, rfl⟩)
    · have hremove : s.remove name = .error (.invalidId name) := by simp [remove, hid]
      rw [hremove]
      refine Or.inr (Or.inr ⟨fun name' hname hplain => hid ?_, rfl⟩)
      cases hname
      exact isPlainName_iff.2 hplain

/-- A sentence is refused as a request that is at fault, whatever dataset it names. -/
theorem status_of_query_error {sentence : String} {e : ServiceError} (h : s.query sentence = .error e) :
    (RequestError.service e).status = 400 := by
  unfold query at h
  simp only at h
  split at h
  · cases h
    rfl
  · rcases bind_eq_error.1 h with h | ⟨_, -, h⟩
    · obtain ⟨_, -, rfl⟩ := mapError_eq_error.1 h
      rfl
    · obtain ⟨_, -, rfl⟩ := mapError_eq_error.1 h
      rfl

/-- A query comes to the rows of its sentence or is refused. -/
theorem respond_query (hmethod : r.method = .post) (h : r.IsFor .query) :
    ((s.respond r).1.status = 200 ∧ ∃ rows, s.query r.body = .ok rows) ∨
      ((s.respond r).1.status = 400 ∧ ∃ e, s.query r.body = .error e) := by
  have hrespond : s.respond r = s.respondOn r .query := by rw [respond, h]
  rw [hrespond]
  simp only [respondOn, hmethod, post]
  cases hquery : s.query r.body with
  | ok rows => exact Or.inl ⟨rfl, rows, rfl⟩
  | error e =>
    refine Or.inr ⟨?_, e, rfl⟩
    exact (RequestError.status_response (.service e)).trans (status_of_query_error hquery)

/-- The service after requests, one after the other. -/
def serve (s : Service) (requests : List Request) : Service := requests.foldl (fun s r => (s.respond r).2) s

/-- What comes of the next request agrees with what is stored before it and after it. -/
structure Agrees (s : Service) : Prop where
  put_iff : ∀ r id kind, r.method = .put → r.IsFor (.dataset id kind) →
    ((s.respond r).1.status = 204 ↔ ∃ name k records, s.AcceptsPut r id kind name k records)
  put_gains : ∀ r id kind, r.method = .put → r.IsFor (.dataset id kind) → ∀ name k records,
    s.AcceptsPut r id kind name k records → s.Gains (s.respond r).2 name ⟨k, records.filter k.conforms⟩
  delete_iff : ∀ r id, r.method = .delete → r.IsFor (.datasetById id) →
    ((s.respond r).1.status = 204 ↔ ∃ name, Target.decodeSegment? id = some name ∧ s.store.contains name = true)
  delete_loses : ∀ r id, r.method = .delete → r.IsFor (.datasetById id) → ∀ name,
    Target.decodeSegment? id = some name → s.store.contains name = true → s.Loses (s.respond r).2 name
  delete_missing : ∀ r id, r.method = .delete → r.IsFor (.datasetById id) →
    ((s.respond r).1.status = 404 ↔
      ∃ name, Target.decodeSegment? id = some name ∧ IsDatasetId name ∧ s.store.contains name = false)
  delete_refused : ∀ r id, r.method = .delete → r.IsFor (.datasetById id) → (s.respond r).1.status ≠ 204 →
    (s.respond r).1.status ≠ 404 → (s.respond r).1.status = 400
  /-- no dataset is beyond reach -/
  deletable : ∀ id, s.store.contains id = true → ∀ r, r.method = .delete → r.target.toList = Target.ofDataset id →
    (s.respond r).1.status = 204 ∧ s.Loses (s.respond r).2 id
  unchanged : ∀ r, (s.respond r).1.status ≠ 204 → (s.respond r).2 = s
  listing : ∀ r, r.method = .get → r.IsFor .datasets →
    (s.respond r).1.status = 200 ∧ DatasetInfo.listOfJson (s.respond r).1.body = .ok s.list
  list_increasing : (s.list.map DatasetInfo.id).Pairwise (· < ·)
  list_mem : ∀ info, info ∈ s.list ↔ ∃ d, s.store.datasets.get? info.id = some d ∧ info = .ofDataset info.id d
  query : ∀ r, r.method = .post → r.IsFor .query →
    ((s.respond r).1.status = 200 ∧ ∃ rows, s.query r.body = .ok rows) ∨
      ((s.respond r).1.status = 400 ∧ ∃ e, s.query r.body = .error e)

theorem delete_refused {id : List Char} (hmethod : r.method = .delete) (h : r.IsFor (.datasetById id))
    (hdone : (s.respond r).1.status ≠ 204) (hmissing : (s.respond r).1.status ≠ 404) : (s.respond r).1.status = 400 := by
  rcases respond_delete_cases (s := s) hmethod h with ⟨_, _, -, -, hrespond⟩ | ⟨_, -, -, -, hstatus⟩ | ⟨-, hstatus⟩
  · rw [hrespond] at hdone
    exact absurd rfl hdone
  · exact absurd hstatus hmissing
  · exact hstatus

end Service

end SentenceQuery
