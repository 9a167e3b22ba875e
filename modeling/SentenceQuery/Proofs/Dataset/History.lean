import SentenceQuery.Proofs.Dataset.Service

/-!
# Histories of the service

What is asked of a fresh service, one thing after the other, is kept with what came of it. The stored datasets are then a matter
of the history alone: under an id stands the last add that succeeded, unless a remove has succeeded since (`StoredBy`). After
every history the service agrees with it, in what it stores, in what it lists and in which calls it refuses
(`History.agrees_ofOperations`).
-/

namespace SentenceQuery

/-- What can be asked of the service. -/
inductive Operation where
  | add (id : String) (kind : Kind) (records : List Record)
  | remove (id : String)
  | list
  | query (sentence : String)
deriving DecidableEq

/-- What comes of an operation. -/
inductive Reply where
  | added (info : DatasetInfo)
  | removed
  | listed (infos : List DatasetInfo)
  | answered (rows : List Row)
  | refused (cause : ServiceError)
deriving DecidableEq

/-- An operation and what came of it. -/
structure Event where
  operation : Operation
  reply : Reply
deriving DecidableEq

/-- What comes of an operation, and the service after it. -/
def Service.perform (s : Service) : Operation → Reply × Service
  | .add id kind records =>
    match s.add id kind records with
    | .ok (info, s') => (.added info, s')
    | .error cause => (.refused cause, s)
  | .remove id =>
    match s.remove id with
    | .ok s' => (.removed, s')
    | .error cause => (.refused cause, s)
  | .list => (.listed s.list, s)
  | .query sentence =>
    match s.query sentence with
    | .ok rows => (.answered rows, s)
    | .error cause => (.refused cause, s)

/-- What has happened so far, and the service as it is now. -/
structure History where
  events : List Event
  service : Service
deriving DecidableEq

namespace History

/-- A fresh service, to which nothing has happened. -/
def start (limits : Limits) : History := ⟨[], .start limits⟩

/-- The history with one more operation at its end. -/
def extend (h : History) (op : Operation) : History :=
  ⟨h.events ++ [⟨op, (h.service.perform op).1⟩], (h.service.perform op).2⟩

/-- The history of operations on a fresh service. -/
def ofOperations (limits : Limits) (ops : List Operation) : History := ops.foldl extend (start limits)

end History

/-! ## What a history says -/

/-- The event puts a dataset in under the id, or takes the one there out. -/
inductive Event.Changes (id : String) : Event → Prop where
  | added {kind : Kind} {records : List Record} {info : DatasetInfo} : Changes id ⟨.add id kind records, .added info⟩
  | removed : Changes id ⟨.remove id, .removed⟩

/-- The last add of the id that succeeded had these records and reported this, and no remove of the id has succeeded since. -/
def StoredBy (events : List Event) (id : String) (kind : Kind) (records : List Record) (info : DatasetInfo) : Prop :=
  ∃ before after, events = before ++ ⟨.add id kind records, .added info⟩ :: after ∧ ∀ e ∈ after, ¬e.Changes id

/-- A dataset is there under the id. -/
def Taken (events : List Event) (id : String) : Prop := ∃ kind records info, StoredBy events id kind records info

/-- The id can be that of a dataset. -/
structure IsDatasetId (id : String) : Prop where
  ne_empty : id ≠ ""
  no_underscore : '_' ∉ id.toList
  no_blank : ∀ c ∈ id.toList, isBlank c = false

/-- What comes of adding records, by the first cause to refuse them, if there is one. -/
inductive AddReply (limits : Limits) (taken : Prop) (id : String) (kind : Kind) (records : List Record) :
    Reply → Prop where
  | invalidId (hid : ¬IsDatasetId id) : AddReply limits taken id kind records (.refused (.invalidId id))
  | tooManyRecords (hid : IsDatasetId id) (hmany : limits.maxDatasetRecords < records.length) :
      AddReply limits taken id kind records (.refused (.tooManyRecords records.length limits.maxDatasetRecords))
  | noValidData (hid : IsDatasetId id) (hfew : records.length ≤ limits.maxDatasetRecords)
      (hnone : ∀ r ∈ records, kind.conforms r = false) : AddReply limits taken id kind records (.refused (.noValidData id))
  | alreadyExists (hid : IsDatasetId id) (hfew : records.length ≤ limits.maxDatasetRecords)
      (hsome : ∃ r ∈ records, kind.conforms r = true) (htaken : taken) :
      AddReply limits taken id kind records (.refused (.alreadyExists id))
  | added (hid : IsDatasetId id) (hfew : records.length ≤ limits.maxDatasetRecords)
      (hsome : ∃ r ∈ records, kind.conforms r = true) (hfree : ¬taken) :
      AddReply limits taken id kind records (.added ⟨id, kind, (records.filter kind.conforms).length⟩)

/-- What comes of removing a dataset. -/
inductive RemoveReply (taken : Prop) (id : String) : Reply → Prop where
  | invalidId (hid : ¬IsDatasetId id) : RemoveReply taken id (.refused (.invalidId id))
  | notFound (hid : IsDatasetId id) (hfree : ¬taken) : RemoveReply taken id (.refused (.notFound id))
  | removed (hid : IsDatasetId id) (htaken : taken) : RemoveReply taken id .removed

theorem storedBy_concat {events : List Event} {e : Event} {id : String} {kind : Kind} {records : List Record}
    {info : DatasetInfo} : StoredBy (events ++ [e]) id kind records info ↔
      e = ⟨.add id kind records, .added info⟩ ∨ ¬e.Changes id ∧ StoredBy events id kind records info := by
  constructor
  · rintro ⟨before, after, heq, hafter⟩
    rcases List.eq_nil_or_concat after with rfl | ⟨after, last, rfl⟩
    · exact Or.inl (List.singleton_inj.1 (List.append_inj_right' heq rfl))
    · rw [List.concat_eq_append] at heq hafter
      rw [← List.cons_append, ← List.append_assoc] at heq
      obtain ⟨rfl, hlast⟩ := List.append_inj' heq rfl
      obtain rfl := List.singleton_inj.1 hlast
      exact Or.inr ⟨hafter e (by simp), before, after, rfl, fun e' he' => hafter e' (by simp [he'])⟩
  · rintro (rfl | ⟨hkeeps, before, after, rfl, hafter⟩)
    · exact ⟨events, [], rfl, by simp⟩
    · refine ⟨before, after ++ [e], by simp, fun e' he' => ?_⟩
      rcases List.mem_append.1 he' with he' | he'
      · exact hafter e' he'
      · rwa [List.mem_singleton.1 he']

theorem not_storedBy_nil {id : String} {kind : Kind} {records : List Record} {info : DatasetInfo} :
    ¬StoredBy [] id kind records info := by
  rintro ⟨before, after, heq, -⟩
  simp at heq

/-- An event that changes nothing under the id leaves what is there. -/
theorem storedBy_concat_of_not_changes {events : List Event} {e : Event} {id : String} (h : ¬e.Changes id) {kind : Kind}
    {records : List Record} {info : DatasetInfo} :
    StoredBy (events ++ [e]) id kind records info ↔ StoredBy events id kind records info := by
  rw [storedBy_concat]
  constructor
  · rintro (rfl | ⟨-, hstored⟩)
    · exact absurd .added h
    · exact hstored
  · exact fun hstored => Or.inr ⟨h, hstored⟩

/-! ## What one operation does -/

theorem isPlainName_iff {id : String} : isPlainName id = true ↔ IsDatasetId id := by
  rw [isPlainName_eq_true]
  exact ⟨fun ⟨h₁, h₂, h₃⟩ => ⟨h₁, h₂, h₃⟩, fun ⟨h₁, h₂, h₃⟩ => ⟨h₁, h₂, h₃⟩⟩

namespace Service

theorem perform_add_of_error {s : Service} {id : String} {kind : Kind} {records : List Record} {cause : ServiceError}
    (h : s.screen id kind records = .error cause) : s.perform (.add id kind records) = (.refused cause, s) := by
  simp only [perform, add, h, bind, Except.bind]

theorem perform_add_of_ok {s : Service} {id : String} {kind : Kind} {records : List Record} {d : Dataset}
    (h : s.screen id kind records = .ok d) :
    s.perform (.add id kind records) = (.added (.ofDataset id d), { s with store := s.store.insert id d }) := by
  simp only [perform, add, h, bind, Except.bind]

/-- An add is refused by the first of its checks that fails, and then changes nothing; or it stores the records that conform. -/
theorem perform_add (s : Service) (id : String) (kind : Kind) (records : List Record) :
    AddReply s.limits (s.store.contains id = true) id kind records (s.perform (.add id kind records)).1 ∧
      ((∃ cause, s.perform (.add id kind records) = (.refused cause, s)) ∨
        s.perform (.add id kind records) = (.added ⟨id, kind, (records.filter kind.conforms).length⟩,
          { s with store := s.store.insert id ⟨kind, records.filter kind.conforms⟩ })) := by
  by_cases hid : isPlainName id = true
  · have hid' := isPlainName_iff.1 hid
    by_cases hmany : s.limits.maxDatasetRecords < records.length
    · have hscreen : s.screen id kind records = .error (.tooManyRecords records.length s.limits.maxDatasetRecords) := by
        simp [screen, hid, hmany]
      rw [perform_add_of_error hscreen]
      exact ⟨.tooManyRecords hid' hmany, Or.inl ⟨_, rfl⟩⟩
    · have hfew := Nat.not_lt.1 hmany
      by_cases hnone : records.filter kind.conforms = []
      · have hscreen : s.screen id kind records = .error (.noValidData id) := by simp [screen, hid, hmany, hnone]
        rw [perform_add_of_error hscreen]
        refine ⟨.noValidData hid' hfew fun r hr => ?_, Or.inl ⟨_, rfl⟩⟩
        simpa using List.filter_eq_nil_iff.1 hnone r hr
      · have hsome : ∃ r ∈ records, kind.conforms r = true := by
          obtain ⟨r, hr⟩ := List.exists_mem_of_ne_nil _ hnone
          exact ⟨r, List.mem_filter.1 hr⟩
        by_cases htaken : s.store.contains id = true
        · have hscreen : s.screen id kind records = .error (.alreadyExists id) := by
            simp only [screen, hid, hmany, hnone, htaken, List.isEmpty_iff, Bool.not_true, Bool.false_eq_true, if_false,
              if_true]
          rw [perform_add_of_error hscreen]
          exact ⟨.alreadyExists hid' hfew hsome htaken, Or.inl ⟨_, rfl⟩⟩
        · have hscreen : s.screen id kind records = .ok ⟨kind, records.filter kind.conforms⟩ := by
            simp only [screen, hid, hmany, hnone, htaken, List.isEmpty_iff, Bool.not_true, Bool.false_eq_true, if_false]
          rw [perform_add_of_ok hscreen]
          exact ⟨.added hid' hfew hsome htaken, Or.inr rfl⟩
  · have hscreen : s.screen id kind records = .error (.invalidId id) := by simp [screen, hid]
    rw [perform_add_of_error hscreen]
    exact ⟨.invalidId fun h => hid (isPlainName_iff.2 h), Or.inl ⟨_, rfl⟩⟩

/-- A remove is refused and changes nothing, or takes the dataset out. -/
theorem perform_remove (s : Service) (id : String) :
    RemoveReply (s.store.contains id = true) id (s.perform (.remove id)).1 ∧
      ((∃ cause, s.perform (.remove id) = (.refused cause, s)) ∨
        s.perform (.remove id) = (.removed, { s with store := s.store.erase id })) := by
  by_cases hid : isPlainName id = true
  · by_cases htaken : s.store.contains id = true
    · have h : s.perform (.remove id) = (.removed, { s with store := s.store.erase id }) := by
        simp [perform, remove, hid, htaken]
      rw [h]
      exact ⟨.removed (isPlainName_iff.1 hid) htaken, Or.inr rfl⟩
    · have h : s.perform (.remove id) = (.refused (.notFound id), s) := by simp [perform, remove, hid, htaken]
      rw [h]
      exact ⟨.notFound (isPlainName_iff.1 hid) htaken, Or.inl ⟨_, rfl⟩⟩
  · have h : s.perform (.remove id) = (.refused (.invalidId id), s) := by simp [perform, remove, hid]
    rw [h]
    exact ⟨.invalidId fun h => hid (isPlainName_iff.2 h), Or.inl ⟨_, rfl⟩⟩

/-- A sentence changes nothing, whatever comes of it. -/
theorem perform_query (s : Service) (sentence : String) :
    (s.perform (.query sentence)).2 = s ∧ ∀ id, ¬Event.Changes id ⟨.query sentence, (s.perform (.query sentence)).1⟩ := by
  refine ⟨?_, fun id h => nomatch h⟩
  cases h : s.query sentence <;> simp only [perform, h]

end Service

namespace History

/-- What is stored agrees with the events, dataset by dataset. -/
structure Stores (limits : Limits) (h : History) : Prop where
  limits_eq : h.service.limits = limits
  get?_eq_some_iff : ∀ id d, h.service.store.datasets.get? id = some d ↔
    ∃ records, StoredBy h.events id d.kind records ⟨id, d.kind, d.records.length⟩ ∧
      d.records = records.filter d.kind.conforms
  info_eq : ∀ id kind records info, StoredBy h.events id kind records info →
    info = ⟨id, kind, (records.filter kind.conforms).length⟩
  size : ∀ id d, h.service.store.datasets.get? id = some d →
    1 ≤ d.records.length ∧ d.records.length ≤ limits.maxDatasetRecords
  id_valid : ∀ id d, h.service.store.datasets.get? id = some d → IsDatasetId id

theorem stores_start (limits : Limits) : (start limits).Stores limits where
  limits_eq := rfl
  get?_eq_some_iff := by
    intro id d
    constructor
    · intro h
      cases h
    · rintro ⟨_, h, -⟩
      exact absurd h not_storedBy_nil
  info_eq := fun _ _ _ _ h => absurd h not_storedBy_nil
  size := fun _ _ h => nomatch h
  id_valid := fun _ _ h => nomatch h

/-- An event that changes nothing under any id, over the same service. -/
theorem Stores.of_not_changes {limits : Limits} {h : History} (hh : h.Stores limits) {e : Event}
    (he : ∀ id, ¬e.Changes id) : Stores limits ⟨h.events ++ [e], h.service⟩ where
  limits_eq := hh.limits_eq
  get?_eq_some_iff := by
    intro id d
    simp only [storedBy_concat_of_not_changes (he id)]
    exact hh.get?_eq_some_iff id d
  info_eq := by
    intro id kind records info hstored
    exact hh.info_eq id kind records info ((storedBy_concat_of_not_changes (he id)).1 hstored)
  size := hh.size
  id_valid := hh.id_valid

/-- The records that an add stores are those that conform, and the event is the one that stores them. -/
theorem Stores.of_added {limits : Limits} {h : History} (hh : h.Stores limits) {id : String} {kind : Kind}
    {records : List Record} (hid : IsDatasetId id) (hfew : records.length ≤ limits.maxDatasetRecords)
    (hsome : ∃ r ∈ records, kind.conforms r = true) :
    Stores limits
      ⟨h.events ++ [⟨.add id kind records, .added ⟨id, kind, (records.filter kind.conforms).length⟩⟩],
        { h.service with store := h.service.store.insert id ⟨kind, records.filter kind.conforms⟩ }⟩ := by
  have hsize : 1 ≤ (records.filter kind.conforms).length ∧
      (records.filter kind.conforms).length ≤ limits.maxDatasetRecords := by
    obtain ⟨r, hr⟩ := hsome
    exact ⟨List.length_pos_of_mem (List.mem_filter.2 hr), Nat.le_trans (List.length_filter_le _ _) hfew⟩
  have hother : ∀ {id'}, id' ≠ id →
      ¬Event.Changes id' ⟨.add id kind records, .added ⟨id, kind, (records.filter kind.conforms).length⟩⟩ := by
    rintro id' hne ⟨⟩
    exact hne rfl
  refine ⟨hh.limits_eq, ?_, ?_, ?_, ?_⟩
  · intro id' d
    simp only [Store.insert, NameMap.get?_insert]
    by_cases heq : id' = id
    · subst heq
      simp only [if_true, Option.some.injEq]
      constructor
      · rintro rfl
        exact ⟨records, storedBy_concat.2 (Or.inl rfl), rfl⟩
      · rintro ⟨records', hstored, hrecords⟩
        rcases storedBy_concat.1 hstored with hevent | ⟨hkeeps, -⟩
        · obtain ⟨kind', _⟩ := d
          simp only [Event.mk.injEq, Operation.add.injEq] at hevent
          obtain ⟨⟨-, rfl, rfl⟩, -⟩ := hevent
          exact congrArg _ hrecords.symm
        · exact absurd .added hkeeps
    · simp only [if_neg heq, storedBy_concat_of_not_changes (hother heq)]
      exact hh.get?_eq_some_iff id' d
  · intro id' kind' records' info hstored
    rcases storedBy_concat.1 hstored with hevent | ⟨-, hstored⟩
    · simp only [Event.mk.injEq, Operation.add.injEq, Reply.added.injEq] at hevent
      obtain ⟨⟨rfl, rfl, rfl⟩, rfl⟩ := hevent
      rfl
    · exact hh.info_eq id' kind' records' info hstored
  · intro id' d hget
    simp only [Store.insert, NameMap.get?_insert] at hget
    split at hget
    · cases hget
      exact hsize
    · exact hh.size id' d hget
  · intro id' d hget
    simp only [Store.insert, NameMap.get?_insert] at hget
    split at hget
    · rename_i heq
      rwa [heq]
    · exact hh.id_valid id' d hget

theorem Stores.of_removed {limits : Limits} {h : History} (hh : h.Stores limits) (id : String) :
    Stores limits
      ⟨h.events ++ [⟨.remove id, .removed⟩], { h.service with store := h.service.store.erase id }⟩ := by
  have hother : ∀ {id'}, id' ≠ id → ¬Event.Changes id' ⟨.remove id, .removed⟩ := by
    rintro id' hne ⟨⟩
    exact hne rfl
  have hkept : ∀ {id' d}, (h.service.store.erase id).datasets.get? id' = some d →
      h.service.store.datasets.get? id' = some d := by
    intro id' d hget
    simp only [Store.erase, NameMap.get?_erase] at hget
    split at hget
    · cases hget
    · exact hget
  refine ⟨hh.limits_eq, ?_, ?_, fun id' d hget => hh.size id' d (hkept hget), fun id' d hget => hh.id_valid id' d (hkept hget)⟩
  · intro id' d
    simp only [Store.erase, NameMap.get?_erase]
    by_cases heq : id' = id
    · subst heq
      simp only [if_true, reduceCtorEq, false_iff]
      rintro ⟨_, hstored, -⟩
      rcases storedBy_concat.1 hstored with hevent | ⟨hkeeps, -⟩
      · cases hevent
      · exact hkeeps .removed
    · simp only [if_neg heq, storedBy_concat_of_not_changes (hother heq)]
      exact hh.get?_eq_some_iff id' d
  · intro id' kind' records' info hstored
    rcases storedBy_concat.1 hstored with hevent | ⟨-, hstored⟩
    · cases hevent
    · exact hh.info_eq id' kind' records' info hstored

/-- One more operation keeps what is stored and the events in agreement. -/
theorem Stores.extend {limits : Limits} {h : History} (hh : h.Stores limits) (op : Operation) :
    (h.extend op).Stores limits := by
  unfold History.extend
  cases op with
  | add id kind records =>
    obtain ⟨hreply, ⟨cause, heq⟩ | heq⟩ := h.service.perform_add id kind records
    · rw [heq]
      exact hh.of_not_changes fun _ hchanges => nomatch hchanges
    · rw [heq] at hreply ⊢
      rw [hh.limits_eq] at hreply
      cases hreply with
      | added hid hfew hsome hfree => exact hh.of_added hid hfew hsome
  | remove id =>
    obtain ⟨-, ⟨cause, heq⟩ | heq⟩ := h.service.perform_remove id
    · rw [heq]
      exact hh.of_not_changes fun _ hchanges => nomatch hchanges
    · rw [heq]
      exact hh.of_removed id
  | list => exact hh.of_not_changes fun _ hchanges => nomatch hchanges
  | query sentence =>
    obtain ⟨hservice, hchanges⟩ := h.service.perform_query sentence
    rw [hservice]
    exact hh.of_not_changes hchanges

theorem stores_ofOperations (limits : Limits) (ops : List Operation) : (ofOperations limits ops).Stores limits := by
  have hfold : ∀ h : History, h.Stores limits → (ops.foldl History.extend h).Stores limits := by
    induction ops with
    | nil => exact fun _ hh => hh
    | cons op ops ih => exact fun h hh => ih (h.extend op) (hh.extend op)
  exact hfold (start limits) (stores_start limits)

/-! ## What comes of operations -/

theorem Stores.contains_iff {limits : Limits} {h : History} (hh : h.Stores limits) {id : String} :
    h.service.store.contains id = true ↔ Taken h.events id := by
  unfold Store.contains NameMap.contains
  rw [Option.isSome_iff_exists]
  constructor
  · rintro ⟨d, hget⟩
    obtain ⟨records, hstored, -⟩ := (hh.get?_eq_some_iff id d).1 hget
    exact ⟨d.kind, records, _, hstored⟩
  · rintro ⟨kind, records, info, hstored⟩
    obtain rfl := hh.info_eq id kind records info hstored
    exact ⟨⟨kind, records.filter kind.conforms⟩, (hh.get?_eq_some_iff id _).2 ⟨records, hstored, rfl⟩⟩

theorem Stores.mem_list_iff {limits : Limits} {h : History} (hh : h.Stores limits) {info : DatasetInfo} :
    info ∈ h.service.list ↔ ∃ records, StoredBy h.events info.id info.kind records info := by
  rw [Service.mem_list_iff]
  constructor
  · rintro ⟨d, hget, heq⟩
    obtain ⟨records, hstored, -⟩ := (hh.get?_eq_some_iff info.id d).1 hget
    rw [heq]
    exact ⟨records, hstored⟩
  · rintro ⟨records, hstored⟩
    have hinfo := hh.info_eq _ _ _ _ hstored
    refine ⟨⟨info.kind, records.filter info.kind.conforms⟩, ?_, hinfo⟩
    exact (hh.get?_eq_some_iff _ _).2 ⟨records, hinfo ▸ hstored, rfl⟩

/-- What the service stores, lists and answers agrees with the events so far. -/
structure Agrees (limits : Limits) (h : History) : Prop where
  /-- what is stored under an id are the records that conform, in their order, of the add that the events leave standing -/
  stored : ∀ id d, h.service.store.datasets.get? id = some d ↔
    ∃ records, StoredBy h.events id d.kind records ⟨id, d.kind, d.records.length⟩ ∧
      d.records = records.filter d.kind.conforms
  size : ∀ id d, h.service.store.datasets.get? id = some d →
    1 ≤ d.records.length ∧ d.records.length ≤ limits.maxDatasetRecords
  id_valid : ∀ id d, h.service.store.datasets.get? id = some d → IsDatasetId id
  list_increasing : (h.service.list.map DatasetInfo.id).Pairwise (· < ·)
  /-- listed is what the adds that stand reported -/
  list_mem : ∀ info, info ∈ h.service.list ↔ ∃ records, StoredBy h.events info.id info.kind records info
  info_eq : ∀ id kind records info, StoredBy h.events id kind records info →
    info = ⟨id, kind, (records.filter kind.conforms).length⟩
  add_reply : ∀ id kind records,
    AddReply limits (Taken h.events id) id kind records (h.service.perform (.add id kind records)).1
  remove_reply : ∀ id, RemoveReply (Taken h.events id) id (h.service.perform (.remove id)).1
  list_reply : (h.service.perform .list).1 = .listed h.service.list
  /-- a listing, a sentence and whatever is refused change nothing -/
  unchanged : ∀ op, (op = .list ∨ (∃ sentence, op = .query sentence) ∨ ∃ cause, (h.service.perform op).1 = .refused cause) →
    (h.service.perform op).2 = h.service

theorem perform_unchanged (s : Service) {op : Operation}
    (hop : op = .list ∨ (∃ sentence, op = .query sentence) ∨ ∃ cause, (s.perform op).1 = .refused cause) :
    (s.perform op).2 = s := by
  cases op with
  | list => rfl
  | query sentence => exact (s.perform_query sentence).1
  | add id kind records =>
    obtain ⟨cause, hcause⟩ : ∃ cause, (s.perform (.add id kind records)).1 = .refused cause := by simpa using hop
    obtain ⟨-, ⟨_, heq⟩ | heq⟩ := s.perform_add id kind records
    · rw [heq]
    · rw [heq] at hcause
      cases hcause
  | remove id =>
    obtain ⟨cause, hcause⟩ : ∃ cause, (s.perform (.remove id)).1 = .refused cause := by simpa using hop
    obtain ⟨-, ⟨_, heq⟩ | heq⟩ := s.perform_remove id
    · rw [heq]
    · rw [heq] at hcause
      cases hcause

/-- After whatever operations, a service that began without datasets agrees with the events. -/
theorem agrees_ofOperations (limits : Limits) (ops : List Operation) : (ofOperations limits ops).Agrees limits := by
  have hh := stores_ofOperations limits ops
  generalize ofOperations limits ops = h at hh ⊢
  exact {
    stored := hh.get?_eq_some_iff
    size := hh.size
    id_valid := hh.id_valid
    list_increasing := by
      unfold Service.list Store.list
      rw [List.map_map]
      exact h.service.store.datasets.sorted
    list_mem := fun _ => hh.mem_list_iff
    info_eq := hh.info_eq
    add_reply := by
      intro id kind records
      obtain ⟨hreply, -⟩ := h.service.perform_add id kind records
      rwa [hh.limits_eq, propext hh.contains_iff] at hreply
    remove_reply := by
      intro id
      obtain ⟨hreply, -⟩ := h.service.perform_remove id
      rwa [propext hh.contains_iff] at hreply
    list_reply := rfl
    unchanged := fun _ => perform_unchanged h.service }

end History

end SentenceQuery
