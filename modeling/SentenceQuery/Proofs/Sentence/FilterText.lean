import SentenceQuery.Proofs.Schema
import SentenceQuery.Proofs.Sentence.ConditionText
import SentenceQuery.Proofs.Sentence.Filter

/-!
# Reading a filter as it is meant

The filter clause that says some conditions is accepted, and the criteria read from it are those of the conditions
(`accept?_filterPart`).
-/

namespace SentenceQuery

open Grammar Sentence

/-- The name of a column stands for its field. -/
theorem Kind.resolve?_display {kind : Kind} {column : Column} (h : column ∈ kind.columns) :
    kind.resolve? column.display = some column.field := by
  revert column
  cases kind <;> decide

theorem Kind.fieldOf_display {kind : Kind} {column : Column} (h : column ∈ kind.columns) :
    kind.fieldOf column.display = column.field := by
  rw [fieldOf, resolve?_display h, Option.getD_some]

/-! ## One condition -/

theorem says_of_conditionText {kind : Kind} {c : Condition} (hc : c.WellFormed kind) {t : List Char}
    (h : ConditionText c t) (glue : Option Connective) : Says kind t glue (c.criterion kind glue) := by
  obtain ⟨column, hmem, hdisplay, htype⟩ := hc.column
  have hname := fieldText_display hmem
  have hresolve := Kind.resolve?_display hmem
  have hfield : kind.fieldOf c.column = column.field := by rw [← hdisplay, Kind.fieldOf_display hmem]
  rw [hdisplay] at hname hresolve
  refine ⟨c.column.toList, c.literal.written, ⟨hname, h⟩, ?_, Literal.literalText hc.literal, hc.type, ?_, rfl⟩
  · rw [String.ofList_toList, hresolve]
    exact congrArg some hfield.symm
  · have hcolumn := Kind.fieldType?_of_mem hmem
    rw [← hfield, htype] at hcolumn
    exact hcolumn

theorem parseCriterion_of_conditionText {kind : Kind} {c : Condition} (hc : c.WellFormed kind) {t : List Char}
    (h : ConditionText c t) (glue : Option Connective) : parseCriterion t kind glue = .ok (c.criterion kind glue) := by
  rw [parseCriterion_eq_ok, (isRunText_of_conditionText hc h).trimmed.trim_eq]
  exact says_of_conditionText hc h glue

/-! ## The conditions of a filter -/

theorem readCriteria_cons (kind : Kind) (t : List Char) (texts : List (List Char)) (connectives : List Connective) :
    readCriteria kind (t :: texts) connectives = (do
      let c ← parseCriterion t kind connectives.head?
      let cs ← readCriteria kind texts connectives.tail
      .ok (c :: cs)) := by
  unfold readCriteria
  rw [List.zipIdx_cons, List.mapM_cons, List.zipIdx_succ, List.mapM_map]
  have htail : ∀ i, connectives.tail[i]? = connectives[i + 1]? := by
    intro i
    rw [List.getElem?_tail]
  simp only [Function.comp_def, htail, List.head?_eq_getElem?]
  rfl

/-- The texts of conditions are read one by one, each with the connective behind it. -/
theorem readCriteria_of_conditions {kind : Kind} {c : Condition} {more : List (Connective × Condition)}
    (hmore : ∀ d ∈ c :: more.map Prod.snd, d.WellFormed kind) {texts : List (List Char)}
    (h : List.Forall₂ ConditionText (c :: more.map Prod.snd) texts) :
    readCriteria kind texts (more.map Prod.fst) = .ok (Conditions.criteriaFrom kind c more) := by
  induction more generalizing c texts with
  | nil =>
    cases h with
    | cons ht hrest =>
      cases hrest
      rw [readCriteria_cons, parseCriterion_of_conditionText (hmore c List.mem_cons_self) ht]
      rfl
  | cons next more ih =>
    cases h with
    | cons ht hrest =>
      have hread := ih (fun d hd => hmore d (List.mem_cons_of_mem _ hd)) hrest
      rw [readCriteria_cons, parseCriterion_of_conditionText (hmore c List.mem_cons_self) ht, List.map_cons, List.tail_cons,
        hread]
      rfl

/-! ## The clause -/

theorem skipBlanks_append {u s : List Char} (hu : Over isBlank u) (hs : Stops isBlank s) (o : Nat) :
    (⟨o, u ++ s⟩ : Cursor).skipBlanks = ⟨o + byteSize u, s⟩ := by
  have htake := takeWhile_append_of_stops hu hs
  have hdrop := dropWhile_append_of_stops hu hs
  simp only [Cursor.skipBlanks, htake, hdrop]

/-- A condition that is well-formed, as it is written. -/
def IsConditionText (kind : Kind) (c : Condition) (t : List Char) : Prop := c.WellFormed kind ∧ ConditionText c t

theorem isRunText_and_balanced {kind : Kind} (c : Condition) (t : List Char) (h : IsConditionText kind c t) :
    IsRunText t ∧ Balanced t :=
  ⟨isRunText_of_conditionText h.1 h.2, balanced_of_conditionText h.1 h.2⟩

theorem WhoseText.append {h g : List Char} (hh : WhoseText h) (hg : Over isGap g) : WhoseText (h ++ g) := by
  obtain ⟨g₁, t, g₂, hg₁, ht, hne, hg₂, rfl⟩ := hh
  exact ⟨g₁, t, g₂ ++ g, hg₁, ht, by simp [hne], over_append.2 ⟨hg₂, hg⟩, by simp⟩

/-- A filter clause with a body is accepted, and its criteria are read from the texts that the body is cut into. -/
theorem accept?_whose {α : Type} {member : α → List Char → Prop}
    (hmember : ∀ a t, member a t → IsRunText t ∧ Balanced t) {h v b u u' : List Char} {a : α}
    {rest : List (Connective × α)} (hu : Over isBlank u) (hh : WhoseText h) (hv : Over isBlank v)
    (hb : JoinedText member a rest b) (hu' : Over isBlank u') (kind : Kind) (o : Nat) (r : List Char) :
    ∃ clause o' texts,
      (⟨o, u ++ (h ++ (v ++ (b ++ (u' ++ ';' :: r))))⟩ : Cursor).accept? .filterClause = some (clause, ⟨o', r⟩) ∧
      List.Forall₂ member (a :: rest.map Prod.snd) texts ∧
      readFilter kind clause = readCriteria kind texts (rest.map Prod.fst) := by
  obtain ⟨htrimmed, texts, hcut, htexts⟩ := splitCriteria_joined (fun a t ht => (hmember a t ht).1) hb
  -- the blanks that the grammar skips are not part of the body
  have hsplit : v.takeWhile isGap ++ v.dropWhile isGap = v := List.takeWhile_append_dropWhile
  have hover : Over isBlank (v.dropWhile isGap) := fun c hc => hv c (List.dropWhile_subset _ hc)
  have hbalanced : Balanced (v.dropWhile isGap ++ (b ++ u')) := by
    refine (balanced_of_over_isBlank hover).append (Closed.append ?_ (balanced_of_over_isBlank hu'))
    exact balanced_of_joinedText (fun a t ht => (hmember a t ht).2) hb
  have hbody : Stops isGap (b ++ u') :=
    (stops_append htrimmed.ne_nil).2 fun c hc => not_isGap_of_not_isBlank (htrimmed.start c hc)
  have hstops : Stops isGap (v.dropWhile isGap ++ (b ++ u')) := stops_dropWhile_append v hbody
  have hwhose := WhoseText.append hh (over_takeWhile v)
  obtain ⟨n, hrun, hn⟩ := run_filterClause_whose hwhose hbalanced (by simp [htrimmed.ne_nil]) hstops r (o + byteSize u)
  have htext : h ++ (v ++ (b ++ (u' ++ ';' :: r))) = h ++ v.takeWhile isGap ++ (v.dropWhile isGap ++ (b ++ u') ++ ';' :: r) := by
    nth_rewrite 1 [← hsplit]
    simp only [List.append_assoc]
  have hskip : (⟨o, u ++ (h ++ (v ++ (b ++ (u' ++ ';' :: r))))⟩ : Cursor).skipBlanks =
      ⟨o + byteSize u, h ++ v.takeWhile isGap ++ (v.dropWhile isGap ++ (b ++ u') ++ ';' :: r)⟩ := by
    rw [htext]
    obtain ⟨g, w, g', -, -, -, -, rfl⟩ := hh
    exact skipBlanks_append hu (stops_cons.2 (by decide)) o
  refine ⟨n, _, texts, accept?_of_run hskip hrun, htexts, ?_⟩
  rw [readFilter_of_isWhoseNode hn, htrimmed.trim_append hover hu', hcut, ok_bind]

/-- The filter clause is accepted, and says its conditions. -/
theorem accept?_filterPart {kind : Kind} {filter : Option Conditions}
    (hfilter : ∀ f ∈ filter, ∀ c ∈ f.all, c.WellFormed kind) {t : List Char} (h : FilterPart filter t)
    {u : List Char} (hu : Over isBlank u) (o : Nat) (r : List Char) :
    ∃ clause o', (⟨o, u ++ (t ++ r)⟩ : Cursor).accept? .filterClause = some (clause, ⟨o', r⟩) ∧
      readFilter kind clause = .ok (Conditions.criteria kind filter) := by
  cases h with
  | @all h hh =>
    obtain ⟨n, hrun, hn⟩ := run_filterClause_all hh r (o + byteSize u)
    have hskip : (⟨o, u ++ (h ++ [';'] ++ r)⟩ : Cursor).skipBlanks = ⟨o + byteSize u, h ++ ';' :: r⟩ := by
      have htext : h ++ [';'] ++ r = h ++ ';' :: r := by simp
      rw [htext]
      obtain ⟨g, w, g', -, -, -, rfl⟩ := hh
      exact skipBlanks_append hu (stops_cons.2 (by decide)) o
    exact ⟨n, _, accept?_of_run hskip hrun, readFilter_of_isAllNode hn kind⟩
  | @whose f h v b u' hh hv hb hu' =>
    have hb' : JoinedText (IsConditionText kind) f.first f.more b := hb.imp fun c hc t ht => ⟨hfilter f rfl c hc, ht⟩
    obtain ⟨clause, o', texts, haccept, htexts, hread⟩ := accept?_whose isRunText_and_balanced hu hh hv hb' hu' kind o r
    have htext : h ++ (v ++ (b ++ (u' ++ [';']))) ++ r = h ++ (v ++ (b ++ (u' ++ ';' :: r))) := by simp
    rw [htext]
    refine ⟨clause, o', haccept, hread.trans (readCriteria_of_conditions ?_ (htexts.imp fun _ _ h => h.2))⟩
    exact fun c hc => hfilter f rfl c hc

end SentenceQuery
