import SentenceQuery.Proofs.Sentence.Criterion
import SentenceQuery.Proofs.Sentence.Reading
import SentenceQuery.Proofs.Sentence.Splitting

/-!
# What a filter says

The criteria of a filter's body: the body without blanks at its ends is cut at its connectives, and each piece says a
criterion (`readFilter_eq_ok`). What stands in quotes in a body is the literal of one criterion, and exchanging it changes
nothing else (`readFilter_exchange`).
-/

namespace SentenceQuery

open Grammar Sentence

/-- A filter without a body selects every record. -/
theorem readFilter_of_isAllNode {n : Node Rule} (h : IsAllNode n) (kind : Kind) : readFilter kind n = .ok [] := by
  obtain ⟨body, hinner, hrule⟩ := h
  simp [readFilter, Node.single, hinner, hrule, bind, Except.bind]

/-- The criteria of texts with connectives between them: each text says a criterion, which is joined to the next one by the
connective behind it. -/
def readCriteria (kind : Kind) (texts : List (List Char)) (connectives : List Connective) :
    Except QueryError (List Criterion) :=
  texts.zipIdx.mapM fun q => parseCriterion q.1 kind connectives[q.2]?

/-- A body is cut into criteria, and each is read. -/
theorem readFilter_of_isWhoseNode {b : List Char} {n : Node Rule} (h : IsWhoseNode b n) (kind : Kind) :
    readFilter kind n = splitCriteria (trim b) >>= fun cut => readCriteria kind cut.1 cut.2 := by
  obtain ⟨body, t, hinner, hrule, hbody, rfl⟩ := h
  have hne : ¬body.rule = .findAll := by
    rw [hrule]
    decide
  simp only [readFilter, Node.single, hinner, hbody, ok_bind, if_neg hne]
  rfl

theorem readFilter_eq_ok {b : List Char} {n : Node Rule} (h : IsWhoseNode b n) {kind : Kind} {criteria : List Criterion} :
    readFilter kind n = .ok criteria ↔ ∃ texts connectives, splitCriteria (trim b) = .ok (texts, connectives) ∧
      readCriteria kind texts connectives = .ok criteria := by
  rw [readFilter_of_isWhoseNode h, bind_eq_ok, Prod.exists]

/-! ## Blanks at the ends -/

/-- A text is what is left of it without the blanks at its ends, and blanks. -/
theorem exists_trim (s : List Char) : ∃ u u', Over isBlank u ∧ Over isBlank u' ∧ s = u ++ (trim s ++ u') := by
  have hsplit : s.takeWhile isBlank ++ trimStart s = s := List.takeWhile_append_dropWhile
  have hsplit' : (trimStart s).reverse.takeWhile isBlank ++ (trimStart s).reverse.dropWhile isBlank =
      (trimStart s).reverse := List.takeWhile_append_dropWhile
  have hend : trimStart s = trim s ++ ((trimStart s).reverse.takeWhile isBlank).reverse := by
    have hreverse := congrArg List.reverse hsplit'
    rw [List.reverse_append, List.reverse_reverse] at hreverse
    exact hreverse.symm
  have hover : Over isBlank ((trimStart s).reverse.takeWhile isBlank) := over_takeWhile _
  exact ⟨s.takeWhile isBlank, _, over_takeWhile s, fun c hc => hover c (List.mem_reverse.1 hc), by rw [← hend, hsplit]⟩

theorem evenQuotes_trim_iff (s : List Char) : EvenQuotes (trim s) ↔ EvenQuotes s := by
  obtain ⟨u, u', hu, hu', hs⟩ := exists_trim s
  have hodd := (unquoted_of_over_isBlank hu').evenQuotes
  rw [iff_comm, hs, evenQuotes_append (unquoted_of_over_isBlank hu).evenQuotes, ← hs]
  simp only [EvenQuotes, List.count_append] at hodd ⊢
  omega

/-- A text around quotes without the blanks at its ends, whatever stands in the quotes. -/
theorem exists_trim_quoted (a b : List Char) : ∃ a' b', (EvenQuotes a → EvenQuotes a') ∧
    ∀ v, trim (a ++ '"' :: (v ++ '"' :: b)) = a' ++ '"' :: (v ++ '"' :: b') := by
  have ha : a.takeWhile isBlank ++ a.dropWhile isBlank = a := List.takeWhile_append_dropWhile
  have hb : b.reverse.takeWhile isBlank ++ b.reverse.dropWhile isBlank = b.reverse := List.takeWhile_append_dropWhile
  have hover : Over isBlank (a.takeWhile isBlank) := over_takeWhile a
  have hover' : Over isBlank (b.reverse.takeWhile isBlank).reverse := by
    have h : Over isBlank (b.reverse.takeWhile isBlank) := over_takeWhile b.reverse
    exact fun c hc => h c (List.mem_reverse.1 hc)
  have hb' : b = (b.reverse.dropWhile isBlank).reverse ++ (b.reverse.takeWhile isBlank).reverse := by
    rw [← List.reverse_append, hb, List.reverse_reverse]
  refine ⟨a.dropWhile isBlank, (b.reverse.dropWhile isBlank).reverse, fun h => ?_, fun v => ?_⟩
  · rw [← ha, evenQuotes_append (unquoted_of_over_isBlank hover).evenQuotes] at h
    exact h
  · have htrimmed : Trimmed (a.dropWhile isBlank ++ '"' :: (v ++ '"' :: (b.reverse.dropWhile isBlank).reverse)) := by
      refine ⟨by simp, stops_append_cons (stops_dropWhile a) (by decide) _, ?_⟩
      simp only [List.reverse_append, List.reverse_cons, List.reverse_reverse, List.append_assoc, List.cons_append,
        List.nil_append]
      exact stops_append_cons (stops_dropWhile b.reverse) (by decide) _
    have htrim := htrimmed.trim_append hover hover'
    rw [← htrim]
    congr 1
    calc a ++ '"' :: (v ++ '"' :: b) = (a.takeWhile isBlank ++ a.dropWhile isBlank) ++ '"' :: (v ++ '"' ::
          ((b.reverse.dropWhile isBlank).reverse ++ (b.reverse.takeWhile isBlank).reverse)) := by rw [ha, ← hb']
      _ = _ := by simp only [List.append_assoc, List.cons_append]

/-! ## Exchanging what stands in quotes -/

/-- The quotes of a body with criteria are even in number. -/
theorem evenQuotes_of_readCriteria {b : List Char} {kind : Kind} {texts : List (List Char)}
    {connectives : List Connective} {criteria : List Criterion}
    (hsplit : splitCriteria (trim b) = .ok (texts, connectives))
    (h : readCriteria kind texts connectives = .ok criteria) : EvenQuotes b := by
  rw [← evenQuotes_trim_iff]
  refine evenQuotes_of_splitCriteria hsplit fun t ht => ?_
  obtain ⟨i, hi, rfl⟩ := List.mem_iff_getElem.1 ht
  have hmem : (texts[i], i) ∈ texts.zipIdx := by
    rw [List.mem_zipIdx_iff_getElem?]
    exact List.getElem?_eq_getElem hi
  obtain ⟨c, -, hc⟩ := exists_of_mapM_eq_ok h hmem
  rw [← evenQuotes_trim_iff]
  exact (parseCriterion_eq_ok.1 hc).evenQuotes

/-- What stands in quotes in a body is the literal of one criterion; exchanging it changes nothing else. -/
theorem readFilter_exchange {a v w b : List Char} {n n' : Node Rule} (hn : IsWhoseNode (a ++ '"' :: (v ++ '"' :: b)) n)
    (hn' : IsWhoseNode (a ++ '"' :: (w ++ '"' :: b)) n') {kind : Kind} {criteria : List Criterion}
    (h : readFilter kind n = .ok criteria) (ha : EvenQuotes a) (hv : Unquoted v) (hw : Quotable w) :
    ∃ cs₁ c cs₂, criteria = cs₁ ++ c :: cs₂ ∧ c.value = .text (String.ofList v) ∧
      readFilter kind n' = .ok (cs₁ ++ { c with value := .text (String.ofList w) } :: cs₂) := by
  obtain ⟨texts, connectives, hsplit, hread⟩ := (readFilter_eq_ok hn).1 h
  have heven := (evenQuotes_trim_iff _).2 (evenQuotes_of_readCriteria hsplit hread)
  obtain ⟨a', b', ha', htrim⟩ := exists_trim_quoted a b
  rw [htrim] at hsplit heven
  obtain ⟨texts₁, x, y, texts₂, rfl, hx, ht, ht', hsplit'⟩ :=
    splitCriteria_exchange hsplit heven (ha' ha) hv hw.unquoted
  unfold readCriteria at hread
  rw [List.zipIdx_append, List.zipIdx_cons, mapM_append_cons_eq_ok] at hread
  obtain ⟨cs₁, c, cs₂, h₁, hc, h₂, rfl⟩ := hread
  rw [parseCriterion_eq_ok, ht.trim_eq] at hc
  obtain ⟨hvalue, hc'⟩ := hc.exchange hx hv hw
  refine ⟨cs₁, c, cs₂, rfl, hvalue, (readFilter_eq_ok hn').2 ⟨_, connectives, (htrim w).symm ▸ hsplit', ?_⟩⟩
  unfold readCriteria
  rw [List.zipIdx_append, List.zipIdx_cons, mapM_append_cons_eq_ok]
  refine ⟨cs₁, _, cs₂, h₁, ?_, h₂, rfl⟩
  rw [parseCriterion_eq_ok, ht'.trim_eq]
  exact hc'

end SentenceQuery
