import SentenceQuery.Proofs.Grammar.Criterion
import SentenceQuery.Proofs.Sentence.Cutting
import SentenceQuery.Proofs.Text.Slices

/-!
# A body cut by byte ranges

A body can be cut without taking it to pieces: one pass over its characters finds the byte ranges of its words
(`wordRanges`), a second one puts the ranges of the words between connectives together, and a text is a slice of the body.
Every such range stands for a text, and the texts are those that the body is cut into (`cutByRanges?_eq`). So it is with the
range between the quotes of a literal (`slice?_quoted`).
-/

namespace SentenceQuery

/-! ## Cutting by ranges -/

/-- The byte ranges of the words of a text that stands at a place, by one pass over its characters. A word that is being read
has its start noted. -/
def wordRanges : (start : Option Nat) → (quoted : Bool) → (place : Nat) → List Char → List (Nat × Nat)
  | start, _, place, [] => start.toList.map fun b => (b, place)
  | start, quoted, place, c :: rest =>
    if isBlank c && !quoted then
      (start.toList.map fun b => (b, place)) ++ wordRanges none quoted (place + c.utf8Size) rest
    else wordRanges (some (start.getD place)) (if c = '"' then !quoted else quoted) (place + c.utf8Size) rest

/-- The text of the segment that is being put together, if there is one. -/
def closedSegment? (s : List Char) (segment : Option (Nat × Nat)) : Option (List (List Char)) :=
  segment.toList.mapM fun range => slice? s range.1 range.2

/-- The segment with one more word. -/
def extendSegment (segment : Option (Nat × Nat)) (word : Nat × Nat) : Nat × Nat :=
  match segment with
  | some range => (range.1, word.2)
  | none => word

/-- The texts and connectives of a body whose words have these ranges, behind a segment that is being put together. There is
no answer where a range stands for no text of the body. -/
def cutRanges? (s : List Char) : (segment : Option (Nat × Nat)) → List (Nat × Nat) →
    Option (List (List Char) × List Connective)
  | segment, [] => do
    let closed ← closedSegment? s segment
    some (closed, [])
  | segment, range :: ranges => do
    let word ← slice? s range.1 range.2
    match Connective.ofWord? (String.ofList word) with
    | some connective => do
      let closed ← closedSegment? s segment
      let (texts, connectives) ← cutRanges? s none ranges
      some (closed ++ texts, connective :: connectives)
    | none => cutRanges? s (some (extendSegment segment range)) ranges

/-- Cuts the body of a filter by byte ranges. There is no answer where a range stands for no text of the body. -/
def cutByRanges? (s : List Char) : Option (Except QueryError (List (List Char) × List Connective)) := do
  let (texts, connectives) ← cutRanges? s none (wordRanges none false 0 s)
  some (if connectives.length + 1 = texts.length then .ok (texts, connectives)
    else .error (.missingOperand texts.length connectives.length))

/-! ## The ranges of words -/

/-- The byte ranges of words that stand one behind the other from a place on. -/
def rangesFrom : Nat → List SpacedWord → List (Nat × Nat)
  | _, [] => []
  | d, w :: ws =>
    (d + byteSize w.gap, d + byteSize w.gap + byteSize w.text) :: rangesFrom (d + byteSize w.gap + byteSize w.text) ws

theorem wordRanges_blank_append {u : List Char} (hu : Over isBlank u) (place : Nat) (s : List Char) :
    wordRanges none false place (u ++ s) = wordRanges none false (place + byteSize u) s := by
  induction u generalizing place with
  | nil => rfl
  | cons c u ih =>
    obtain ⟨hc, hu⟩ := over_cons.1 hu
    rw [List.cons_append, wordRanges, byteSize_cons, ← Nat.add_assoc, ← ih hu]
    simp [hc]

/-- The range of a word that is being read goes up to where the word ends. -/
theorem wordRanges_some (start : Nat) (quoted : Bool) (place : Nat) (s : List Char) :
    wordRanges (some start) quoted place s = (start, place + byteSize (readWord quoted s).1) ::
      wordRanges none false (place + byteSize (readWord quoted s).1) (readWord quoted s).2 := by
  induction s generalizing quoted place with
  | nil => rfl
  | cons c s ih =>
    rw [wordRanges, readWord]
    split
    · rename_i h
      obtain ⟨hblank, hquoted⟩ := Bool.and_eq_true_iff.1 h
      obtain rfl : quoted = false := by simpa using hquoted
      simp only [byteSize_nil, Nat.add_zero]
      rw [wordRanges, if_pos h]
      rfl
    · simp only [Option.getD_some, ih, byteSize_cons, Nat.add_assoc]

/-- The ranges that are found are those of the words. -/
theorem wordRanges_eq (place : Nat) (s : List Char) : wordRanges none false place s = rangesFrom place (spacedWords s) := by
  fun_induction spacedWords s generalizing place with
  | case1 s h =>
    have hsplit : s.takeWhile isBlank ++ s.dropWhile isBlank = s := List.takeWhile_append_dropWhile
    rw [← hsplit, wordRanges_blank_append (over_takeWhile s), h]
    rfl
  | case2 s c rest h split ih =>
    have hsplit : s.takeWhile isBlank ++ s.dropWhile isBlank = s := List.takeWhile_append_dropWhile
    have hblank : isBlank c = false := by
      have hstops : Stops isBlank (s.dropWhile isBlank) := stops_dropWhile s
      rw [h] at hstops
      exact stops_cons.1 hstops
    have hword : split = (c :: (readWord (if c = '"' then !false else false) rest).1,
        (readWord (if c = '"' then !false else false) rest).2) := by
      simp [split, readWord, hblank]
    have hread : ∀ place, wordRanges none false place (c :: rest) =
        (place, place + byteSize split.1) :: wordRanges none false (place + byteSize split.1) split.2 := by
      intro place
      rw [wordRanges, if_neg (by simp [hblank]), Option.getD_none, wordRanges_some, hword]
      simp only [byteSize_cons, Nat.add_assoc]
    calc wordRanges none false place s = wordRanges none false (place + byteSize (s.takeWhile isBlank)) (c :: rest) := by
          rw [← h, ← wordRanges_blank_append (over_takeWhile s), hsplit]
      _ = _ := by rw [hread, ih, rangesFrom]

/-! ## The texts at the ranges -/

/-- The byte range of a run that stands behind so many bytes, if it has words. -/
def runRange? (d : Nat) : List SpacedWord → Option (Nat × Nat)
  | [] => none
  | w :: ws => some (d + byteSize w.gap, d + byteSize (wordsText (w :: ws)))

theorem runRange?_concat (d : Nat) (run : List SpacedWord) (w : SpacedWord) :
    runRange? d (run ++ [w]) = some (extendSegment (runRange? d run)
      (d + byteSize (wordsText run) + byteSize w.gap, d + byteSize (wordsText run) + byteSize w.gap + byteSize w.text)) := by
  cases run with
  | nil => simp [runRange?, extendSegment, Nat.add_assoc]
  | cons v run => simp [runRange?, extendSegment, Nat.add_assoc]

theorem runTexts_of_forall {run : List SpacedWord} (h : ∀ w ∈ run, w.connective? = none) :
    runTexts run = if run = [] then [] else [runText run] := by
  rw [runTexts, splitRuns_of_forall h]
  cases run <;> simp

/-- A connective stands between the texts before it and those behind it. -/
theorem runTexts_append_connective {run ws : List SpacedWord} (h : ∀ w ∈ run, w.connective? = none) {w : SpacedWord}
    (hw : w.connective?.isSome = true) : runTexts (run ++ w :: ws) = runTexts run ++ runTexts ws := by
  rw [runTexts, splitRuns_append_connective h hw, ← List.singleton_append, List.filter_append, List.map_append, runTexts,
    splitRuns_of_forall h, runTexts]

/-- The range of a run stands for its text. -/
theorem closedSegment?_runRange? {s x v : List Char} {run : List SpacedWord} (hs : s = x ++ (wordsText run ++ v))
    (h : ∀ w ∈ run, w.connective? = none) : closedSegment? s (runRange? (byteSize x) run) = some (runTexts run) := by
  rw [runTexts_of_forall h]
  cases run with
  | nil => rfl
  | cons w run =>
    have hslice : slice? s (byteSize x + byteSize w.gap) (byteSize x + byteSize (wordsText (w :: run))) =
        some (runText (w :: run)) := by
      refine slice?_eq_some.2 ⟨x ++ w.gap, v, ?_, ?_, ?_⟩
      · rw [hs, runText_cons]
        simp
      · rw [byteSize_append]
      · rw [runText_cons]
        simp [Nat.add_assoc]
    rw [if_neg (List.cons_ne_nil w run), closedSegment?, runRange?, Option.toList_some, List.mapM_cons, hslice]
    rfl

/-- Behind the words of a segment, the words are cut as the segment and they together are. -/
theorem cutRanges?_eq {s v : List Char} (ws : List SpacedWord) :
    ∀ (x : List Char) (run : List SpacedWord), s = x ++ (wordsText (run ++ ws) ++ v) →
      (∀ w ∈ run, w.connective? = none) →
      cutRanges? s (runRange? (byteSize x) run) (rangesFrom (byteSize x + byteSize (wordsText run)) ws) =
        some (runTexts (run ++ ws), ws.filterMap SpacedWord.connective?) := by
  induction ws with
  | nil =>
    intro x run hs hrun
    rw [List.append_nil] at hs ⊢
    rw [rangesFrom, cutRanges?, closedSegment?_runRange? hs hrun]
    rfl
  | cons w ws ih =>
    intro x run hs hrun
    have hword : slice? s (byteSize x + byteSize (wordsText run) + byteSize w.gap)
        (byteSize x + byteSize (wordsText run) + byteSize w.gap + byteSize w.text) = some w.text := by
      have hslice := slice?_append (x ++ (wordsText run ++ w.gap)) w.text (wordsText ws ++ v)
      rw [hs]
      simpa [Nat.add_assoc] using hslice
    rw [rangesFrom, cutRanges?, hword, Option.bind_eq_bind, Option.bind_some]
    cases hw : w.connective? with
    | some connective =>
      have hsome : w.connective?.isSome = true := by rw [hw]; rfl
      have hrest := ih (x ++ (wordsText run ++ (w.gap ++ w.text))) [] (by rw [hs]; simp) (by simp)
      simp only [runRange?, List.nil_append, wordsText_nil, byteSize_nil, Nat.add_zero, byteSize_append,
        ← Nat.add_assoc] at hrest
      have hclosed := closedSegment?_runRange? (x := x) (v := w.gap ++ (w.text ++ (wordsText ws ++ v))) (s := s)
        (by rw [hs]; simp) hrun
      change Connective.ofWord? (String.ofList w.text) = some connective at hw
      rw [hw, hclosed, hrest, runTexts_append_connective hrun hsome, List.filterMap_cons, SpacedWord.connective?, hw]
      rfl
    | none =>
      have hrun' : ∀ v ∈ run ++ [w], v.connective? = none :=
        List.forall_mem_append.2 ⟨hrun, List.forall_mem_singleton.2 hw⟩
      have hrest := ih x (run ++ [w]) (by rw [hs]; simp) hrun'
      rw [runRange?_concat, wordsText_append, byteSize_append, List.append_assoc, List.singleton_append] at hrest
      simp only [wordsText_cons, wordsText_nil, List.append_nil, byteSize_append, ← Nat.add_assoc] at hrest
      rw [List.filterMap_cons, hw]
      change Connective.ofWord? (String.ofList w.text) = none at hw
      rw [hw, hrest]

/-- Cut by byte ranges a body has the texts and connectives that it is cut into. In particular every range stands for a text
of the body. -/
theorem cutByRanges?_eq (s : List Char) : cutByRanges? s = some (splitCriteria s) := by
  obtain ⟨v, -, hs⟩ := exists_wordsText_spacedWords s
  have hcut := cutRanges?_eq (s := s) (v := v) (spacedWords s) [] [] (by simpa using hs) (by simp)
  simp only [runRange?, byteSize_nil, wordsText_nil, Nat.add_zero, List.nil_append] at hcut
  rw [cutByRanges?, wordRanges_eq, hcut]
  rfl

/-! ## The text of a literal -/

/-- A text in quotes is the slice between its first byte and its last. -/
theorem slice?_quoted (v : List Char) :
    slice? ('"' :: (v ++ ['"'])) 1 (byteSize ('"' :: (v ++ ['"'])) - 1) = some (('"' :: (v ++ ['"'])).drop 1).dropLast := by
  have hquote : Char.utf8Size '"' = 1 := rfl
  rw [List.drop_one, List.tail_cons, List.dropLast_concat]
  refine slice?_eq_some.2 ⟨['"'], ['"'], rfl, rfl, ?_⟩
  simp only [byteSize_cons, byteSize_append, byteSize_nil, hquote]
  omega

/-- Where the text of a criterion has a quoted literal, the value of the literal is a slice of it. -/
theorem slice?_of_criterion {s : List Char} {o : Outcome Rule} {n column operator literal form : Node Rule}
    {ns inner forms : List (Node Rule)} (h : Rule.criterion.match? s = some o) (hnode : o.nodes = n :: ns)
    (hinner : n.inner = column :: operator :: literal :: inner) (hform : literal.inner = form :: forms)
    (hrule : form.rule = .string) : slice? form.text 1 (byteSize form.text - 1) = some (form.text.drop 1).dropLast := by
  obtain ⟨_, _, _, l, m, -, hl, hm, columnNode, opNode, literalNode, more, hparts, -, -, start, hliteral⟩ :=
    Grammar.run_criterion_eq_some h
  rw [hm] at hnode
  obtain ⟨rfl, -⟩ := List.cons.inj hnode
  rw [hinner] at hparts
  obtain ⟨-, hparts⟩ := List.cons.inj hparts
  obtain ⟨-, hparts⟩ := List.cons.inj hparts
  obtain ⟨rfl, -⟩ := List.cons.inj hparts
  rw [hform] at hliteral
  obtain ⟨rfl, -⟩ := List.cons.inj hliteral
  simp only at hrule
  subst hrule
  rcases hl with hl | habsurd
  · cases hl with
    | @string v _ => exact slice?_quoted v
  · cases habsurd

end SentenceQuery
