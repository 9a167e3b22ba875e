import SentenceQuery.Proofs.Sentence.Alternation
import SentenceQuery.Proofs.Sentence.Places

/-!
# How a body is cut

Said of the words of a body by their places: criteria are the longest runs of words that are no connectives, a connective
stands between each two of them, and all else is blank (`IsCut`). A body is cut in this way where criteria and connectives
take turns, and refused with their numbers where they do not (`splitCriteria_exact`).
-/

namespace SentenceQuery

/-! ## What a cut is -/

/-- The word is exactly that of a connective. -/
def IsConnectiveWord (t : List Char) : Prop := t = "and".toList ∨ t = "or".toList

instance : DecidablePred IsConnectiveWord := fun t => inferInstanceAs (Decidable (t = _ ∨ t = _))

/-- There are words, a connective is neither the first nor the last, and none follows another. -/
structure TakesTurns (texts : List (List Char)) : Prop where
  ne_nil : texts ≠ []
  first : ∀ t ∈ texts.head?, ¬IsConnectiveWord t
  last : ∀ t ∈ texts.getLast?, ¬IsConnectiveWord t
  apart : texts.IsChain fun t t' => ¬(IsConnectiveWord t ∧ IsConnectiveWord t')

/-- No connective is at the place among words. -/
def PlainAt (texts : List (List Char)) (k : Nat) : Prop := ∀ t ∈ texts[k]?, ¬IsConnectiveWord t

instance (texts : List (List Char)) : DecidablePred (PlainAt texts) := fun k =>
  inferInstanceAs (Decidable (∀ t ∈ texts[k]?, ¬IsConnectiveWord t))

/-- The longest runs of words that are no connectives, as spans of the list of words. -/
def criterionRuns (s : List Char) : List Span := longestRuns (PlainAt (wordTexts s)) (wordTexts s).length

/-- The places of a run of words: from the start of its first word to the end of its last. -/
def runSpan (s : List Char) (run : Span) : Span := .hull (run.slice (wordSpans s))

/-- The text is cut into texts and connectives. -/
structure IsCut (s : List Char) (texts : List (List Char)) (connectives : List Connective) : Prop where
  /-- the texts are those of the runs, with all that stands between their words -/
  texts : texts = (criterionRuns s).map fun run => (runSpan s run).slice s
  length : connectives.length + 1 = (criterionRuns s).length
  /-- a connective is the one word between its run and the next -/
  between : ∀ i c, connectives[i]? = some c → ∃ left right, (criterionRuns s)[i]? = some left ∧
    (criterionRuns s)[i + 1]? = some right ∧ right.start = left.stop + 1 ∧
      (wordTexts s)[left.stop]? = some c.word.toList
  /-- what stands outside the runs is a blank, or belongs to a connective between two of them -/
  outside : ∀ i < s.length, (∀ run ∈ criterionRuns s, ¬(runSpan s run).Contains i) →
    (∃ c ∈ s[i]?, isBlank c = true) ∨ ∃ k word, (wordSpans s)[k]? = some word ∧ word.Contains i ∧
      IsConnectiveWord (word.slice s) ∧ (∃ left ∈ criterionRuns s, left.stop = k) ∧
        ∃ right ∈ criterionRuns s, right.start = k + 1

/-! ## Connectives -/

theorem connective?_eq_some {w : SpacedWord} {c : Connective} : w.connective? = some c ↔ w.text = c.word.toList := by
  constructor
  · intro h
    have hword := List.find?_some h
    rw [of_decide_eq_true hword, String.toList_ofList]
  · intro h
    rw [SpacedWord.connective?, h, String.ofList_toList]
    cases c <;> rfl

theorem isConnectiveWord_iff {w : SpacedWord} : IsConnectiveWord w.text ↔ w.joins = true := by
  unfold SpacedWord.joins
  rw [Option.isSome_iff_exists]
  constructor
  · rintro (h | h)
    · exact ⟨.and, connective?_eq_some.2 h⟩
    · exact ⟨.or, connective?_eq_some.2 h⟩
  · rintro ⟨c, h⟩
    cases c with
    | and => exact Or.inl (connective?_eq_some.1 h)
    | or => exact Or.inr (connective?_eq_some.1 h)

theorem not_isConnectiveWord_iff {w : SpacedWord} : ¬IsConnectiveWord w.text ↔ w.joins = false := by
  rw [isConnectiveWord_iff, Bool.not_eq_true]

theorem connective?_eq_none_of_joins {w : SpacedWord} (h : w.joins = false) : w.connective? = none := by
  simpa [SpacedWord.joins] using h

theorem takesTurns_iff {ws : List SpacedWord} : TakesTurns (ws.map SpacedWord.text) ↔ Alternates ws := by
  constructor
  · rintro ⟨hne, hfirst, hlast, hapart⟩
    refine ⟨by simpa using hne, fun w hw => ?_, fun w hw => ?_, ?_⟩
    · exact not_isConnectiveWord_iff.1 (hfirst _ (by simpa using ⟨w, hw, rfl⟩))
    · exact not_isConnectiveWord_iff.1 (hlast _ (by simpa using ⟨w, hw, rfl⟩))
    · simpa only [List.isChain_map, isConnectiveWord_iff] using hapart
  · rintro ⟨hne, hfirst, hlast, hapart⟩
    refine ⟨by simpa using hne, fun t ht => ?_, fun t ht => ?_, ?_⟩
    · rw [List.head?_map, Option.mem_map] at ht
      obtain ⟨w, hw, rfl⟩ := ht
      exact not_isConnectiveWord_iff.2 (hfirst w hw)
    · rw [List.getLast?_map, Option.mem_map] at ht
      obtain ⟨w, hw, rfl⟩ := ht
      exact not_isConnectiveWord_iff.2 (hlast w hw)
    · simpa only [List.isChain_map, isConnectiveWord_iff] using hapart

/-! ## Runs by their places -/

/-- Words are a run without connectives, or such a run, a connective and further words. -/
@[elab_as_elim]
theorem runs_induction {P : List SpacedWord → Prop} (plain : ∀ run, (∀ w ∈ run, w.joins = false) → P run)
    (more : ∀ run w ws, (∀ v ∈ run, v.joins = false) → w.joins = true → P ws → P (run ++ w :: ws))
    (ws : List SpacedWord) : P ws := by
  induction hn : ws.length using Nat.strong_induction_on generalizing ws with
  | _ n ih =>
    have hsplit : ws.takeWhile (fun w => !w.joins) ++ ws.dropWhile (fun w => !w.joins) = ws :=
      List.takeWhile_append_dropWhile
    have hrun : ∀ w ∈ ws.takeWhile (fun w => !w.joins), w.joins = false := by
      intro w hw
      simpa using List.all_eq_true.1 List.all_takeWhile w hw
    cases hdrop : ws.dropWhile fun w => !w.joins with
    | nil =>
      rw [hdrop, List.append_nil] at hsplit
      rw [← hsplit]
      exact plain _ hrun
    | cons w rest =>
      have hw := List.head?_dropWhile_not (fun w : SpacedWord => !w.joins) ws
      rw [hdrop] at hw hsplit
      rw [← hsplit]
      refine more _ w rest hrun (by simpa using hw) (ih rest.length ?_ rest rfl)
      rw [← hn, ← hsplit, List.length_append, List.length_cons]
      omega

/-- The places of the runs that have words, among words that are counted from a place on. -/
def runPlaces : Nat → List (List SpacedWord) → List Span
  | _, [] => []
  | d, [] :: runs => runPlaces (d + 1) runs
  | d, (w :: ws) :: runs => ⟨d, d + (w :: ws).length⟩ :: runPlaces (d + (w :: ws).length + 1) runs

theorem runPlaces_cons (d : Nat) (run : List SpacedWord) (runs : List (List SpacedWord)) :
    runPlaces d (run :: runs) = runPlaces d [run] ++ runPlaces (d + run.length + 1) runs := by
  cases run <;> rfl

theorem runPlaces_singleton (d : Nat) {run : List SpacedWord} (hne : run ≠ []) :
    runPlaces d [run] = [⟨d, d + run.length⟩] := by
  cases run with
  | nil => exact absurd rfl hne
  | cons w ws => rfl

theorem runPlaces_shift (d e : Nat) (runs : List (List SpacedWord)) :
    (runPlaces e runs).map (Span.shift d) = runPlaces (d + e) runs := by
  induction runs generalizing e with
  | nil => rfl
  | cons run runs ih =>
    rw [runPlaces_cons, runPlaces_cons (d + e), List.map_append, ih]
    cases run <;> simp [runPlaces, Nat.add_assoc]

/-- Words without a connective among them are one run, if there are any. -/
theorem longestRuns_of_plain {p : Nat → Prop} [DecidablePred p] (run : List SpacedWord) (h : ∀ k < run.length, p k) :
    longestRuns p run.length = runPlaces 0 [run] := by
  cases run with
  | nil => exact longestRuns_eq_nil fun k hk => absurd hk (Nat.not_lt_zero k)
  | cons w ws => rw [longestRuns_of_forall (by simp) h, runPlaces_singleton 0 (by simp), Nat.zero_add]

theorem plainAt_map {ws : List SpacedWord} {k : Nat} :
    PlainAt (ws.map SpacedWord.text) k ↔ ∀ w ∈ ws[k]?, w.joins = false := by
  rw [PlainAt, List.getElem?_map]
  cases ws[k]? with
  | none => simp
  | some w => simp [not_isConnectiveWord_iff]

/-- The longest runs of words that are no connectives are those between connectives that have words. -/
theorem longestRuns_plainAt (ws : List SpacedWord) :
    longestRuns (PlainAt (ws.map SpacedWord.text)) ws.length = runPlaces 0 (splitRuns ws) := by
  induction ws using runs_induction with
  | plain run hrun =>
    rw [splitRuns_of_forall fun w hw => connective?_eq_none_of_joins (hrun w hw)]
    exact longestRuns_of_plain run fun k _ => plainAt_map.2 fun w hw => hrun w (List.mem_of_getElem? hw)
  | more run w ws hrun hw ih =>
    have hnot : ¬PlainAt ((run ++ w :: ws).map SpacedWord.text) run.length := by
      intro h
      have hfalse := plainAt_map.1 h w (by simp)
      rw [hw] at hfalse
      cases hfalse
    have hleft : longestRuns (PlainAt ((run ++ w :: ws).map SpacedWord.text)) run.length = runPlaces 0 [run] := by
      refine longestRuns_of_plain run fun k hk => plainAt_map.2 fun v hv => hrun v ?_
      rw [List.getElem?_append_left hk] at hv
      exact List.mem_of_getElem? hv
    have hright : longestRuns (fun k => PlainAt ((run ++ w :: ws).map SpacedWord.text) (run.length + 1 + k)) ws.length =
        runPlaces 0 (splitRuns ws) := by
      rw [← ih]
      refine longestRuns_congr fun k _ => ?_
      rw [plainAt_map, plainAt_map, List.getElem?_append_right (by omega),
        show run.length + 1 + k - run.length = k + 1 by omega, List.getElem?_cons_succ]
    have hlength : (run ++ w :: ws).length = run.length + 1 + ws.length := by
      rw [List.length_append, List.length_cons]
      omega
    rw [splitRuns_append_connective (fun v hv => connective?_eq_none_of_joins (hrun v hv)) hw, runPlaces_cons, hlength,
      longestRuns_append (Or.inr (Or.inr (Or.inl hnot))), longestRuns_succ_of_not hnot, hleft, hright, runPlaces_shift,
      Nat.zero_add, Nat.add_zero]

theorem criterionRuns_eq (s : List Char) : criterionRuns s = runPlaces 0 (splitRuns (spacedWords s)) := by
  rw [← longestRuns_plainAt, criterionRuns, wordTexts_eq, List.length_map]

/-! ## The texts of runs -/

/-- What is so of each run by its places is so of all runs that have words. -/
theorem map_runPlaces {β : Type} {f : Span → β} {g : List SpacedWord → β} {all : List SpacedWord}
    (h : ∀ before run after, run ≠ [] → before ++ (run ++ after) = all →
      f ⟨before.length, before.length + run.length⟩ = g run) (ws before : List SpacedWord) (hall : before ++ ws = all) :
    (runPlaces before.length (splitRuns ws)).map f = ((splitRuns ws).filter fun run => !run.isEmpty).map g := by
  have hone : ∀ before run after, before ++ (run ++ after) = all →
      (runPlaces before.length [run]).map f = ([run].filter fun run => !run.isEmpty).map g := by
    intro before run after hrun
    cases run with
    | nil => rfl
    | cons w ws => simpa [runPlaces] using h before (w :: ws) after (by simp) hrun
  induction ws using runs_induction generalizing before with
  | plain run hrun =>
    rw [splitRuns_of_forall fun w hw => connective?_eq_none_of_joins (hrun w hw)]
    exact hone before run [] (by simpa using hall)
  | more run w ws hrun hw ih =>
    have hrest := ih (before ++ (run ++ [w])) (by simpa using hall)
    have hfilter := List.filter_append (p := fun run : List SpacedWord => !run.isEmpty) [run] (splitRuns ws)
    rw [List.singleton_append] at hfilter
    rw [splitRuns_append_connective (fun v hv => connective?_eq_none_of_joins (hrun v hv)) hw, runPlaces_cons, hfilter,
      List.map_append, List.map_append, hone before run (w :: ws) hall, ← hrest]
    simp [Nat.add_assoc]

theorem getLast_placesFrom (d : Nat) {ws : List SpacedWord} (hne : placesFrom d ws ≠ []) :
    ((placesFrom d ws).getLast hne).stop = d + (wordsText ws).length := by
  induction ws generalizing d with
  | nil => exact absurd rfl hne
  | cons w ws ih =>
    cases ws with
    | nil => simp [placesFrom, Nat.add_assoc]
    | cons v ws =>
      have hrest := ih (d + w.gap.length + w.text.length) (by simp [placesFrom])
      simp only [placesFrom, List.getLast_cons_cons] at hrest ⊢
      rw [hrest]
      simp [Nat.add_assoc]

/-- The words of a run reach from behind the blanks before the first to the end of the last. -/
theorem hull_placesFrom (d : Nat) (w : SpacedWord) (ws : List SpacedWord) :
    Span.hull (placesFrom d (w :: ws)) = ⟨d + w.gap.length, d + w.gap.length + (runText (w :: ws)).length⟩ := by
  have hne : placesFrom d (w :: ws) ≠ [] := by simp [placesFrom]
  have hlast := getLast_placesFrom d hne
  simp only [placesFrom] at hlast
  simp only [placesFrom, Span.hull, hlast, Span.mk.injEq, true_and]
  rw [wordsText_cons, runText_cons, List.length_append, Nat.add_assoc]

/-- The text at the places of a run is the text of the run. -/
theorem slice_runSpan {s : List Char} {before run after : List SpacedWord} (hne : run ≠ [])
    (h : before ++ (run ++ after) = spacedWords s) :
    (runSpan s ⟨before.length, before.length + run.length⟩).slice s = runText run := by
  obtain ⟨v, -, hs⟩ := exists_wordsText_spacedWords s
  have hwords : Span.slice ⟨before.length, before.length + run.length⟩ (wordSpans s) =
      placesFrom (wordsText before).length run := by
    rw [wordSpans_eq, ← h, placesFrom_append, placesFrom_append, Nat.zero_add]
    have hslice := Span.slice_append (placesFrom 0 before) (placesFrom (wordsText before).length run)
      (placesFrom ((wordsText before).length + (wordsText run).length) after)
    rwa [length_placesFrom, length_placesFrom] at hslice
  rw [runSpan, hwords]
  cases run with
  | nil => exact absurd rfl hne
  | cons w ws =>
    rw [hull_placesFrom]
    have hslice := Span.slice_append (wordsText before ++ w.gap) (runText (w :: ws)) (wordsText after ++ v)
    rw [hs, ← h]
    simpa [runText_cons] using hslice

theorem texts_criterionRuns (s : List Char) :
    (criterionRuns s).map (fun run => (runSpan s run).slice s) = runTexts (spacedWords s) := by
  rw [criterionRuns_eq]
  exact map_runPlaces (fun before run after hne h => slice_runSpan hne h) (spacedWords s) [] rfl

/-! ## Between runs -/

/-- Where no run is empty, a connective is the word between its run and the next. -/
theorem exists_between {all : List SpacedWord} (ws before : List SpacedWord) (hall : before ++ ws = all)
    (hruns : ∀ run ∈ splitRuns ws, run ≠ []) {i : Nat} {c : Connective}
    (hc : (ws.filterMap SpacedWord.connective?)[i]? = some c) :
    ∃ left right, (runPlaces before.length (splitRuns ws))[i]? = some left ∧
      (runPlaces before.length (splitRuns ws))[i + 1]? = some right ∧ right.start = left.stop + 1 ∧
        ∃ w ∈ all[left.stop]?, w.connective? = some c := by
  induction ws using runs_induction generalizing before i with
  | plain run hrun =>
    rw [List.filterMap_eq_nil_iff.2 fun w hw => connective?_eq_none_of_joins (hrun w hw)] at hc
    cases hc
  | more run w ws hrun hw ih =>
    have hplain : ∀ v ∈ run, v.connective? = none := fun v hv => connective?_eq_none_of_joins (hrun v hv)
    obtain ⟨d, hd⟩ := Option.isSome_iff_exists.1 hw
    rw [splitRuns_append_connective hplain hw] at hruns ⊢
    rw [List.filterMap_append, List.filterMap_eq_nil_iff.2 hplain, List.nil_append, List.filterMap_cons_some hd] at hc
    obtain ⟨hne, hruns⟩ := List.forall_mem_cons.1 hruns
    rw [runPlaces_cons, runPlaces_singleton _ hne, List.singleton_append]
    cases i with
    | zero =>
      obtain rfl : d = c := by simpa using hc
      cases hfirst : splitRuns ws with
      | nil => exact absurd hfirst (splitRuns_ne_nil ws)
      | cons next rest =>
        have hnext : next ≠ [] := hruns next (by rw [hfirst]; exact List.mem_cons_self)
        refine ⟨_, _, rfl, by rw [runPlaces_cons, runPlaces_singleton _ hnext]; rfl, rfl, w, ?_, hd⟩
        rw [← hall]
        simp
    | succ i =>
      have hrest := ih (before ++ (run ++ [w])) (by simpa using hall) hruns (by simpa using hc)
      simpa [Nat.add_assoc] using hrest

/-! ## Outside runs -/

/-- A place of a word that belongs to a run is one of the run. -/
theorem runSpan_contains {s : List Char} {run word : Span} {k i : Nat} (hk : run.Contains k)
    (hword : (wordSpans s)[k]? = some word) (hi : word.Contains i) : (runSpan s run).Contains i := by
  have hsorted : (wordSpans s).Pairwise fun r t => r.start < t.start ∧ r.stop < t.stop := pairwise_stop_longestRuns
  have hslice : (run.slice (wordSpans s)).Sublist (wordSpans s) := (List.take_sublist _ _).trans (List.drop_sublist _ _)
  exact Span.hull_contains (hsorted.sublist hslice) (Span.mem_slice hk hword) hi

/-- A word that is no connective belongs to a run. -/
theorem exists_criterionRun {s t : List Char} {k : Nat} (ht : (wordTexts s)[k]? = some t) (hplain : ¬IsConnectiveWord t) :
    ∃ run ∈ criterionRuns s, run.Contains k := by
  have hat : PlainAt (wordTexts s) k := by
    intro t' ht'
    rw [ht] at ht'
    obtain rfl := Option.some.inj ht'
    exact hplain
  obtain ⟨run, hrun, hk⟩ := IsLongestRun.exists_contains (List.getElem?_eq_some_iff.1 ht).1 hat
  exact ⟨run, mem_longestRuns.2 hrun, hk⟩

/-- Where connectives take turns with criteria, one stands between two runs. -/
theorem exists_neighbours {s t : List Char} (h : TakesTurns (wordTexts s)) {k : Nat} (ht : (wordTexts s)[k]? = some t)
    (hconnective : IsConnectiveWord t) :
    (∃ left ∈ criterionRuns s, left.stop = k) ∧ ∃ right ∈ criterionRuns s, right.start = k + 1 := by
  obtain ⟨hlt, hget⟩ := List.getElem?_eq_some_iff.1 ht
  have hchain := List.isChain_iff_getElem.1 h.apart
  have hnot : ∀ run ∈ criterionRuns s, ¬run.Contains k := by
    intro run hrun hk
    exact (mem_longestRuns.1 hrun).holds_of_contains hk t ht hconnective
  have hfirst : 0 < k := by
    rcases Nat.eq_zero_or_pos k with rfl | hpos
    · exact absurd hconnective (h.first t (by rw [List.head?_eq_getElem?]; exact ht))
    · exact hpos
  have hlast : k + 1 < (wordTexts s).length := by
    rcases Nat.lt_or_ge (k + 1) (wordTexts s).length with hlt' | hge
    · exact hlt'
    · refine absurd hconnective (h.last t ?_)
      rw [List.getLast?_eq_getElem?, show (wordTexts s).length - 1 = k by omega]
      exact ht
  constructor
  · have hbefore : ¬IsConnectiveWord (wordTexts s)[k - 1] := by
      intro hjoins
      have hpair := hchain (k - 1) (by omega)
      simp only [show k - 1 + 1 = k by omega, hget] at hpair
      exact hpair ⟨hjoins, hconnective⟩
    obtain ⟨left, hleft, hle, hlt'⟩ := exists_criterionRun (List.getElem?_eq_getElem (by omega)) hbefore
    refine ⟨left, hleft, ?_⟩
    rcases Nat.lt_or_ge k left.stop with hover | hstop
    · exact absurd ⟨by omega, hover⟩ (hnot left hleft)
    · omega
  · have hbehind : ¬IsConnectiveWord (wordTexts s)[k + 1] := by
      intro hjoins
      have hpair := hchain k hlast
      rw [hget] at hpair
      exact hpair ⟨hconnective, hjoins⟩
    obtain ⟨right, hright, hle, hlt'⟩ := exists_criterionRun (List.getElem?_eq_getElem hlast) hbehind
    refine ⟨right, hright, ?_⟩
    rcases Nat.lt_or_ge k right.start with hstart | hover
    · omega
    · exact absurd ⟨hover, by omega⟩ (hnot right hright)

/-- What stands outside the runs is a blank or belongs to a connective between two of them. -/
theorem outside_runs {s : List Char} (h : TakesTurns (wordTexts s)) {i : Nat} (hi : i < s.length)
    (hout : ∀ run ∈ criterionRuns s, ¬(runSpan s run).Contains i) :
    (∃ c ∈ s[i]?, isBlank c = true) ∨ ∃ k word, (wordSpans s)[k]? = some word ∧ word.Contains i ∧
      IsConnectiveWord (word.slice s) ∧ (∃ left ∈ criterionRuns s, left.stop = k) ∧
        ∃ right ∈ criterionRuns s, right.start = k + 1 := by
  by_cases hseparates : Separates s i
  · exact Or.inl hseparates.1
  · obtain ⟨word, hword, hcontains⟩ := IsLongestRun.exists_contains (p := fun i => ¬Separates s i) hi hseparates
    obtain ⟨k, hk⟩ := List.mem_iff_getElem?.1 (mem_longestRuns.2 hword)
    have ht : (wordTexts s)[k]? = some (word.slice s) := by
      rw [wordTexts, List.getElem?_map, wordSpans, hk]
      rfl
    by_cases hconnective : IsConnectiveWord (word.slice s)
    · exact Or.inr ⟨k, word, hk, hcontains, hconnective, exists_neighbours h ht hconnective⟩
    · obtain ⟨run, hrun, hmem⟩ := exists_criterionRun ht hconnective
      exact absurd (runSpan_contains hmem hk hcontains) (hout run hrun)

/-! ## The cut -/

theorem isCut_of_splitCriteria {s : List Char} {texts : List (List Char)} {connectives : List Connective}
    (halternates : Alternates (spacedWords s)) (h : splitCriteria s = .ok (texts, connectives)) :
    IsCut s texts connectives := by
  obtain ⟨htexts, hconnectives, hlength⟩ := splitCriteria_eq_ok.1 h
  have htexts' : texts = (criterionRuns s).map fun run => (runSpan s run).slice s := by rw [htexts, texts_criterionRuns]
  refine ⟨htexts', by rw [hlength, htexts', List.length_map], fun i c hc => ?_, fun i hi hout => ?_⟩
  · rw [hconnectives] at hc
    obtain ⟨left, right, hleft, hright, hnext, w, hw, hwc⟩ :=
      exists_between (spacedWords s) [] (List.nil_append _) ((forall_ne_nil_splitRuns _).2 halternates) hc
    rw [List.length_nil, ← criterionRuns_eq] at hleft hright
    refine ⟨left, right, hleft, hright, hnext, ?_⟩
    rw [wordTexts_eq, List.getElem?_map, Option.mem_def.1 hw, Option.map_some, connective?_eq_some.1 hwc]
  · refine outside_runs ?_ hi hout
    rw [wordTexts_eq]
    exact takesTurns_iff.2 halternates

/-- A body is cut exactly where criteria and connectives take turns among its words; it is then cut at the places of its
runs and connectives, and else refused with the numbers of both. -/
theorem splitCriteria_exact (s : List Char) :
    ((∃ cut, splitCriteria s = .ok cut) ↔ TakesTurns (wordTexts s)) ∧
      (∀ texts connectives, splitCriteria s = .ok (texts, connectives) → IsCut s texts connectives) ∧
      ∀ e, splitCriteria s = .error e →
        e = .missingOperand (criterionRuns s).length ((wordTexts s).countP (IsConnectiveWord ·)) := by
  have heq := splitCriteria_eq s
  have hruns : (criterionRuns s).length = criteriaCount (spacedWords s) := by
    rw [← List.length_map (fun run => (runSpan s run).slice s), texts_criterionRuns, runTexts, List.length_map,
      (length_filter_splitRuns _).1, criteriaCount]
  have hcount : (wordTexts s).countP (IsConnectiveWord ·) = connectiveCount (spacedWords s) := by
    rw [wordTexts_eq, List.countP_map, connectiveCount]
    refine List.countP_congr fun w _ => ?_
    simp only [Function.comp_apply, decide_eq_true_eq, isConnectiveWord_iff]
  rw [wordTexts_eq, takesTurns_iff, ← wordTexts_eq, hruns, hcount]
  by_cases halternates : Alternates (spacedWords s)
  · rw [if_pos halternates, answerUnless_none] at heq
    refine ⟨iff_of_true ⟨_, heq⟩ halternates, fun texts connectives h => isCut_of_splitCriteria halternates h, fun e he => ?_⟩
    rw [heq] at he
    cases he
  · rw [if_neg halternates, answerUnless_some] at heq
    refine ⟨iff_of_false ?_ halternates, fun texts connectives h => ?_, fun e he => ?_⟩
    · rintro ⟨cut, h⟩
      rw [heq] at h
      cases h
    · rw [heq] at h
      cases h
    · rw [heq] at he
      cases he
      rfl

/-- A connective in quotes is part of its word, and one that ends the body joins nothing. -/
example : IsConnectiveWord "and".toList ∧ ¬IsConnectiveWord "\"a and b\"".toList ∧
    wordTexts "x \"a and b\" or".toList = ["x".toList, "\"a and b\"".toList, "or".toList] := by
  decide

end SentenceQuery
