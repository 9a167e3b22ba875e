import Mathlib.Data.List.Forall2
import SentenceQuery.Proofs.Sentence.Words
import SentenceQuery.Proofs.Steps

/-!
# Cutting the body of a filter into criteria

The connectives among the words of a body cut it into runs; the text of a run is the text of a criterion. Criteria that are
written with connectives between them are cut apart again (`splitCriteria_joined`). A word that is no connective can be
exchanged for another one, and then only its own run changes (`splitRuns_append_cons`).
-/

namespace SentenceQuery

/-! ## A quoted part lies in one word -/

theorem exists_word_of_quoted {ws : List SpacedWord} (hws : ∀ w ∈ ws, w.IsSolid) {u a v b : List Char}
    (hu : Over isBlank u) (ha : EvenQuotes a) (hv : Unquoted v)
    (h : wordsText ws ++ u = a ++ '"' :: (v ++ '"' :: b)) :
    ∃ ws₁ g x y ws₂, ws = ws₁ ++ ⟨g, x ++ '"' :: (v ++ '"' :: y)⟩ :: ws₂ ∧ EvenQuotes x ∧
      a = wordsText ws₁ ++ (g ++ x) ∧ b = y ++ (wordsText ws₂ ++ u) := by
  induction ws generalizing a with
  | nil =>
    have hmem : '"' ∈ u := by
      rw [wordsText_nil, List.nil_append] at h
      simp [h]
    exact absurd hmem (unquoted_of_over_isBlank hu)
  | cons w ws ih =>
    obtain ⟨hw, hws⟩ := List.forall_mem_cons.1 hws
    have hgap : Unquoted w.gap := unquoted_of_over_isBlank hw.gap
    have heven : EvenQuotes (w.gap ++ w.text) := (evenQuotes_append hgap.evenQuotes).2 hw.text.evenQuotes
    have h' : (w.gap ++ w.text) ++ (wordsText ws ++ u) = a ++ '"' :: (v ++ '"' :: b) := by simpa using h
    rcases List.append_eq_append_iff.1 h' with ⟨a', rfl, hrest⟩ | ⟨x, hword, hrest⟩
    · have ha' := (evenQuotes_append heven).1 ha
      obtain ⟨ws₁, g, x, y, ws₂, rfl, hx, rfl, rfl⟩ := ih hws ha' hrest
      exact ⟨w :: ws₁, g, x, y, ws₂, rfl, hx, by simp, rfl⟩
    · cases x with
      | nil =>
        -- the quote stands at the start of what follows the word
        obtain ⟨ws₁, g, x, y, ws₂, rfl, hx, hnil, rfl⟩ :=
          ih hws (by decide : EvenQuotes []) (a := []) (by simpa using hrest.symm)
        refine ⟨w :: ws₁, g, x, y, ws₂, rfl, hx, ?_, rfl⟩
        have ha' : a = w.gap ++ w.text := by simpa using hword.symm
        rw [wordsText_cons, List.append_assoc, List.append_assoc, ← hnil, List.append_nil, ha']
      | cons c x =>
        obtain ⟨rfl, hx⟩ := List.cons.inj hrest
        -- the quote stands in the word, since the blanks before it have none
        obtain ⟨x₁, rfl, htext⟩ := exists_of_unquoted_append hgap hword
        have hx₁ : EvenQuotes x₁ := (evenQuotes_append hgap.evenQuotes).1 ha
        have hsolid : Solid (x₁ ++ '"' :: x) := htext ▸ hw.text
        obtain ⟨y, rfl, rfl⟩ := hsolid.exists_of_append hx₁ hv hx.symm
        exact ⟨[], w.gap, x₁, y, ws, by simp [← htext], hx₁, rfl, rfl⟩

/-! ## Runs -/

theorem splitRuns_ne_nil (ws : List SpacedWord) : splitRuns ws ≠ [] := by
  cases ws with
  | nil => simp [splitRuns]
  | cons w ws =>
    unfold splitRuns
    split
    · simp
    · split <;> simp

/-- Words without a connective among them are one run. -/
theorem splitRuns_of_forall {ws : List SpacedWord} (h : ∀ w ∈ ws, w.connective? = none) : splitRuns ws = [ws] := by
  induction ws with
  | nil => rfl
  | cons w ws ih =>
    obtain ⟨hw, hws⟩ := List.forall_mem_cons.1 h
    simp [splitRuns, hw, ih hws]

/-- A connective ends a run. -/
theorem splitRuns_append_connective {run ws : List SpacedWord} (h : ∀ w ∈ run, w.connective? = none) {w : SpacedWord}
    (hw : w.connective?.isSome = true) : splitRuns (run ++ w :: ws) = run :: splitRuns ws := by
  induction run with
  | nil => simp [splitRuns, hw]
  | cons v run ih =>
    obtain ⟨hv, hrun⟩ := List.forall_mem_cons.1 h
    simp [splitRuns, hv, ih hrun]

/-- A word that is no connective can be exchanged for another one: only its own run changes. -/
theorem splitRuns_append_cons (ws₁ ws₂ : List SpacedWord) :
    ∃ before left right after, (∀ w : SpacedWord, w.connective? = none →
      splitRuns (ws₁ ++ w :: ws₂) = before ++ (left ++ w :: right) :: after) ∧ left ⊆ ws₁ ∧ right ⊆ ws₂ := by
  induction ws₁ with
  | nil =>
    have hright : ∃ right after, splitRuns ws₂ = right :: after ∧ right ⊆ ws₂ := by
      induction ws₂ with
      | nil => exact ⟨[], [], rfl, List.Subset.refl _⟩
      | cons v ws ih =>
        obtain ⟨right, after, hws, hsub⟩ := ih
        unfold splitRuns
        split
        · exact ⟨[], _, rfl, List.nil_subset _⟩
        · rw [hws]
          exact ⟨v :: right, after, rfl, List.cons_subset_cons v hsub⟩
    obtain ⟨right, after, hws, hsub⟩ := hright
    refine ⟨[], [], right, after, fun w hw => ?_, List.nil_subset _, hsub⟩
    simp [splitRuns, hw, hws]
  | cons v ws₁ ih =>
    obtain ⟨before, left, right, after, hruns, hleft, hright⟩ := ih
    by_cases hv : v.connective?.isSome = true
    · refine ⟨[] :: before, left, right, after, fun w hw => ?_, List.Subset.trans hleft (List.subset_cons_self v ws₁), hright⟩
      simp [splitRuns, hv, hruns w hw]
    · cases before with
      | nil =>
        refine ⟨[], v :: left, right, after, fun w hw => ?_, List.cons_subset_cons v hleft, hright⟩
        simp [splitRuns, hv, hruns w hw]
      | cons run before =>
        refine ⟨(v :: run) :: before, left, right, after, fun w hw => ?_,
          List.Subset.trans hleft (List.subset_cons_self v ws₁), hright⟩
        simp [splitRuns, hv, hruns w hw]

/-! ## The text of a run -/

/-- The words of a criterion: solid, apart, and none a connective. -/
structure IsRun (run : List SpacedWord) : Prop where
  ne_nil : run ≠ []
  solid : ∀ w ∈ run, w.IsSolid
  plain : ∀ w ∈ run, w.connective? = none
  apart : Apart run

/-- A solid word does not end with a blank. -/
theorem stops_isBlank_reverse {t : List Char} (h : Solid t) (hne : t ≠ []) (s : List Char) :
    Stops isBlank (t.reverse ++ s) := by
  induction h generalizing s with
  | nil => exact absurd rfl hne
  | @char c t _ hc _ ih =>
    by_cases ht : t = []
    · subst ht
      exact stops_cons.2 (by simpa using hc)
    · rw [List.reverse_cons, List.append_assoc]
      exact ih ht _
  | @quoted q t _ _ ih =>
    by_cases ht : t = []
    · subst ht
      simp only [List.reverse_cons, List.reverse_append, List.reverse_nil, List.nil_append]
      exact stops_cons.2 (by decide)
    · simp only [List.reverse_cons, List.reverse_append, List.append_assoc]
      exact ih ht _

/-- A text with blanks at neither end. -/
structure Trimmed (t : List Char) : Prop where
  ne_nil : t ≠ []
  start : Stops isBlank t
  stop : Stops isBlank t.reverse

/-- Blanks at the ends of a text are left out, and no others. -/
theorem Trimmed.trim_append {t u u' : List Char} (h : Trimmed t) (hu : Over isBlank u) (hu' : Over isBlank u') :
    trim (u ++ (t ++ u')) = t := by
  have hstart : trimStart (u ++ (t ++ u')) = t ++ u' :=
    dropWhile_append_of_stops hu ((stops_append h.ne_nil).2 h.start)
  have hover : Over isBlank u'.reverse := fun c hc => hu' c (List.mem_reverse.1 hc)
  have hend : (t ++ u').reverse.dropWhile isBlank = t.reverse := by
    rw [List.reverse_append]
    exact dropWhile_append_of_stops hover h.stop
  rw [trim, hstart, trimEnd, hend, List.reverse_reverse]

theorem Trimmed.trim_eq {t : List Char} (h : Trimmed t) : trim t = t := by
  have htrim := h.trim_append over_nil over_nil
  rwa [List.nil_append, List.append_nil] at htrim

/-- Only the ends of a text count. -/
theorem Trimmed.append {s t : List Char} (hs : Trimmed s) (u : List Char) (ht : Trimmed t) : Trimmed (s ++ (u ++ t)) := by
  refine ⟨by simp [hs.ne_nil], (stops_append hs.ne_nil).2 hs.start, ?_⟩
  rw [List.reverse_append, List.reverse_append, List.append_assoc]
  exact (stops_append (by simp [ht.ne_nil])).2 ht.stop

theorem runText_cons (w : SpacedWord) (ws : List SpacedWord) : runText (w :: ws) = w.text ++ wordsText ws := rfl

theorem runText_append {ws : List SpacedWord} (hne : ws ≠ []) (ws' : List SpacedWord) :
    runText (ws ++ ws') = runText ws ++ wordsText ws' := by
  cases ws with
  | nil => exact absurd rfl hne
  | cons w ws => rw [List.cons_append, runText_cons, runText_cons, wordsText_append, List.append_assoc]

/-- The text of a run has no blanks at its ends. -/
theorem trimmed_runText {run : List SpacedWord} (hne : run ≠ []) (h : ∀ w ∈ run, w.IsSolid) :
    Trimmed (runText run) := by
  cases run with
  | nil => exact absurd rfl hne
  | cons w ws =>
    obtain ⟨hw, hws⟩ := List.forall_mem_cons.1 h
    rw [runText_cons]
    refine ⟨by simp [hw.ne_nil], stops_isBlank_of_solid hw.text hw.ne_nil _, ?_⟩
    rcases List.eq_nil_or_concat ws with rfl | ⟨ws', v, rfl⟩
    · rw [wordsText_nil, List.append_nil, ← List.append_nil w.text.reverse]
      exact stops_isBlank_reverse hw.text hw.ne_nil []
    · have hv := hws v (by simp)
      simp only [List.concat_eq_append, wordsText_append, wordsText_cons, wordsText_nil, List.append_nil,
        List.reverse_append, List.append_assoc]
      exact stops_isBlank_reverse hv.text hv.ne_nil _

/-! ## Criteria with connectives between them -/

theorem connective?_word (g : List Char) (c : Connective) : (⟨g, c.word.toList⟩ : SpacedWord).connective? = some c := by
  cases c <;> rfl

theorem isSolid_word {g : List Char} (hg : Over isBlank g) (c : Connective) :
    (⟨g, c.word.toList⟩ : SpacedWord).IsSolid := by
  have hover : Over (fun d => !isBlank d) c.word.toList := by cases c <;> exact List.all_eq_true.1 rfl
  have hquote : Unquoted c.word.toList := by cases c <;> decide
  have hne : c.word.toList ≠ [] := by cases c <;> decide
  exact ⟨hg, Closed.of_over hover hquote, hne⟩

/-- The words with other blanks before the first. -/
def setGap (g : List Char) : List SpacedWord → List SpacedWord
  | [] => []
  | w :: ws => ⟨g, w.text⟩ :: ws

theorem runText_setGap (g : List Char) (ws : List SpacedWord) : runText (setGap g ws) = runText ws := by
  cases ws <;> rfl

theorem wordsText_setGap {g : List Char} {ws : List SpacedWord} (hne : ws ≠ []) :
    wordsText (setGap g ws) = g ++ runText ws := by
  cases ws with
  | nil => exact absurd rfl hne
  | cons w ws => rw [setGap, wordsText_cons, runText_cons]

theorem gap_setGap (g : List Char) (ws : List SpacedWord) : ∀ w ∈ (setGap g ws).head?, w.gap = g := by
  cases ws <;> simp [setGap]

theorem IsRun.setGap {ws : List SpacedWord} (h : IsRun ws) {g : List Char} (hg : Over isBlank g) :
    IsRun (setGap g ws) := by
  cases ws with
  | nil => exact absurd rfl h.ne_nil
  | cons w ws =>
    obtain ⟨hw, hws⟩ := List.forall_mem_cons.1 h.solid
    obtain ⟨hp, hps⟩ := List.forall_mem_cons.1 h.plain
    refine ⟨by simp [SentenceQuery.setGap], ?_, ?_, h.apart⟩
    · exact List.forall_mem_cons.2 ⟨⟨hg, hw.text, hw.ne_nil⟩, hws⟩
    · exact List.forall_mem_cons.2 ⟨hp, hps⟩

/-- How members may be written with connectives between them. -/
inductive JoinedText {α : Type} (member : α → List Char → Prop) : α → List (Connective × α) → List Char → Prop where
  | last {a : α} {t : List Char} (h : member a t) : JoinedText member a [] t
  | more {a b : α} {c : Connective} {rest : List (Connective × α)} {t u u' s : List Char} (h : member a t) (hne : u ≠ [])
      (hu : Over isBlank u) (hne' : u' ≠ []) (hu' : Over isBlank u') (hrest : JoinedText member b rest s) :
      JoinedText member a ((c, b) :: rest) (t ++ (u ++ (c.word.toList ++ (u' ++ s))))

/-- What is so of every member may be said of it. -/
theorem JoinedText.imp {α : Type} {member member' : α → List Char → Prop} {a : α} {rest : List (Connective × α)}
    {t : List Char} (h : JoinedText member a rest t)
    (himp : ∀ b ∈ a :: rest.map Prod.snd, ∀ t, member b t → member' b t) : JoinedText member' a rest t := by
  induction h with
  | last h => exact JoinedText.last (himp _ List.mem_cons_self _ h)
  | more h hne hu hne' hu' _ ih =>
    have hrest := ih fun b hb t ht => himp b (List.mem_cons_of_mem _ hb) t ht
    exact JoinedText.more (himp _ List.mem_cons_self _ h) hne hu hne' hu' hrest

/-- The words of members with connectives between them, behind a gap: they are solid and stand apart, and the runs that they are
cut into have the texts of the members. -/
structure AreWords {α : Type} (member : α → List Char → Prop) (members : List α) (connectives : List Connective)
    (g t : List Char) (ws : List SpacedWord) : Prop where
  text : wordsText ws = g ++ t
  ne_nil : ws ≠ []
  gap : ∀ w ∈ ws.head?, w.gap = g
  solid : ∀ w ∈ ws, w.IsSolid
  apart : Apart ws
  runs_ne_nil : ∀ run ∈ splitRuns ws, run ≠ []
  runs : List.Forall₂ (fun a run => member a (runText run)) members (splitRuns ws)
  connectives : ws.filterMap SpacedWord.connective? = connectives

namespace AreWords

variable {α : Type} {member : α → List Char → Prop} {members : List α} {connectives : List Connective}
  {g t : List Char} {ws : List SpacedWord}

theorem runText_eq (h : AreWords member members connectives g t ws) : runText ws = t := by
  cases ws with
  | nil => exact absurd rfl h.ne_nil
  | cons w ws =>
    have htext := h.text
    rw [wordsText_cons, h.gap w rfl] at htext
    exact List.append_cancel_left htext

/-- A run is the words of one member. -/
theorem single {a : α} {run : List SpacedWord} (hrun : IsRun run) (h : member a (runText run)) (hg : Over isBlank g) :
    AreWords member [a] [] g (runText run) (setGap g run) := by
  have hset := hrun.setGap hg
  have hruns : splitRuns (setGap g run) = [setGap g run] := splitRuns_of_forall hset.plain
  exact {
    text := wordsText_setGap hrun.ne_nil
    ne_nil := hset.ne_nil
    gap := gap_setGap g run
    solid := hset.solid
    apart := hset.apart
    runs_ne_nil := by simpa [hruns] using hset.ne_nil
    runs := by simpa [hruns, runText_setGap] using h
    connectives := List.filterMap_eq_nil_iff.2 hset.plain }

/-- A run, a connective, and the words of further members. -/
theorem more {a : α} {c : Connective} {run : List SpacedWord} {g' u : List Char} (hws : AreWords member members connectives u t ws)
    (hrun : IsRun run) (h : member a (runText run)) (hg : Over isBlank g) (hne : g' ≠ []) (hg' : Over isBlank g') (hu : u ≠ []) :
    AreWords member (a :: members) (c :: connectives) g (runText run ++ (g' ++ (c.word.toList ++ (u ++ t))))
      (setGap g run ++ ⟨g', c.word.toList⟩ :: ws) := by
  have hset := hrun.setGap hg
  have hword := connective?_word g' c
  have hruns : splitRuns (setGap g run ++ ⟨g', c.word.toList⟩ :: ws) = setGap g run :: splitRuns ws :=
    splitRuns_append_connective hset.plain (by rw [hword]; rfl)
  have hgaps : ∀ w ∈ ws, w.gap ≠ [] := hws.apart.gap_ne_nil fun w hw => by rw [hws.gap w hw]; exact hu
  exact {
    text := by rw [wordsText_append, wordsText_setGap hrun.ne_nil, wordsText_cons, hws.text, List.append_assoc]
    ne_nil := by simp
    gap := by
      intro w hw
      rw [List.head?_append_of_ne_nil _ hset.ne_nil] at hw
      exact gap_setGap g run w hw
    solid := List.forall_mem_append.2 ⟨hset.solid, List.forall_mem_cons.2 ⟨isSolid_word hg' c, hws.solid⟩⟩
    apart := hset.apart.append (List.forall_mem_cons.2 ⟨hne, hgaps⟩)
    runs_ne_nil := by
      rw [hruns]
      exact List.forall_mem_cons.2 ⟨hset.ne_nil, hws.runs_ne_nil⟩
    runs := by
      rw [hruns]
      refine List.Forall₂.cons ?_ hws.runs
      rwa [runText_setGap]
    connectives := by
      rw [List.filterMap_append, List.filterMap_eq_nil_iff.2 hset.plain, List.nil_append,
        List.filterMap_cons_some hword, hws.connectives] }

end AreWords

/-- Members with connectives between them have words. -/
theorem exists_words_of_joined {α : Type} {member : α → List Char → Prop}
    (hmember : ∀ a t, member a t → ∃ run, IsRun run ∧ runText run = t) {a : α} {rest : List (Connective × α)}
    {t : List Char} (h : JoinedText member a rest t) {g : List Char} (hg : Over isBlank g) :
    ∃ ws, AreWords member (a :: rest.map Prod.snd) (rest.map Prod.fst) g t ws := by
  induction h generalizing g with
  | @last a t h =>
    obtain ⟨run, hrun, rfl⟩ := hmember a t h
    exact ⟨_, AreWords.single hrun h hg⟩
  | @more a b c rest t u u' s h hne hu hne' hu' _ ih =>
    obtain ⟨run, hrun, rfl⟩ := hmember a t h
    obtain ⟨ws, hws⟩ := ih hu'
    exact ⟨_, hws.more hrun h hg hne hu hne'⟩

/-- The texts of the runs that have words. -/
def runTexts (ws : List SpacedWord) : List (List Char) := ((splitRuns ws).filter fun run => !run.isEmpty).map runText

/-- A body is cut where there is one run with words more than there are connectives. -/
theorem splitCriteria_eq_ok {s : List Char} {texts : List (List Char)} {connectives : List Connective} :
    splitCriteria s = .ok (texts, connectives) ↔
      texts = runTexts (spacedWords s) ∧ connectives = (spacedWords s).filterMap SpacedWord.connective? ∧
        connectives.length + 1 = texts.length := by
  unfold splitCriteria
  constructor
  · intro h
    simp only at h
    split at h
    · rename_i hlength
      cases h
      exact ⟨rfl, rfl, hlength⟩
    · cases h
  · rintro ⟨rfl, rfl, hlength⟩
    exact if_pos hlength

/-- Members that are written with connectives between them are cut apart again. -/
theorem splitCriteria_joined {α : Type} {member : α → List Char → Prop}
    (hmember : ∀ a t, member a t → ∃ run, IsRun run ∧ runText run = t) {a : α} {rest : List (Connective × α)}
    {t : List Char} (h : JoinedText member a rest t) :
    Trimmed t ∧ ∃ ts, splitCriteria t = .ok (ts, rest.map Prod.fst) ∧
      List.Forall₂ member (a :: rest.map Prod.snd) ts := by
  obtain ⟨ws, hws⟩ := exists_words_of_joined hmember h over_nil
  have hwords : spacedWords t = ws := by
    have hspaced := spacedWords_wordsText hws.solid hws.apart over_nil
    rwa [hws.text, List.nil_append, List.append_nil] at hspaced
  have htexts : runTexts ws = (splitRuns ws).map runText := by
    rw [runTexts, List.filter_eq_self.2 fun run hrun => by simp [hws.runs_ne_nil run hrun]]
  refine ⟨hws.runText_eq ▸ trimmed_runText hws.ne_nil hws.solid, (splitRuns ws).map runText, ?_, ?_⟩
  · have hlength := hws.runs.length_eq
    simp only [List.length_cons, List.length_map] at hlength
    rw [splitCriteria_eq_ok, hwords, htexts, hws.connectives, List.length_map, List.length_map]
    exact ⟨rfl, rfl, hlength⟩
  · exact List.forall₂_map_right_iff.2 hws.runs

/-! ## Exchanging what stands in quotes -/

theorem unquoted_of_connective {w : SpacedWord} (h : w.connective?.isSome = true) : Unquoted w.text := by
  obtain ⟨c, hc⟩ := Option.isSome_iff_exists.1 h
  have hword := List.find?_some hc
  have htext : w.text = c.word.toList := by
    rw [of_decide_eq_true hword, String.toList_ofList]
  rw [htext]
  cases c <;> decide

theorem subset_of_mem_splitRuns {ws : List SpacedWord} {run : List SpacedWord} (h : run ∈ splitRuns ws) : run ⊆ ws := by
  induction ws generalizing run with
  | nil =>
    obtain rfl : run = [] := by simpa [splitRuns] using h
    exact List.Subset.refl _
  | cons w ws ih =>
    unfold splitRuns at h
    split at h
    · rcases List.mem_cons.1 h with rfl | h
      · exact List.nil_subset _
      · exact List.Subset.trans (ih h) (List.subset_cons_self w ws)
    · split at h
      · rename_i hnil
        exact absurd hnil (splitRuns_ne_nil ws)
      · rename_i first more hruns
        rcases List.mem_cons.1 h with rfl | h
        · exact List.cons_subset_cons w (ih (by rw [hruns]; exact List.mem_cons_self))
        · exact List.Subset.trans (ih (by rw [hruns]; exact List.mem_cons_of_mem _ h)) (List.subset_cons_self w ws)

/-- The quotes of words are those of their runs: with an even number in every other run, it is even in all if it is in the
first. -/
theorem evenQuotes_wordsText_iff {ws run : List SpacedWord} {runs : List (List SpacedWord)}
    (hgaps : ∀ w ∈ ws, Over isBlank w.gap) (h : splitRuns ws = run :: runs)
    (heven : ∀ r ∈ runs, EvenQuotes (wordsText r)) : EvenQuotes (wordsText ws) ↔ EvenQuotes (wordsText run) := by
  induction ws generalizing run runs with
  | nil =>
    obtain ⟨rfl, rfl⟩ := List.cons.inj h
    exact Iff.rfl
  | cons w ws ih =>
    obtain ⟨hw, hws⟩ := List.forall_mem_cons.1 hgaps
    have hgap := (unquoted_of_over_isBlank hw).evenQuotes
    cases hruns : splitRuns ws with
    | nil => exact absurd hruns (splitRuns_ne_nil ws)
    | cons first more =>
      unfold splitRuns at h
      split at h
      · rename_i hconnective
        obtain ⟨rfl, rfl⟩ := List.cons.inj h
        rw [hruns] at heven
        obtain ⟨hfirst, hmore⟩ := List.forall_mem_cons.1 heven
        have htext := (unquoted_of_connective hconnective).evenQuotes
        have hrest : EvenQuotes (wordsText ws) := (ih hws hruns hmore).2 hfirst
        rw [wordsText_cons]
        exact iff_of_true ((evenQuotes_append hgap).2 ((evenQuotes_append htext).2 hrest)) rfl
      · rw [hruns] at h
        obtain ⟨rfl, rfl⟩ := List.cons.inj h
        have hrest := ih hws hruns heven
        rw [wordsText_cons, wordsText_cons, evenQuotes_append hgap, evenQuotes_append hgap]
        simp only [EvenQuotes, List.count_append] at hrest ⊢
        omega

theorem evenQuotes_runText_iff {run : List SpacedWord} (hgaps : ∀ w ∈ run, Over isBlank w.gap) :
    EvenQuotes (wordsText run) ↔ EvenQuotes (runText run) := by
  cases run with
  | nil => exact Iff.rfl
  | cons w ws =>
    have hgap := unquoted_of_over_isBlank (hgaps w List.mem_cons_self)
    rw [wordsText_cons, runText_cons, evenQuotes_append hgap.evenQuotes]

/-- The quotes of a body are even in number if those of every criterion are. -/
theorem evenQuotes_of_splitCriteria {s : List Char} {texts : List (List Char)} {connectives : List Connective}
    (h : splitCriteria s = .ok (texts, connectives)) (heven : ∀ t ∈ texts, EvenQuotes t) : EvenQuotes s := by
  obtain ⟨u, hu, hs⟩ := exists_wordsText_spacedWords s
  have hgaps := over_gap_spacedWords s
  obtain ⟨rfl, -, -⟩ := splitCriteria_eq_ok.1 h
  have hrun : ∀ run ∈ splitRuns (spacedWords s), EvenQuotes (wordsText run) := by
    intro run hrun
    rw [evenQuotes_runText_iff fun w hw => hgaps w (subset_of_mem_splitRuns hrun hw)]
    by_cases hnil : run = []
    · rw [hnil]
      rfl
    · refine heven _ (List.mem_map_of_mem (List.mem_filter.2 ⟨hrun, ?_⟩))
      simp [hnil]
  have hwords : EvenQuotes (wordsText (spacedWords s)) := by
    cases hruns : splitRuns (spacedWords s) with
    | nil => exact absurd hruns (splitRuns_ne_nil _)
    | cons first more =>
      rw [hruns] at hrun
      obtain ⟨hfirst, hmore⟩ := List.forall_mem_cons.1 hrun
      exact (evenQuotes_wordsText_iff hgaps hruns hmore).2 hfirst
  rw [hs, evenQuotes_append hwords]
  exact (unquoted_of_over_isBlank hu).evenQuotes

theorem evenQuotes_wordsText {ws : List SpacedWord} (h : ∀ w ∈ ws, w.IsSolid) : EvenQuotes (wordsText ws) := by
  induction ws with
  | nil => rfl
  | cons w ws ih =>
    obtain ⟨hw, hws⟩ := List.forall_mem_cons.1 h
    rw [wordsText_cons, evenQuotes_append (unquoted_of_over_isBlank hw.gap).evenQuotes,
      evenQuotes_append hw.text.evenQuotes]
    exact ih hws

/-- In the text of a run, what stands in quotes in one of its words. -/
theorem exists_runText_quoted {left : List SpacedWord} (hleft : ∀ w ∈ left, w.IsSolid) {g x : List Char}
    (hg : Over isBlank g) (hx : EvenQuotes x) (y : List Char) (right : List SpacedWord) :
    ∃ before after, EvenQuotes before ∧ ∀ v : List Char,
      runText (left ++ ⟨g, x ++ '"' :: (v ++ '"' :: y)⟩ :: right) = before ++ '"' :: (v ++ '"' :: after) := by
  cases left with
  | nil => exact ⟨x, y ++ wordsText right, hx, fun v => by simp [runText_cons]⟩
  | cons w left =>
    obtain ⟨hw, hleft⟩ := List.forall_mem_cons.1 hleft
    refine ⟨w.text ++ (wordsText left ++ (g ++ x)), y ++ wordsText right, ?_, fun v => by simp [runText_cons]⟩
    rw [evenQuotes_append hw.text.evenQuotes, evenQuotes_append (evenQuotes_wordsText hleft),
      evenQuotes_append (unquoted_of_over_isBlank hg).evenQuotes]
    exact hx

theorem forall_isSolid_exchange {ws₁ ws₂ : List SpacedWord} {w w' : SpacedWord} (h : ∀ z ∈ ws₁ ++ w :: ws₂, z.IsSolid)
    (hw' : w'.IsSolid) : ∀ z ∈ ws₁ ++ w' :: ws₂, z.IsSolid := by
  intro z hz
  rcases List.mem_append.1 hz with hz | hz
  · exact h z (List.mem_append_left _ hz)
  · rcases List.mem_cons.1 hz with rfl | hz
    · exact hw'
    · exact h z (List.mem_append_right _ (List.mem_cons_of_mem _ hz))

theorem Apart.exchange {ws₁ ws₂ : List SpacedWord} {g t : List Char} (h : Apart (ws₁ ++ ⟨g, t⟩ :: ws₂)) (t' : List Char) :
    Apart (ws₁ ++ ⟨g, t'⟩ :: ws₂) := by
  cases ws₁ with
  | nil => exact h
  | cons w ws₁ =>
    intro z hz
    rcases List.mem_append.1 hz with hz | hz
    · exact h z (List.mem_append_left _ hz)
    · rcases List.mem_cons.1 hz with rfl | hz
      · have hgap : g ≠ [] := h ⟨g, t⟩ (List.mem_append_right ws₁ List.mem_cons_self)
        exact hgap
      · exact h z (List.mem_append_right _ (List.mem_cons_of_mem _ hz))

/-- A word with quotes is no connective. -/
theorem connective?_quoted (g x v y : List Char) :
    (⟨g, x ++ '"' :: (v ++ '"' :: y)⟩ : SpacedWord).connective? = none := by
  cases hc : (⟨g, x ++ '"' :: (v ++ '"' :: y)⟩ : SpacedWord).connective? with
  | none => rfl
  | some c =>
    refine absurd ?_ (unquoted_of_connective (by rw [hc]; rfl))
    simp

/-- The texts of runs, one of them with the quoted part of a word: whatever stands in the quotes, the others are the same. -/
theorem exists_runTexts_quoted {ws₁ : List SpacedWord} (ws₂ : List SpacedWord) (hleft : ∀ w ∈ ws₁, w.IsSolid)
    {g x : List Char} (hg : Over isBlank g) (hx : EvenQuotes x) (y : List Char) :
    ∃ texts₁ x' y' texts₂, EvenQuotes x' ∧ ∀ v : List Char,
      runTexts (ws₁ ++ ⟨g, x ++ '"' :: (v ++ '"' :: y)⟩ :: ws₂) = texts₁ ++ (x' ++ '"' :: (v ++ '"' :: y')) :: texts₂ ∧
        ((∀ w ∈ ws₁ ++ ⟨g, x ++ '"' :: (v ++ '"' :: y)⟩ :: ws₂, w.IsSolid) → Trimmed (x' ++ '"' :: (v ++ '"' :: y'))) := by
  obtain ⟨before, left, right, after, hruns, hsub, hsub'⟩ := splitRuns_append_cons ws₁ ws₂
  obtain ⟨x', y', hx', hrun⟩ := exists_runText_quoted (fun w hw => hleft w (hsub hw)) hg hx y right
  refine ⟨(before.filter fun run => !run.isEmpty).map runText, x', y', (after.filter fun run => !run.isEmpty).map runText,
    hx', fun v => ⟨?_, fun hsolid => ?_⟩⟩
  · rw [runTexts, hruns _ (connective?_quoted g x v y), List.filter_append, List.map_append,
      List.filter_cons_of_pos (by simp), List.map_cons, hrun]
  · rw [← hrun v]
    refine trimmed_runText (by simp) fun w hw => hsolid w ?_
    rcases List.mem_append.1 hw with hw | hw
    · exact List.mem_append_left _ (hsub hw)
    · exact List.mem_append_right _ (List.cons_subset_cons _ hsub' hw)

/-- What stands in quotes in a body can be exchanged: the body is cut at the same places, and one criterion's text changes. -/
theorem splitCriteria_exchange {a v w b : List Char} {texts : List (List Char)} {connectives : List Connective}
    (h : splitCriteria (a ++ '"' :: (v ++ '"' :: b)) = .ok (texts, connectives))
    (heven : EvenQuotes (a ++ '"' :: (v ++ '"' :: b))) (ha : EvenQuotes a) (hv : Unquoted v) (hw : Unquoted w) :
    ∃ texts₁ x y texts₂, texts = texts₁ ++ (x ++ '"' :: (v ++ '"' :: y)) :: texts₂ ∧ EvenQuotes x ∧
      Trimmed (x ++ '"' :: (v ++ '"' :: y)) ∧ Trimmed (x ++ '"' :: (w ++ '"' :: y)) ∧
      splitCriteria (a ++ '"' :: (w ++ '"' :: b)) =
        .ok (texts₁ ++ (x ++ '"' :: (w ++ '"' :: y)) :: texts₂, connectives) := by
  obtain ⟨u, hu, hs⟩ := exists_wordsText_spacedWords (a ++ '"' :: (v ++ '"' :: b))
  have hapart := apart_spacedWords (a ++ '"' :: (v ++ '"' :: b))
  have hsolid : ∀ x ∈ spacedWords (a ++ '"' :: (v ++ '"' :: b)), x.IsSolid :=
    fun x hx => isSolid_of_mem_spacedWords heven hx
  obtain ⟨htexts, hconnectives, hlength⟩ := splitCriteria_eq_ok.1 h
  obtain ⟨ws₁, g, x, y, ws₂, hws, hx, rfl, rfl⟩ := exists_word_of_quoted hsolid hu ha hv hs.symm
  rw [hws] at hsolid hapart htexts hconnectives
  have hword := hsolid _ (List.mem_append_right _ List.mem_cons_self)
  have hsolid' : ∀ z ∈ ws₁ ++ ⟨g, x ++ '"' :: (w ++ '"' :: y)⟩ :: ws₂, z.IsSolid :=
    forall_isSolid_exchange hsolid ⟨hword.gap, hword.text.replace rfl hx hv hw, by simp⟩
  -- the words of the new body are the old ones but for one
  have hwords : spacedWords (wordsText ws₁ ++ (g ++ x) ++ '"' :: (w ++ '"' :: (y ++ (wordsText ws₂ ++ u)))) =
      ws₁ ++ ⟨g, x ++ '"' :: (w ++ '"' :: y)⟩ :: ws₂ := by
    have hspaced := spacedWords_wordsText hsolid' (hapart.exchange (x ++ '"' :: (w ++ '"' :: y))) hu
    simpa using hspaced
  have hconnective : ∀ z : List Char, (ws₁ ++ ⟨g, x ++ '"' :: (z ++ '"' :: y)⟩ :: ws₂).filterMap SpacedWord.connective? =
      ws₁.filterMap SpacedWord.connective? ++ ws₂.filterMap SpacedWord.connective? := by
    intro z
    rw [List.filterMap_append, List.filterMap_cons_none (connective?_quoted g x z y)]
  obtain ⟨texts₁, x', y', texts₂, hx', hcut⟩ :=
    exists_runTexts_quoted ws₂ (fun z hz => hsolid z (List.mem_append_left _ hz)) hword.gap hx y
  refine ⟨texts₁, x', y', texts₂, htexts.trans (hcut v).1, hx', (hcut v).2 hsolid, (hcut w).2 hsolid', ?_⟩
  rw [splitCriteria_eq_ok, hwords, (hcut w).1, hconnective]
  refine ⟨rfl, hconnectives.trans (hconnective v), ?_⟩
  rw [hlength, htexts.trans (hcut v).1]
  simp

end SentenceQuery
