import SentenceQuery.Proofs.Grammar.Pieces
import SentenceQuery.Proofs.Sentence.Query

/-!
# Sentences with their keywords marked

The texts that say a query, cut into pieces of which the keywords are those of the clauses: the words of each clause, the
names of aggregates and directions, and each `and` and `or` that stands between two members of a list or two conditions. Every
text that says the query is cut in this way, and every sentence that is cut in this way says the query
(`worded_iff_exists_marked`).
-/

namespace SentenceQuery

open Grammar

/-! ## Parts -/

/-- Tokens with commas or `and` between them. -/
def TokenPieces (tokens : List String) (ps : List Piece) : Prop :=
  ListPieces (fun token ps => ps = [.text token.toList]) tokens ps

/-- The words of a definition. -/
def DerivationPieces (d : Derivation) (ps : List Piece) : Prop :=
  SpacedPieces [.text d.name.toList, .keyword "is", .keyword "the", .keyword d.op.name, .keyword "of"]
    [.text d.source.toList] ps

/-- Conditions with connectives between them. -/
inductive JoinedPieces : Condition → List (Connective × Condition) → List Piece → Prop where
  | last {a : Condition} {t : List Char} (h : ConditionText a t) : JoinedPieces a [] [.text t]
  | more {a b : Condition} {c : Connective} {rest : List (Connective × Condition)} {t u u' : List Char} {ps : List Piece}
      (h : ConditionText a t) (hne : u ≠ []) (hu : Over isBlank u) (hne' : u' ≠ []) (hu' : Over isBlank u')
      (hrest : JoinedPieces b rest ps) :
      JoinedPieces a ((c, b) :: rest) (.text t :: .text u :: .keyword c.word :: .text u' :: ps)

/-- The group clause, or nothing. -/
inductive GroupPieces : List String → List Piece → Prop where
  | absent : GroupPieces [] []
  | present {tokens : List String} {u : List Char} {l ps : List Piece} (hne : u ≠ []) (hu : Over isBlank u)
      (hl : TokenPieces tokens l) (hps : SpacedPieces [.keyword "grouped", .keyword "by"] l ps) :
      GroupPieces tokens (.text u :: ps)

/-- The filter clause. -/
inductive FilterPieces : Option Conditions → List Piece → Prop where
  | all {g g' : List Char} {ps : List Piece} (hg : Over isGap g)
      (hps : SpacedPieces [.keyword "find", .keyword "all"] [.text "entries".toList] ps) (hg' : Over isGap g') :
      FilterPieces none (.text (',' :: g) :: (ps ++ [.text (g' ++ [';'])]))
  | whose {f : Conditions} {g g' u u' : List Char} {ps body : List Piece} (hg : Over isGap g)
      (hps : SpacedPieces [.keyword "find", .keyword "entries"] [.keyword "whose"] ps) (hne : g' ≠ []) (hg' : Over isGap g')
      (hu : Over isBlank u) (hbody : JoinedPieces f.first f.more body) (hu' : Over isBlank u') :
      FilterPieces (some f) (.text (',' :: g) :: (ps ++ .text (g' ++ u) :: (body ++ [.text (u' ++ [';'])])))

/-- The apply clause, or nothing. -/
inductive ApplyPieces : List Derivation → List Piece → Prop where
  | absent : ApplyPieces [] []
  | present {ds : List Derivation} {u g : List Char} {l ps : List Piece} (hu : Over isBlank u) (hg : Over isGap g)
      (hl : ListPieces DerivationPieces ds l) (hps : SpacedPieces [.keyword "where"] l ps) :
      ApplyPieces ds (.text (u ++ ',' :: g) :: ps)

/-- The sort clause, or nothing. -/
inductive SortPieces : Option (Direction × List String) → List Piece → Prop where
  | absent : SortPieces none []
  | present {direction : Direction} {tokens : List String} {u g : List Char} {l ps : List Piece} (hu : Over isBlank u)
      (hg : Over isGap g) (hl : TokenPieces tokens l)
      (hps : SpacedPieces
        [.keyword "sort", .keyword "in", .keyword direction.word, .keyword "order", .keyword "by"] l ps) :
      SortPieces (some (direction, tokens)) (.text (u ++ ';' :: g) :: ps)

/-- A sentence that says the query, with its keywords marked. -/
inductive Query.Marked (q : Query) : List Piece → Prop where
  | mk {u₁ u₂ u₃ u₄ g : List Char} {dataset group filter l display apply sort : List Piece} (h₁ : Over isBlank u₁)
      (hdataset : SpacedPieces [.keyword "In", .text q.kind.name.toList, .keyword "dataset"] [.text q.dataset.toList] dataset)
      (hgroup : GroupPieces q.groups group) (h₂ : Over isBlank u₂) (hfilter : FilterPieces q.filter filter)
      (h₃ : Over isBlank u₃) (hl : TokenPieces q.shown l) (hdisplay : SpacedPieces [.keyword "show"] l display)
      (happly : ApplyPieces q.derived apply) (hsort : SortPieces q.order sort) (h₄ : Over isBlank u₄) (hg : Over isGap g) :
      Marked q (.text u₁ :: (dataset ++ (group ++ (.text u₂ :: (filter ++ (.text u₃ ::
        (display ++ (apply ++ (sort ++ [.text (u₄ ++ '.' :: g)])))))))))

/-! ## Written out -/

theorem tokensText_iff_exists_pieces {tokens : List String} {t : List Char} :
    TokensText tokens t ↔ ∃ ps, TokenPieces tokens ps ∧ written ps = t :=
  listText_iff_exists_pieces fun a t => by simp [eq_comm]

theorem derivationText_iff_exists_pieces (d : Derivation) (t : List Char) :
    DerivationText d t ↔ ∃ ps, DerivationPieces d ps ∧ written ps = t := by
  have h := spaced_iff_exists_pieces
    [.text d.name.toList, .keyword "is", .keyword "the", .keyword d.op.name, .keyword "of"] [.text d.source.toList] t
  rw [written_cons, written_nil, List.append_nil] at h
  exact h

theorem joinedText_iff_exists_pieces {a : Condition} {rest : List (Connective × Condition)} {t : List Char} :
    JoinedText ConditionText a rest t ↔ ∃ ps, JoinedPieces a rest ps ∧ written ps = t := by
  constructor
  · intro h
    induction h with
    | last h => exact ⟨_, JoinedPieces.last h, by simp⟩
    | more h hne hu hne' hu' _ ih =>
      obtain ⟨ps, hps, rfl⟩ := ih
      exact ⟨_, JoinedPieces.more h hne hu hne' hu' hps, by simp⟩
  · rintro ⟨ps, h, rfl⟩
    induction h with
    | last h => simpa using JoinedText.last h
    | more h hne hu hne' hu' _ ih => simpa using JoinedText.more h hne hu hne' hu' ih

theorem groupPart_iff_exists_pieces {tokens : List String} {t : List Char} :
    GroupPart tokens t ↔ ∃ ps, GroupPieces tokens ps ∧ written ps = t := by
  constructor
  · intro h
    cases h with
    | absent => exact ⟨[], GroupPieces.absent, rfl⟩
    | present hne hu hl ht =>
      obtain ⟨l, hl', rfl⟩ := tokensText_iff_exists_pieces.1 hl
      obtain ⟨ps, hps, rfl⟩ := exists_spacedPieces [.keyword "grouped", .keyword "by"] ht l rfl
      exact ⟨_, GroupPieces.present hne hu hl' hps, by simp⟩
  · rintro ⟨ps, h, rfl⟩
    cases h with
    | absent => exact GroupPart.absent
    | present hne hu hl hps =>
      have hl' := tokensText_iff_exists_pieces.2 ⟨_, hl, rfl⟩
      simpa using GroupPart.present hne hu hl' hps.spaced

theorem filterPart_iff_exists_pieces {filter : Option Conditions} {t : List Char} :
    FilterPart filter t ↔ ∃ ps, FilterPieces filter ps ∧ written ps = t := by
  constructor
  · intro h
    cases h with
    | all hh =>
      obtain ⟨g, w, g', hg, hw, hg', rfl⟩ := hh
      obtain ⟨ps, hps, rfl⟩ :=
        exists_spacedPieces [.keyword "find", .keyword "all"] hw [.text "entries".toList] (by simp)
      exact ⟨_, FilterPieces.all hg hps hg', by simp⟩
    | whose hh hu hb hu' =>
      obtain ⟨g, w, g', hg, hw, hne, hg', rfl⟩ := hh
      obtain ⟨ps, hps, rfl⟩ :=
        exists_spacedPieces [.keyword "find", .keyword "entries"] hw [.keyword "whose"] (by simp)
      obtain ⟨body, hbody, rfl⟩ := joinedText_iff_exists_pieces.1 hb
      exact ⟨_, FilterPieces.whose hg hps hne hg' hu hbody hu', by simp⟩
  · rintro ⟨ps, h, rfl⟩
    cases h with
    | @all g g' ps hg hps hg' =>
      have hw : AllText (',' :: (g ++ (written ps ++ g'))) := ⟨g, _, g', hg, by simpa [AllWords] using hps.spaced, hg', rfl⟩
      simpa using FilterPart.all hw
    | @whose f g g' u u' ps body hg hps hne hg' hu hbody hu' =>
      have hw : WhoseText (',' :: (g ++ (written ps ++ g'))) :=
        ⟨g, _, g', hg, by simpa [WhoseWords] using hps.spaced, hne, hg', rfl⟩
      simpa using FilterPart.whose hw hu (joinedText_iff_exists_pieces.2 ⟨body, hbody, rfl⟩) hu'

theorem applyPart_iff_exists_pieces {ds : List Derivation} {t : List Char} :
    ApplyPart ds t ↔ ∃ ps, ApplyPieces ds ps ∧ written ps = t := by
  constructor
  · intro h
    cases h with
    | absent => exact ⟨[], ApplyPieces.absent, rfl⟩
    | present hu hg hl ht =>
      obtain ⟨l, hl', rfl⟩ := (listText_iff_exists_pieces derivationText_iff_exists_pieces).1 hl
      obtain ⟨ps, hps, rfl⟩ := exists_spacedPieces [.keyword "where"] ht l rfl
      exact ⟨_, ApplyPieces.present hu hg hl' hps, by simp⟩
  · rintro ⟨ps, h, rfl⟩
    cases h with
    | absent => exact ApplyPart.absent
    | present hu hg hl hps =>
      have hl' := (listText_iff_exists_pieces derivationText_iff_exists_pieces).2 ⟨_, hl, rfl⟩
      simpa using ApplyPart.present hu hg hl' hps.spaced

theorem sortPart_iff_exists_pieces {order : Option (Direction × List String)} {t : List Char} :
    SortPart order t ↔ ∃ ps, SortPieces order ps ∧ written ps = t := by
  constructor
  · intro h
    cases h with
    | absent => exact ⟨[], SortPieces.absent, rfl⟩
    | @present direction _ _ _ _ _ hu hg hl ht =>
      obtain ⟨l, hl', rfl⟩ := tokensText_iff_exists_pieces.1 hl
      obtain ⟨ps, hps, rfl⟩ := exists_spacedPieces
        [.keyword "sort", .keyword "in", .keyword direction.word, .keyword "order", .keyword "by"] ht l rfl
      exact ⟨_, SortPieces.present hu hg hl' hps, by simp⟩
  · rintro ⟨ps, h, rfl⟩
    cases h with
    | absent => exact SortPart.absent
    | present hu hg hl hps =>
      have hl' := tokensText_iff_exists_pieces.2 ⟨_, hl, rfl⟩
      simpa using SortPart.present hu hg hl' hps.spaced

/-- The texts that say a query are those of its sentences with marked keywords. -/
theorem worded_iff_exists_marked {q : Query} {t : List Char} : q.Worded t ↔ ∃ ps, q.Marked ps ∧ written ps = t := by
  constructor
  · rintro ⟨h₁, hdataset, hgroup, h₂, hfilter, h₃, hl, hdisplay, happly, hsort, h₄, hg⟩
    obtain ⟨dataset, hdataset', rfl⟩ := exists_spacedPieces
      [.keyword "In", .text q.kind.name.toList, .keyword "dataset"] hdataset [.text q.dataset.toList] (by simp)
    obtain ⟨group, hgroup', rfl⟩ := groupPart_iff_exists_pieces.1 hgroup
    obtain ⟨filter, hfilter', rfl⟩ := filterPart_iff_exists_pieces.1 hfilter
    obtain ⟨l, hl', rfl⟩ := tokensText_iff_exists_pieces.1 hl
    obtain ⟨display, hdisplay', rfl⟩ := exists_spacedPieces [.keyword "show"] hdisplay l rfl
    obtain ⟨apply, happly', rfl⟩ := applyPart_iff_exists_pieces.1 happly
    obtain ⟨sort, hsort', rfl⟩ := sortPart_iff_exists_pieces.1 hsort
    exact ⟨_, Query.Marked.mk h₁ hdataset' hgroup' h₂ hfilter' h₃ hl' hdisplay' happly' hsort' h₄ hg, by simp⟩
  · rintro ⟨_, ⟨h₁, hdataset, hgroup, h₂, hfilter, h₃, hl, hdisplay, happly, hsort, h₄, hg⟩, rfl⟩
    have hgroup' := groupPart_iff_exists_pieces.2 ⟨_, hgroup, rfl⟩
    have hfilter' := filterPart_iff_exists_pieces.2 ⟨_, hfilter, rfl⟩
    have hl' := tokensText_iff_exists_pieces.2 ⟨_, hl, rfl⟩
    have happly' := applyPart_iff_exists_pieces.2 ⟨_, happly, rfl⟩
    have hsort' := sortPart_iff_exists_pieces.2 ⟨_, hsort, rfl⟩
    simpa using Query.Worded.mk h₁ (by simpa using hdataset.spaced) hgroup' h₂ hfilter' h₃ hl' hdisplay.spaced happly'
      hsort' h₄ hg

end SentenceQuery
