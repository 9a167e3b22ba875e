import SentenceQuery.Proofs.Grammar.Clauses

/-!
# Texts with their keywords marked

A text is cut into pieces, of which some are keywords (`Piece`). Words with blanks between them, separators and lists are cut
in one way only: each keyword of a clause is a piece of its own, and so is the word `and` between two members of a list.
Written out, such pieces are exactly the texts that the clauses may have (`spaced_iff_exists_pieces`,
`listText_iff_exists_pieces`).
-/

namespace SentenceQuery

namespace Grammar

/-- A piece of a sentence: a keyword, or any other text. -/
inductive Piece where
  | keyword (word : String)
  | text (chars : List Char)
deriving DecidableEq

/-- The characters of a piece. -/
def Piece.chars : Piece → List Char
  | keyword word => word.toList
  | text chars => chars

@[simp] theorem chars_keyword (k : String) : (Piece.keyword k).chars = k.toList := rfl

@[simp] theorem chars_text (t : List Char) : (Piece.text t).chars = t := rfl

/-- Pieces one after the other. -/
def written (ps : List Piece) : List Char := ps.flatMap Piece.chars

@[simp] theorem written_nil : written [] = [] := rfl

@[simp] theorem written_cons (p : Piece) (ps : List Piece) : written (p :: ps) = p.chars ++ written ps := by
  simp [written]

@[simp] theorem written_append (ps qs : List Piece) : written (ps ++ qs) = written ps ++ written qs := by
  simp [written]

/-! ## Words -/

/-- Words with blanks between them, each one piece, and what follows the last blanks. -/
inductive SpacedPieces : List Piece → List Piece → List Piece → Prop where
  | last (l : List Piece) : SpacedPieces [] l l
  | more {w : Piece} {g : List Char} {ws l ps : List Piece} (hne : g ≠ []) (hg : Over isGap g)
      (h : SpacedPieces ws l ps) : SpacedPieces (w :: ws) l (w :: .text g :: ps)

/-- What stands before the last part stands before any other last part as well. -/
theorem SpacedPieces.exists_front {ws l ps : List Piece} (h : SpacedPieces ws l ps) :
    ∃ front, written ps = front ++ written l ∧ ∀ x, Spaced (ws.map Piece.chars ++ [x]) (front ++ x) := by
  induction h with
  | last l => exact ⟨[], rfl, fun x => Spaced.last x⟩
  | @more w g ws l ps hne hg _ ih =>
    obtain ⟨front, hps, hspaced⟩ := ih
    refine ⟨w.chars ++ (g ++ front), by simp [hps], fun x => ?_⟩
    simpa using Spaced.more (w := w.chars) hne hg (hspaced x)

theorem SpacedPieces.spaced {ws l ps : List Piece} (h : SpacedPieces ws l ps) :
    Spaced (ws.map Piece.chars ++ [written l]) (written ps) := by
  obtain ⟨front, hps, hspaced⟩ := h.exists_front
  rw [hps]
  exact hspaced _

/-- Words with one blank behind each. -/
theorem spacedPieces_blank (ws l : List Piece) : SpacedPieces ws l (ws.flatMap (fun w => [w, .text [' ']]) ++ l) := by
  induction ws with
  | nil => exact SpacedPieces.last l
  | cons w ws ih => exact SpacedPieces.more (by decide) (by decide) ih

/-- Words with blanks between them may be cut into pieces, however their last part is. -/
theorem exists_spacedPieces (ws : List Piece) {x t : List Char} (h : Spaced (ws.map Piece.chars ++ [x]) t)
    (l : List Piece) (hl : written l = x) : ∃ ps, SpacedPieces ws l ps ∧ written ps = t := by
  induction ws generalizing t with
  | nil =>
    obtain rfl := spaced_singleton.1 h
    exact ⟨l, SpacedPieces.last l, hl⟩
  | cons w ws ih =>
    obtain ⟨v, vs, hvs⟩ : ∃ v vs, ws.map Piece.chars ++ [x] = v :: vs := List.exists_cons_of_ne_nil (by simp)
    rw [List.map_cons, List.cons_append, hvs] at h
    obtain ⟨g, t', hne, hg, hrest, rfl⟩ := spaced_cons_cons.1 h
    rw [← hvs] at hrest
    obtain ⟨ps, hps, rfl⟩ := ih hrest
    exact ⟨w :: .text g :: ps, SpacedPieces.more hne hg hps, by simp⟩

/-- Words with blanks between them are what their pieces are, however the last part is cut. -/
theorem spaced_iff_exists_pieces (ws l : List Piece) (t : List Char) :
    Spaced (ws.map Piece.chars ++ [written l]) t ↔ ∃ ps, SpacedPieces ws l ps ∧ written ps = t :=
  ⟨fun h => exists_spacedPieces ws h l rfl, fun ⟨_, h, ht⟩ => ht ▸ h.spaced⟩

/-! ## Lists -/

/-- What may stand between the members of a list, in pieces. -/
inductive SeparatorPieces : List Piece → Prop where
  | comma {g h : List Char} (hg : Over isGap g) (hh : Over isGap h) : SeparatorPieces [.text (g ++ ',' :: h)]
  | and {g h : List Char} (hg : Over isGap g) (hne : g ≠ []) (hh : Over isGap h) (hne' : h ≠ []) :
      SeparatorPieces [.text g, .keyword "and", .text h]

theorem separator_iff_exists_pieces {t : List Char} : Separator t ↔ ∃ ps, SeparatorPieces ps ∧ written ps = t := by
  constructor
  · intro h
    cases h with
    | comma hg hh => exact ⟨_, SeparatorPieces.comma hg hh, by simp⟩
    | and hg hne hh hne' => exact ⟨_, SeparatorPieces.and hg hne hh hne', by simp⟩
  · rintro ⟨ps, h, rfl⟩
    cases h with
    | comma hg hh => simpa using Separator.comma hg hh
    | and hg hne hh hne' => simpa using Separator.and hg hne hh hne'

/-- A list in pieces, given how its members are cut. -/
inductive ListPieces {α : Type} (member : α → List Piece → Prop) : List α → List Piece → Prop where
  | last {a : α} {ps : List Piece} (h : member a ps) : ListPieces member [a] ps
  | more {a : α} {as : List α} {ps sep rest : List Piece} (h : member a ps) (hsep : SeparatorPieces sep)
      (hrest : ListPieces member as rest) : ListPieces member (a :: as) (ps ++ (sep ++ rest))

theorem ListPieces.imp {α : Type} {member member' : α → List Piece → Prop} {as : List α} {ps : List Piece}
    (h : ListPieces member as ps) (himp : ∀ a ∈ as, ∀ ps, member a ps → member' a ps) : ListPieces member' as ps := by
  induction h with
  | last h => exact ListPieces.last (himp _ List.mem_cons_self _ h)
  | more h hsep _ ih =>
    exact ListPieces.more (himp _ List.mem_cons_self _ h) hsep (ih fun b hb => himp b (List.mem_cons_of_mem _ hb))

theorem ListPieces.listText {α : Type} {member : α → List Piece → Prop} {member' : α → List Char → Prop}
    (hmember : ∀ a ps, member a ps → member' a (written ps)) {as : List α} {ps : List Piece}
    (h : ListPieces member as ps) : ListText member' as (written ps) := by
  induction h with
  | last h => exact ListText.last (hmember _ _ h)
  | more h hsep _ ih =>
    simpa using ListText.more (hmember _ _ h) (separator_iff_exists_pieces.2 ⟨_, hsep, rfl⟩) ih

/-- A list is what its pieces are, if its members are. -/
theorem listText_iff_exists_pieces {α : Type} {member : α → List Piece → Prop} {member' : α → List Char → Prop}
    (hmember : ∀ a t, member' a t ↔ ∃ ps, member a ps ∧ written ps = t) {as : List α} {t : List Char} :
    ListText member' as t ↔ ∃ ps, ListPieces member as ps ∧ written ps = t := by
  constructor
  · intro h
    induction h with
    | last h =>
      obtain ⟨ps, hps, ht⟩ := (hmember _ _).1 h
      exact ⟨ps, ListPieces.last hps, ht⟩
    | more h hsep _ ih =>
      obtain ⟨ps, hps, rfl⟩ := (hmember _ _).1 h
      obtain ⟨qs, hqs, rfl⟩ := separator_iff_exists_pieces.1 hsep
      obtain ⟨rest, hrest, rfl⟩ := ih
      exact ⟨_, ListPieces.more hps hqs hrest, by simp⟩
  · rintro ⟨ps, h, rfl⟩
    exact h.listText fun a ps h => (hmember a _).2 ⟨ps, h, rfl⟩

end Grammar

end SentenceQuery
