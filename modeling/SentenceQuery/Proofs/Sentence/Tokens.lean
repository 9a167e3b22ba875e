import SentenceQuery.Proofs.Names
import SentenceQuery.Proofs.Sentence.Clauses
import SentenceQuery.Proofs.Sentence.FilterText

/-!
# Reading tokens and definitions as they are meant

A token is read as the name of a column, and gives the field it stands for (`readColumns_of_tokens`); the definitions of an apply
clause are accepted one after the other, since their names differ (`readDefinitions_of_derived`).
-/

namespace SentenceQuery

open Grammar Sentence

/-! ## Words -/

theorem IsAsciiWord.isWord {w : String} (h : IsAsciiWord w) : IsWord w.toList := by
  refine ⟨fun hempty => h.ne_empty (String.toList_eq_nil_iff.1 hempty), fun c hc => ?_⟩
  have hchar := h.chars c hc
  simp only [isAsciiWordChar, Bool.or_eq_true, decide_eq_true_eq] at hchar
  rcases hchar with halnum | rfl
  · simp [isWordChar, halnum]
  · decide

theorem IsAsciiWord.isName {w : String} (h : IsAsciiWord w) : IsName w.toList :=
  ⟨h.isWord, by rw [String.ofList_toList]; exact h.not_keyword⟩

theorem IsAsciiWord.isPlainWord {w : String} (h : IsAsciiWord w) : IsPlainWord w where
  ne_empty := h.ne_empty
  no_underscore := fun hmem => absurd (h.chars _ hmem) (by decide)
  no_blank := fun c hc => not_isBlank_of_isWordChar (h.isWord.2 c hc)
  not_keyword := h.not_keyword
  not_phrase := h.not_phrase

/-! ## Columns -/

theorem fieldText_of_isName {w : List Char} (h : IsName w) : FieldText w :=
  ⟨w, [], h, by simp, by simp [furtherText]⟩

theorem fieldText_of_isToken {kind : Kind} {token : String} (h : IsToken kind token) : FieldText token.toList := by
  rcases h with ⟨column, hmem, rfl⟩ | hword
  · exact fieldText_display hmem
  · exact fieldText_of_isName hword.isName

theorem resolveColumn_of_isToken {kind : Kind} {token : String} (h : IsToken kind token) :
    resolveColumn kind token = .ok (kind.fieldOf token) := by
  rw [resolveColumn_eq_ok]
  rcases h with ⟨column, hmem, rfl⟩ | hword
  · rw [Kind.resolve?_display hmem, Kind.fieldOf_display hmem]
    exact Or.inl rfl
  · unfold Kind.fieldOf
    cases hresolve : kind.resolve? token with
    | some field => exact Or.inl rfl
    | none => exact Or.inr ⟨rfl, hword.isPlainWord, rfl⟩

theorem readColumns_of_tokens {kind : Kind} {tokens : List String} (h : ∀ token ∈ tokens, IsToken kind token)
    {list : Node Rule} (hlist : list.inner.map Node.string = tokens) :
    readColumns kind list = .ok (tokens.map kind.fieldOf) := by
  have hread : readColumns kind list = (list.inner.map Node.string).mapM (resolveColumn kind) := by
    rw [List.mapM_map]
    rfl
  rw [hread, hlist, mapM_eq_ok, List.forall₂_map_right_iff, List.forall₂_same]
  exact fun token htoken => resolveColumn_of_isToken (h token htoken)

theorem columnsText_of_tokensText {kind : Kind} {tokens : List String} (h : ∀ token ∈ tokens, IsToken kind token)
    {t : List Char} (ht : TokensText tokens t) : ColumnsText tokens t :=
  ht.imp fun token htoken _ heq => ⟨heq, heq ▸ fieldText_of_isToken (h token htoken)⟩

/-! ## Derived columns -/

theorem definitionText_of_derivationText {kind : Kind} {groupFields : List String} {d : Derivation}
    (hd : d.WellFormed kind groupFields) {t : List Char} (h : DerivationText d t) : DefinitionText d t := by
  obtain ⟨column, hmem, hdisplay, -⟩ := hd.source
  exact ⟨hd.name.isName, hdisplay ▸ fieldText_display hmem, h⟩

/-- A definition is accepted after others that have other names. -/
theorem readDefinition_of_readsDefinition {kind : Kind} {groupFields : List String} {d : Derivation}
    (hd : d.WellFormed kind groupFields) {n : Node Rule} (hn : ReadsDefinition d n) {earlier : List ApplyDefinition}
    (hfree : ∀ e ∈ earlier, e.name ≠ d.name) :
    readDefinition kind groupFields earlier n = .ok (d.definition kind) := by
  obtain ⟨o₁, o₂, o₃, hinner⟩ := hn
  obtain ⟨column, hmem, hdisplay, haccepts⟩ := hd.source
  have hfield : kind.fieldOf d.source = column.field := by rw [← hdisplay, Kind.fieldOf_display hmem]
  refine readDefinition_eq_ok.2 ⟨_, _, _, _, hinner, ?_, hd.name.isPlainWord, hfree, hd.not_group, ?_, ?_, ?_, ?_, ?_⟩
  · exact String.ofList_toList.symm
  · exact Kind.resolve?_eq_none.2 fun c hc => (hd.not_column c hc).1
  · exact Kind.isField_eq_false.2 fun c hc => (hd.not_column c hc).2
  · rw [Node.string, String.ofList_toList]
    exact Aggregate.ofName?_name d.op
  · rw [Node.string, String.ofList_toList, ← hdisplay, Kind.resolve?_display hmem, ← hfield]
    rfl
  · refine ⟨column.type, ?_, haccepts⟩
    have hcolumn := Kind.fieldType?_of_mem hmem
    rwa [← hfield] at hcolumn

/-- Definitions with different names are accepted one after the other. -/
theorem foldlM_readDefinition {kind : Kind} {groupFields : List String} {ds : List Derivation} {ns : List (Node Rule)}
    (hns : List.Forall₂ ReadsDefinition ds ns) (hds : ∀ d ∈ ds, d.WellFormed kind groupFields)
    {earlier : List ApplyDefinition} (hnames : (earlier.map ApplyDefinition.name ++ ds.map Derivation.name).Nodup) :
    ns.foldlM
      (fun earlier n => do
        let definition ← readDefinition kind groupFields earlier n
        .ok (earlier ++ [definition]))
      earlier = .ok (earlier ++ ds.map (Derivation.definition kind)) := by
  induction hns generalizing earlier with
  | nil => simp [pure, Except.pure]
  | @cons d n ds ns hn _ ih =>
    obtain ⟨hd, hds⟩ := List.forall_mem_cons.1 hds
    have hfree : ∀ e ∈ earlier, e.name ≠ d.name := by
      intro e he heq
      have hdisjoint := (List.nodup_append.1 hnames).2.2
      exact hdisjoint e.name (List.mem_map_of_mem he) d.name (by simp) heq
    have hnames' : ((earlier ++ [d.definition kind]).map ApplyDefinition.name ++ ds.map Derivation.name).Nodup := by
      simpa [Derivation.definition] using hnames
    rw [List.foldlM_cons, readDefinition_of_readsDefinition hd hn hfree]
    simpa [bind, Except.bind] using ih hds hnames'

theorem readDefinitions_of_derived {kind : Kind} {groupFields : List String} {ds : List Derivation} {clause : Node Rule}
    (hclause : List.Forall₂ ReadsDefinition ds clause.inner) (hds : ∀ d ∈ ds, d.WellFormed kind groupFields)
    (hnames : (ds.map Derivation.name).Nodup) :
    readDefinitions kind groupFields clause = .ok (ds.map (Derivation.definition kind)) :=
  foldlM_readDefinition hclause hds hnames

end SentenceQuery
