import SentenceQuery.Proofs.Grammar.Lists

/-!
# Clauses

How each clause but the filter may be written, and what is read then: the clause as a whole, and nodes with the texts of its
parts. The words of a clause stand with blanks between them (`Spaced`).
-/

namespace SentenceQuery

namespace Grammar

open Pattern

/-- Words with blanks between them. -/
inductive Spaced : List (List Char) → List Char → Prop where
  | last (w : List Char) : Spaced [w] w
  | more {w g t : List Char} {ws : List (List Char)} (hne : g ≠ []) (hg : Over isGap g) (h : Spaced ws t) :
      Spaced (w :: ws) (w ++ (g ++ t))

theorem spaced_singleton {w t : List Char} : Spaced [w] t ↔ w = t := by
  constructor
  · intro h
    cases h with
    | last _ => rfl
    | more _ _ h => cases h
  · rintro rfl
    exact Spaced.last _

/-- The first of several words, and the blanks behind it. -/
theorem spaced_cons_cons {w v t : List Char} {ws : List (List Char)} :
    Spaced (w :: v :: ws) t ↔ ∃ g t', g ≠ [] ∧ Over isGap g ∧ Spaced (v :: ws) t' ∧ t = w ++ (g ++ t') := by
  constructor
  · intro h
    cases h with
    | more hne hg h => exact ⟨_, _, hne, hg, h, rfl⟩
  · rintro ⟨g, t', hne, hg, h, rfl⟩
    exact Spaced.more hne hg h

theorem Spaced.exists_eq_append {w t : List Char} {ws : List (List Char)} (h : Spaced (w :: ws) t) : ∃ s, t = w ++ s := by
  cases h with
  | last _ => exact ⟨[], (List.append_nil w).symm⟩
  | more _ _ _ => exact ⟨_, rfl⟩

/-- Words with one space between them. -/
theorem spaced_furtherText (w : List Char) (ws : List (List Char)) : Spaced (w :: ws) (w ++ furtherText ws) := by
  induction ws generalizing w with
  | nil =>
    rw [furtherText, List.flatMap_nil, List.append_nil]
    exact Spaced.last w
  | cons v ws ih => exact Spaced.more (g := [' ']) (by decide) (by decide) (ih v)

/-- A part, the blanks after it, and what comes next. -/
theorem run_seq_ws {p q : Pattern Rule} {offset : Nat} {w g s : List Char} {ns : List (Node Rule)} {o : Outcome Rule}
    (hp : p.run offset (w ++ (g ++ s)) = some ⟨w, ns, g ++ s⟩) (hne : g ≠ []) (hg : Over isGap g) (hs : Stops isGap s)
    (hq : q.run (offset + byteSize w + byteSize g) s = some o) :
    (seq p (seq ws q)).run offset (w ++ (g ++ s)) = some ⟨w ++ (g ++ o.text), ns ++ o.nodes, o.rest⟩ :=
  run_seq_eq_some.2 ⟨_, _, hp, run_seq_eq_some.2 ⟨_, _, run_ws_append hne hg hs _, hq, rfl⟩, by simp⟩

/-- A part and the blanks after it are not read where what comes next is not. -/
theorem run_seq_ws_eq_none {p q : Pattern Rule} {offset : Nat} {w g s : List Char} {ns : List (Node Rule)}
    (hp : p.run offset (w ++ (g ++ s)) = some ⟨w, ns, g ++ s⟩) (hne : g ≠ []) (hg : Over isGap g) (hs : Stops isGap s)
    (hq : q.run (offset + byteSize w + byteSize g) s = none) :
    (seq p (seq ws q)).run offset (w ++ (g ++ s)) = none := by
  cases hrun : (seq p (seq ws q)).run offset (w ++ (g ++ s)) with
  | none => rfl
  | some o =>
    obtain ⟨one, two, h₁, h₂, -⟩ := run_seq_eq_some.1 hrun
    rw [hp, Option.some.injEq] at h₁
    subst h₁
    obtain ⟨gap, three, h₃, h₄, -⟩ := run_seq_eq_some.1 h₂
    rw [run_ws_append hne hg hs, Option.some.injEq] at h₃
    subst h₃
    rw [hq] at h₄
    cases h₄

theorem run_text_append (k : String) (offset : Nat) (s : List Char) :
    (text k : Pattern Rule).run offset (k.toList ++ s) = some ⟨k.toList, [], s⟩ :=
  run_text_eq_some.2 ⟨s, rfl, rfl⟩

/-- A mark, blanks that may stand after it, and what comes next. -/
theorem run_mark_sp (mark : String) {q : Pattern Rule} {offset : Nat} {g s : List Char} {o : Outcome Rule}
    (hg : Over isGap g) (hs : Stops isGap s) (hq : q.run (offset + byteSize mark.toList + byteSize g) s = some o) :
    (seq (text mark) (seq sp q)).run offset (mark.toList ++ (g ++ s)) =
      some ⟨mark.toList ++ (g ++ o.text), o.nodes, o.rest⟩ :=
  run_seq_eq_some.2 ⟨_, _, run_text_append mark offset _,
    run_seq_eq_some.2 ⟨_, _, run_sp_append hg hs _, hq, rfl⟩, by simp⟩

theorem stops_isGap_of_isWord {w : List Char} (h : IsWord w) (s : List Char) : Stops isGap (w ++ s) :=
  (stops_append h.1).2 fun c hc => not_isGap_of_isWordChar (h.2 c (List.mem_of_mem_head? hc))

theorem Spaced.stops_isGap {w t : List Char} {ws : List (List Char)} (h : Spaced (w :: ws) t) (hw : IsWord w)
    (s : List Char) : Stops isGap (t ++ s) := by
  obtain ⟨u, rfl⟩ := h.exists_eq_append
  rw [List.append_assoc]
  exact stops_isGap_of_isWord hw _

/-- A word ends before blanks. -/
theorem stops_isWordChar_of_isBlank {u : List Char} (hne : u ≠ []) (hu : Over isBlank u) (s : List Char) :
    Stops isWordChar (u ++ s) :=
  (stops_append hne).2 fun c hc => not_isWordChar_of_isBlank (hu c (List.mem_of_mem_head? hc))

theorem stops_isWordChar_of_isGap {g : List Char} (hne : g ≠ []) (hg : Over isGap g) (s : List Char) :
    Stops isWordChar (g ++ s) :=
  stops_isWordChar_of_isBlank hne (over_isBlank_of_isGap hg) s

theorem FieldText.ne_nil {t : List Char} (h : FieldText t) : t ≠ [] := by
  obtain ⟨w, ws, hw, -, rfl⟩ := h
  simp [hw.1.1]

theorem FieldText.stops_isGap {t : List Char} (h : FieldText t) (s : List Char) : Stops isGap (t ++ s) := by
  obtain ⟨w, ws, hw, -, rfl⟩ := h
  rw [List.append_assoc]
  exact stops_isGap_of_isWord hw.1 _

/-! ## Columns -/

/-- How a list of columns may be written. -/
def ColumnsText (names : List String) (t : List Char) : Prop :=
  ListText (fun name t => t = name.toList ∧ FieldText t) names t

theorem columnText_starts (name : String) (t : List Char) (h : t = name.toList ∧ FieldText t) :
    t ≠ [] ∧ Stops isGap t := by
  have hstops := h.2.stops_isGap []
  rw [List.append_nil] at hstops
  exact ⟨h.2.ne_nil, hstops⟩

theorem ColumnsText.stops_isGap {names : List String} {t : List Char} (h : ColumnsText names t) (s : List Char) :
    Stops isGap (t ++ s) :=
  ListText.stops_isGap columnText_starts h s

/-- A list of columns is read name by name. -/
theorem run_fieldList {names : List String} {t r : List Char} (h : ColumnsText names t) (hr : ListEnds field r)
    (offset : Nat) :
    ∃ ns, fieldList.run offset (t ++ r) = some ⟨t, [⟨.fieldList, offset, t, ns⟩], r⟩ ∧ ns.map Node.string = names := by
  have hitem : ∀ (name : String) (t r : List Char) (offset : Nat), (t = name.toList ∧ FieldText t) → FieldEnds r →
      ∃ n, field.run offset (t ++ r) = some ⟨t, [n], r⟩ ∧ n.string = name := by
    rintro name t r offset ⟨rfl, ht⟩ hr
    exact ⟨_, run_field_append ht hr offset, by simp [Node.string]⟩
  obtain ⟨ns, hrun, hall⟩ := run_listOf columnText_starts hitem h hr offset
  refine ⟨ns, run_node_eq_some.2 ⟨_, hrun, rfl⟩, ?_⟩
  clear hrun hr h
  induction hall with
  | nil => rfl
  | cons hn _ ih => rw [List.map_cons, hn, ih]

/-! ## The dataset -/

theorem run_datasetClause {k id t r : List Char} (ht : Spaced ["In".toList, k, "dataset".toList, id] t) (hk : IsWord k)
    (hid : IsWord id) (hr : Stops isWordChar r) (offset : Nat) :
    ∃ o₁ o₂, datasetClause.run offset (t ++ r) =
      some ⟨t, [⟨.datasetClause, offset, t, [⟨.kind, o₁, k, []⟩, ⟨.datasetId, o₂, id, []⟩]⟩], r⟩ := by
  simp only [spaced_cons_cons, spaced_singleton] at ht
  obtain ⟨g₁, _, hne₁, hg₁, ⟨g₂, _, hne₂, hg₂, ⟨g₃, _, hne₃, hg₃, rfl, rfl⟩, rfl⟩, rfl⟩ := ht
  simp only [List.append_assoc]
  have hlast : ∀ offset, datasetId.run offset (id ++ r) = some ⟨id, [⟨.datasetId, offset, id, []⟩], r⟩ :=
    fun offset => run_token_eq_some.2 ⟨_, run_word_append hid hr offset, rfl⟩
  have hkind : ∀ offset s, kind.run offset (k ++ (g₂ ++ s)) = some ⟨k, [⟨.kind, offset, k, []⟩], g₂ ++ s⟩ :=
    fun offset s => run_token_eq_some.2 ⟨_, run_word_append hk (stops_isWordChar_of_isGap hne₂ hg₂ s) offset, rfl⟩
  have hrun := run_seq_ws (run_text_append "In" offset _) hne₁ hg₁ (stops_isGap_of_isWord hk _)
    (run_seq_ws (hkind _ _) hne₂ hg₂ (stops_isGap_of_isWord (by decide) _)
      (run_seq_ws (run_text_append "dataset" _ _) hne₃ hg₃ (stops_isGap_of_isWord hid r) (hlast _)))
  exact ⟨_, _, run_node_eq_some.2 ⟨_, hrun, rfl⟩⟩

/-! ## Groups, what is shown, and the order -/

theorem run_groupClause {names : List String} {l t r : List Char} (ht : Spaced ["grouped".toList, "by".toList, l] t)
    (hl : ColumnsText names l) (hr : ListEnds field r) (offset : Nat) :
    ∃ o₁ ns, groupClause.run offset (t ++ r) =
      some ⟨t, [⟨.groupClause, offset, t, [⟨.fieldList, o₁, l, ns⟩]⟩], r⟩ ∧ ns.map Node.string = names := by
  simp only [spaced_cons_cons, spaced_singleton] at ht
  obtain ⟨g₁, _, hne₁, hg₁, ⟨g₂, _, hne₂, hg₂, rfl, rfl⟩, rfl⟩ := ht
  simp only [List.append_assoc]
  obtain ⟨ns, hlist, hnames⟩ :=
    run_fieldList hl hr (offset + byteSize "grouped".toList + byteSize g₁ + byteSize "by".toList + byteSize g₂)
  have hrun := run_seq_ws (run_text_append "grouped" offset _) hne₁ hg₁ (stops_isGap_of_isWord (by decide) _)
    (run_seq_ws (run_text_append "by" _ _) hne₂ hg₂ (hl.stops_isGap r) hlist)
  exact ⟨_, ns, run_node_eq_some.2 ⟨_, hrun, rfl⟩, hnames⟩

theorem run_displayClause {names : List String} {l t r : List Char} (ht : Spaced ["show".toList, l] t)
    (hl : ColumnsText names l) (hr : ListEnds field r) (offset : Nat) :
    ∃ o₁ ns, displayClause.run offset (t ++ r) =
      some ⟨t, [⟨.displayClause, offset, t, [⟨.fieldList, o₁, l, ns⟩]⟩], r⟩ ∧ ns.map Node.string = names := by
  simp only [spaced_cons_cons, spaced_singleton] at ht
  obtain ⟨g₁, _, hne₁, hg₁, rfl, rfl⟩ := ht
  simp only [List.append_assoc]
  obtain ⟨ns, hlist, hnames⟩ := run_fieldList hl hr (offset + byteSize "show".toList + byteSize g₁)
  have hrun := run_seq_ws (run_text_append "show" offset _) hne₁ hg₁ (hl.stops_isGap r) hlist
  exact ⟨_, ns, run_node_eq_some.2 ⟨_, hrun, rfl⟩, hnames⟩

/-- A direction is read as a whole word. -/
theorem run_direction_append (d : Direction) {r : List Char} (hr : Stops isWordChar r) (offset : Nat) :
    direction.run offset (d.word.toList ++ r) =
      some ⟨d.word.toList, [⟨.direction, offset, d.word.toList, []⟩], r⟩ := by
  have hmem : d.word ∈ Direction.all.map Direction.word := by cases d <;> decide
  exact run_token_eq_some.2
    ⟨_, (run_oneOf_eq_some isVocabulary_directions).2 ⟨d.word, hmem, r, rfl, hr, rfl⟩, rfl⟩

theorem run_sortClause {d : Direction} {names : List String} {g l t r : List Char} (hg : Over isGap g)
    (ht : Spaced ["sort".toList, "in".toList, d.word.toList, "order".toList, "by".toList, l] t)
    (hl : ColumnsText names l) (hr : ListEnds field r) (offset : Nat) :
    ∃ o₁ o₂ ns, sortClause.run offset (';' :: (g ++ t) ++ r) =
      some ⟨';' :: (g ++ t), [⟨.sortClause, offset, ';' :: (g ++ t),
        [⟨.direction, o₁, d.word.toList, []⟩, ⟨.fieldList, o₂, l, ns⟩]⟩], r⟩ ∧ ns.map Node.string = names := by
  simp only [spaced_cons_cons, spaced_singleton] at ht
  obtain ⟨g₁, _, hne₁, hg₁, ⟨g₂, _, hne₂, hg₂, ⟨g₃, _, hne₃, hg₃, ⟨g₄, _, hne₄, hg₄,
    ⟨g₅, _, hne₅, hg₅, rfl, rfl⟩, rfl⟩, rfl⟩, rfl⟩, rfl⟩ := ht
  simp only [List.append_assoc, List.cons_append]
  have hword : IsWord d.word.toList := by cases d <;> decide
  obtain ⟨ns, hlist, hnames⟩ := run_fieldList hl hr
    (offset + byteSize ";".toList + byteSize g + byteSize "sort".toList + byteSize g₁ + byteSize "in".toList + byteSize g₂ +
      byteSize d.word.toList + byteSize g₃ + byteSize "order".toList + byteSize g₄ + byteSize "by".toList + byteSize g₅)
  have hwords := run_seq_ws (run_text_append "sort" (offset + byteSize ";".toList + byteSize g) _) hne₁ hg₁
    (stops_isGap_of_isWord (by decide) _)
    (run_seq_ws (run_text_append "in" _ _) hne₂ hg₂ (stops_isGap_of_isWord hword _)
      (run_seq_ws (run_direction_append d (stops_isWordChar_of_isGap hne₃ hg₃ _) _) hne₃ hg₃ (stops_isGap_of_isWord (by decide) _)
        (run_seq_ws (run_text_append "order" _ _) hne₄ hg₄ (stops_isGap_of_isWord (by decide) _)
          (run_seq_ws (run_text_append "by" _ _) hne₅ hg₅ (hl.stops_isGap r) hlist))))
  have hrun := run_mark_sp ";" hg (stops_isGap_of_isWord (by decide) _) hwords
  exact ⟨_, _, ns, run_node_eq_some.2 ⟨_, hrun, rfl⟩, hnames⟩

/-- The full stop: blanks may follow it, and nothing else. -/
theorem run_finish {g : List Char} (hg : Over isGap g) (offset : Nat) :
    ∃ ns, finish.run offset ('.' :: g) = some ⟨'.' :: g, [⟨.finish, offset, '.' :: g, ns⟩], []⟩ := by
  have hend : endOfText.run (offset + byteSize ".".toList + byteSize g) [] =
      some ⟨[], [⟨.endOfText, offset + byteSize ".".toList + byteSize g, [], []⟩], []⟩ := rfl
  have hrun := run_mark_sp "." hg stops_nil hend
  simp only [List.append_nil] at hrun
  exact ⟨_, run_node_eq_some.2 ⟨_, hrun, rfl⟩⟩

/-! ## Derived columns -/

/-- A derived column as a sentence says it: its name, the aggregate, and the column that it is taken of. -/
structure Derivation where
  name : String
  op : Aggregate
  source : String
deriving DecidableEq

/-- How a derived column may be defined. -/
def DefinitionText (d : Derivation) (t : List Char) : Prop :=
  IsName d.name.toList ∧ FieldText d.source.toList ∧
    Spaced [d.name.toList, "is".toList, "the".toList, d.op.name.toList, "of".toList, d.source.toList] t

/-- An aggregate is read as a whole word. -/
theorem run_aggregate_append (op : Aggregate) {r : List Char} (hr : Stops isWordChar r) (offset : Nat) :
    aggregate.run offset (op.name.toList ++ r) = some ⟨op.name.toList, [⟨.aggregate, offset, op.name.toList, []⟩], r⟩ := by
  have hmem : op.name ∈ Aggregate.all.map Aggregate.name := by cases op <;> decide
  exact run_token_eq_some.2
    ⟨_, (run_oneOf_eq_some isVocabulary_aggregates).2 ⟨op.name, hmem, r, rfl, hr, rfl⟩, rfl⟩

theorem run_ident_append {w r : List Char} (hw : IsName w) (hr : Stops isWordChar r) (offset : Nat) :
    ident.run offset (w ++ r) = some ⟨w, [⟨.ident, offset, w, []⟩], r⟩ :=
  run_ident_eq_some.2 ⟨w, r, rfl, hw, hr, rfl⟩

/-- What a definition's node says: a name, an aggregate and a source. -/
def ReadsDefinition (d : Derivation) (n : Node Rule) : Prop :=
  ∃ o₁ o₂ o₃, n.inner =
    [⟨.ident, o₁, d.name.toList, []⟩, ⟨.aggregate, o₂, d.op.name.toList, []⟩, ⟨.field, o₃, d.source.toList, []⟩]

theorem run_applyDef {d : Derivation} {t r : List Char} (ht : DefinitionText d t) (hr : FieldEnds r) (offset : Nat) :
    ∃ n, applyDef.run offset (t ++ r) = some ⟨t, [n], r⟩ ∧ ReadsDefinition d n := by
  obtain ⟨hname, hsource, ht⟩ := ht
  simp only [spaced_cons_cons, spaced_singleton] at ht
  obtain ⟨g₁, _, hne₁, hg₁, ⟨g₂, _, hne₂, hg₂, ⟨g₃, _, hne₃, hg₃, ⟨g₄, _, hne₄, hg₄,
    ⟨g₅, _, hne₅, hg₅, rfl, rfl⟩, rfl⟩, rfl⟩, rfl⟩, rfl⟩ := ht
  simp only [List.append_assoc]
  have hop : IsWord d.op.name.toList := by cases d.op <;> decide
  have hrun := run_seq_ws (run_ident_append hname (stops_isWordChar_of_isGap hne₁ hg₁ _) offset) hne₁ hg₁
    (stops_isGap_of_isWord (by decide) _)
    (run_seq_ws (run_text_append "is" _ _) hne₂ hg₂ (stops_isGap_of_isWord (by decide) _)
      (run_seq_ws (run_text_append "the" _ _) hne₃ hg₃ (stops_isGap_of_isWord hop _)
        (run_seq_ws (run_aggregate_append d.op (stops_isWordChar_of_isGap hne₄ hg₄ _) _) hne₄ hg₄
          (stops_isGap_of_isWord (by decide) _)
          (run_seq_ws (run_text_append "of" _ _) hne₅ hg₅ (hsource.stops_isGap r) (run_field_append hsource hr _)))))
  exact ⟨_, run_node_eq_some.2 ⟨_, hrun, rfl⟩, _, _, _, rfl⟩

theorem DefinitionText.starts (d : Derivation) (t : List Char) (h : DefinitionText d t) : t ≠ [] ∧ Stops isGap t := by
  obtain ⟨hname, -, ht⟩ := h
  obtain ⟨s, rfl⟩ := ht.exists_eq_append
  exact ⟨by simp [hname.1.1], stops_isGap_of_isWord hname.1 s⟩

theorem run_applyClause {ds : List Derivation} {g l t r : List Char} (hg : Over isGap g)
    (ht : Spaced ["where".toList, l] t) (hl : ListText DefinitionText ds l) (hr : ListEnds applyDef r) (offset : Nat) :
    ∃ ns, applyClause.run offset (',' :: (g ++ t) ++ r) =
      some ⟨',' :: (g ++ t), [⟨.applyClause, offset, ',' :: (g ++ t), ns⟩], r⟩ ∧ List.Forall₂ ReadsDefinition ds ns := by
  simp only [spaced_cons_cons, spaced_singleton] at ht
  obtain ⟨g₁, _, hne₁, hg₁, rfl, rfl⟩ := ht
  simp only [List.append_assoc, List.cons_append]
  obtain ⟨ns, hlist, hns⟩ := run_listOf DefinitionText.starts (fun _ _ _ offset hd hr => run_applyDef hd hr offset) hl hr
    (offset + byteSize ",".toList + byteSize g + byteSize "where".toList + byteSize g₁)
  have hrun := run_mark_sp "," hg (stops_isGap_of_isWord (by decide) _)
    (run_seq_ws (run_text_append "where" _ _) hne₁ hg₁ (hl.stops_isGap DefinitionText.starts r) hlist)
  exact ⟨ns, run_node_eq_some.2 ⟨_, hrun, rfl⟩, hns⟩

end Grammar

end SentenceQuery
