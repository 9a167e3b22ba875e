import SentenceQuery.Proofs.Query.Lossless
import SentenceQuery.Table.Json

/-!
# Rows are read back

The text of a row is a JSON object with a number or a text under each of its keys, in their order, if its cells are finite
(`exists_flat_of_rows`). Read back as a row it has the same keys, and cells that count as the same where the text of a
number is read back as that number (`exists_same_rows`).
-/

namespace SentenceQuery

open Json

/-! ## Objects and arrays -/

namespace Json

variable {σ α : Type}

/-- Members of which each is put to what is read so far. -/
theorem readsMembers_foldl {value : Reader α} (put : σ → String → α → σ) {members : List (String × List Char)}
    {values : List (String × α)} (h : List.Forall₂ (fun m v => v.1 = m.1 ∧ Reads value m.2 v.2) members values) (acc : σ) :
    ReadsMembers id (fun acc key s => do let (v, s) ← value s; .ok (put acc key v, s)) acc members
      (values.foldl (fun acc v => put acc v.1 v.2) acc) := by
  induction h generalizing acc with
  | nil => exact .nil acc
  | @cons m v members values hm _ ih =>
    obtain ⟨key, text⟩ := m
    obtain ⟨rfl, hread⟩ := hm
    exact .cons (hread.map (put acc v.1)) (ih (put acc v.1 v.2))

theorem reads_map {value : Nat → σ → String → Reader σ} {acc acc' : σ} {depth : Nat} {members : List (String × List Char)}
    (h : ReadsMembers id (value depth) acc members acc') :
    Reads (readMap value acc (depth + 1)) (ofMembers members) acc' := by
  refine ⟨startsValue_cons.2 (by decide), fun rest _ => ?_⟩
  rw [ofMembers, List.cons_append, readMap, skipSpace_cons (by decide), List.append_assoc, List.singleton_append]
  exact readObject_commaSeparated readKey_quotedBody h rest

theorem reads_value_array {depth : Nat} {texts : List (List Char)} {items : List Value}
    (h : List.Forall₂ (Reads (readValue depth)) texts items) :
    Reads (readValue (depth + 1)) (ofItems texts) (.array items) := by
  refine ⟨startsValue_cons.2 (by decide), fun rest _ => ?_⟩
  rw [ofItems, List.cons_append, readValue, skipSpace_cons (by decide), List.append_assoc, List.singleton_append]
  simp only [readArray_commaSeparated (readsItems_appendItem h []) rest, List.nil_append, bind, Except.bind]

theorem reads_value_object {depth : Nat} {members : List (String × List Char)} {values : List (String × Value)}
    (h : List.Forall₂ (fun m v => v.1 = m.1 ∧ Reads (readValue depth) m.2 v.2) members values) :
    Reads (readValue (depth + 1)) (ofMembers members) (.object values) := by
  have hmembers : ReadsMembers id (appendMember (readValue depth)) [] members values := by
    have hfold : values.foldl (fun acc v => acc ++ [(v.1, v.2)]) [] = values := by
      rw [List.foldl_append_eq_append, ← List.flatMap_def, List.flatMap_singleton', List.nil_append]
    have hput := readsMembers_foldl (fun acc key v => acc ++ [(key, v)]) h []
    rwa [hfold] at hput
  refine ⟨startsValue_cons.2 (by decide), fun rest _ => ?_⟩
  rw [ofMembers, List.cons_append, readValue, skipSpace_cons (by decide), List.append_assoc, List.singleton_append]
  simp only [readObject_commaSeparated readKey_quotedBody hmembers rest, bind, Except.bind]

/-- The value is a number or a text. -/
def Value.IsScalar : Value → Prop
  | .number _ => True
  | .string _ => True
  | _ => False

/-- The value is an object with these keys in their order, over numbers and texts. -/
def Value.IsFlat (keys : List String) (v : Value) : Prop :=
  ∃ members, v = .object members ∧ members.map Prod.fst = keys ∧ ∀ m ∈ members, m.2.IsScalar

end Json

/-! ## Rows as values of any shape -/

/-- No cell of the row is an infinity or a NaN. -/
def Row.IsFinite (row : Row) : Prop := ∀ c ∈ row.cells, c.2.IsFinite

/-- The text of a finite cell is a number or a text. -/
theorem Cell.exists_scalar {cell : Cell} (h : cell.IsFinite) (depth : Nat) :
    ∃ v : Value, Reads (readValue depth) cell.toJson v ∧ v.IsScalar := by
  cases cell with
  | text s => exact ⟨.string s, reads_value_string depth s, trivial⟩
  | number x =>
    obtain ⟨y, hreads⟩ := exists_reads_number (h x rfl)
    exact ⟨.number y, reads_value_number (h x rfl) hreads depth, trivial⟩

namespace Row

theorem exists_flat {row : Row} (h : row.IsFinite) (depth : Nat) :
    ∃ v : Value, Reads (readValue (depth + 1)) row.toJson v ∧ v.IsFlat row.keys := by
  have hcells : ∀ c ∈ row.cells, ∃ v : String × Value,
      v.1 = c.1 ∧ Reads (readValue depth) c.2.toJson v.2 ∧ v.2.IsScalar := by
    intro c hc
    obtain ⟨v, hreads, hscalar⟩ := Cell.exists_scalar (h c hc) depth
    exact ⟨(c.1, v), rfl, hreads, hscalar⟩
  obtain ⟨members, hmembers⟩ := exists_forall₂ hcells
  refine ⟨.object members, reads_value_object ?_, members, rfl, ?_, fun m hm => ?_⟩
  · rw [List.forall₂_map_left_iff]
    exact hmembers.imp fun c v hv => ⟨hv.1, hv.2.1⟩
  · rw [keys, ← List.forall₂_eq_eq_eq, List.forall₂_map_left_iff, List.forall₂_map_right_iff]
    exact hmembers.flip.imp fun v c hv => hv.1
  · obtain ⟨c, -, hv⟩ := exists_left_of_forall₂ hmembers hm
    exact hv.2.2

/-- The texts of finite rows are an array of objects with their keys, over numbers and texts. -/
theorem exists_flat_of_rows {rows : List Row} (h : ∀ row ∈ rows, row.IsFinite) (depth : Nat) :
    ∃ items, Reads (readValue (depth + 2)) (Json.ofItems (rows.map toJson)) (.array items) ∧
      List.Forall₂ (fun row item => item.IsFlat row.keys) rows items := by
  obtain ⟨items, hitems⟩ := exists_forall₂ fun row hrow => exists_flat (h row hrow) depth
  refine ⟨items, reads_value_array ?_, hitems.imp fun row item hitem => hitem.2⟩
  rw [List.forall₂_map_left_iff]
  exact hitems.imp fun row item hitem => hitem.1

/-! ## Rows as rows -/

/-- The row is read from the text of another: under the same keys, cell by cell. -/
def ReadFrom (row' row : Row) : Prop :=
  List.Forall₂ (fun c c' => c'.1 = c.1 ∧ Cell.ReadFrom c'.2 c.2) row.cells row'.cells

theorem exists_readFrom {row : Row} (h : row.IsFinite) : ∃ row' : Row, row'.ReadFrom row := by
  have hcells : ∀ c ∈ row.cells, ∃ c' : String × Cell, c'.1 = c.1 ∧ Cell.ReadFrom c'.2 c.2 := by
    intro c hc
    obtain ⟨v, hv⟩ := Cell.exists_readFrom (h c hc)
    exact ⟨(c.1, v), rfl, hv⟩
  obtain ⟨cells, hread⟩ := exists_forall₂ hcells
  exact ⟨⟨cells⟩, hread⟩

theorem foldl_push (cells : List (String × Cell)) (row : Row) :
    cells.foldl (fun row c => row.push c.1 c.2) row = ⟨row.cells ++ cells⟩ := by
  induction cells generalizing row with
  | nil => simp
  | cons c cells ih => rw [List.foldl_cons, ih, push, List.append_assoc, List.singleton_append]

theorem ReadFrom.reads {row' row : Row} (h : row'.ReadFrom row) (depth : Nat) :
    Reads (Row.read (depth + 1)) row.toJson row' := by
  have hmembers : List.Forall₂ (fun m c => c.1 = m.1 ∧ Reads (Cell.read depth) m.2 c.2)
      (row.cells.map fun c => (c.1, c.2.toJson)) row'.cells := by
    rw [List.forall₂_map_left_iff]
    exact h.imp fun c c' hc => ⟨hc.1, hc.2 depth⟩
  have hput := readsMembers_foldl push hmembers ⟨[]⟩
  rw [foldl_push, List.nil_append] at hput
  exact reads_map hput

/-- The row that is read counts as the same. -/
theorem ReadFrom.same {row' row : Row} (h : row'.ReadFrom row) (hfinite : row.IsFinite)
    (hback : ∀ c ∈ row.cells, ∀ x, c.2 = .number x → ¬IsShortWhole x → ReadsBack x) : row'.Same row := by
  obtain ⟨cells⟩ := row
  obtain ⟨cells'⟩ := row'
  unfold Same
  simp only [ReadFrom, IsFinite] at h hfinite hback ⊢
  induction h with
  | nil => rfl
  | @cons c c' cells cells' hc _ ih =>
    have hcell : c'.2.canonical = c.2.canonical := hc.2.same (hfinite c List.mem_cons_self) (hback c List.mem_cons_self)
    rw [List.map_cons, List.map_cons, hc.1, hcell, ih (fun d hd => hfinite d (List.mem_cons_of_mem _ hd))
      fun d hd => hback d (List.mem_cons_of_mem _ hd)]

/-- The texts of finite rows are read as rows that count as the same, if the numbers are read back. -/
theorem exists_same_rows {rows : List Row} (h : ∀ row ∈ rows, row.IsFinite)
    (hback : ∀ row ∈ rows, ∀ c ∈ row.cells, ∀ x, c.2 = .number x → ¬IsShortWhole x → ReadsBack x) (depth : Nat) :
    ∃ rows', Reads (readList Row.read (depth + 2)) (Json.ofItems (rows.map toJson)) rows' ∧
      List.Forall₂ Same rows' rows := by
  have hrows : ∀ row ∈ rows, ∃ row' : Row, row'.ReadFrom row ∧ row'.Same row := by
    intro row hrow
    obtain ⟨row', hread⟩ := exists_readFrom (h row hrow)
    exact ⟨row', hread, hread.same (h row hrow) (hback row hrow)⟩
  obtain ⟨rows', hrows'⟩ := exists_forall₂ hrows
  refine ⟨rows', reads_list ?_, hrows'.flip.imp fun row' row hrow => hrow.2⟩
  rw [List.forall₂_map_left_iff]
  exact hrows'.imp fun row row' hrow => hrow.1.reads depth

end Row

end SentenceQuery
