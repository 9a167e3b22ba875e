import SentenceQuery.Proofs.Table.RowText

/-!
# The text of a row keeps the row

A row with finite numbers is read back from its text, and so is what was read from any text. The row that comes back has the
same keys in the same order, repeated ones included, over cells that count as the same, and it has the same text
(`Row.exists_readsBackAs`). As for plans, what is assumed of the reader of numbers is said of the numbers of the row only, and
not of whole ones below 2^63.
-/

namespace SentenceQuery

open Json

namespace Row

variable {row row' : Row}

/-! ## Rows that count as the same -/

/-- Rows that count as the same have the same keys, in the same order. -/
theorem Same.keys_eq (h : row'.Same row) : row'.keys = row.keys := by
  have hkeys : ∀ r : Row, r.keys = (r.cells.map fun c => (c.1, c.2.canonical)).map Prod.fst := by
    intro r
    rw [List.map_map]
    rfl
  rw [hkeys, hkeys, h]

/-- Rows that count as the same have one text. -/
theorem Same.toJson_eq (h : row'.Same row) : row'.toJson = row.toJson := by
  have htext : ∀ r : Row,
      r.toJson = ofMembers ((r.cells.map fun c => (c.1, c.2.canonical)).map fun c => (c.1, c.2.toJson)) := by
    intro r
    simp only [toJson, List.map_map, Function.comp_def, Cell.toJson_canonical]
  rw [htext, htext, h]

/-! ## Numbers of a row -/

/-- The numbers in the cells of a row. -/
def numbers (row : Row) : List Binary64 := row.cells.filterMap fun c => c.2.number?

theorem mem_numbers {x : Binary64} : x ∈ row.numbers ↔ ∃ c ∈ row.cells, c.2 = .number x := by
  simp only [numbers, List.mem_filterMap, Cell.number?_eq_some]

/-- A row that is read has finite numbers. -/
theorem isFinite_of_read {depth : Nat} {s s' : List Char} (h : Row.read depth s = .ok (row, s')) : row.IsFinite := by
  refine readMap_keeps (K := Row.IsFinite) (fun depth r key s r' s' hr hmember => ?_) (by simp [IsFinite]) h
  obtain ⟨⟨cell, s₁⟩, hcell, hpush⟩ := bind_eq_ok.1 hmember
  cases hpush
  intro c hc
  rcases List.mem_append.1 hc with hc | hc
  · exact hr c hc
  · rw [List.mem_singleton.1 hc]
    exact Cell.isFinite_of_read hcell

theorem isFinite_of_ofJson {text : String} (h : Row.ofJson text = .ok row) : row.IsFinite := by
  obtain ⟨rest, hread, -⟩ := readWholeText_eq_ok.1 h
  exact isFinite_of_read hread

/-! ## Reading back -/

/-- What is read back from the text of a row: a row that counts as the same and is written as the same text. -/
structure ReadsBackAs (row row' : Row) : Prop where
  reads : Row.ofJson (String.ofList row.toJson) = .ok row'
  same : row'.Same row
  keys_eq : row'.keys = row.keys
  length_eq : row'.cells.length = row.cells.length
  toJson_eq : row'.toJson = row.toJson

theorem exists_readsBackAs_of_isFinite (hfinite : row.IsFinite)
    (hback : ∀ x ∈ row.numbers, ¬IsShortWhole x → ReadsBack x) : ∃ row', row.ReadsBackAs row' := by
  obtain ⟨row', hread⟩ := exists_readFrom hfinite
  have hreads : Row.ofJson (String.ofList row.toJson) = .ok row' := by
    rw [Row.ofJson, String.toList_ofList]
    exact (hread.reads 126).wholeText
  have hsame : row'.Same row := hread.same hfinite fun c hc x hvalue => hback x (mem_numbers.2 ⟨c, hc, hvalue⟩)
  have hlength : row'.keys.length = row.keys.length := congrArg List.length hsame.keys_eq
  exact ⟨row', hreads, hsame, hsame.keys_eq, by simpa [keys] using hlength, hsame.toJson_eq⟩

/-- The text of a row is lossless. Every row with finite numbers is read back from it, and so is every row that was read from a
text, in whatever form that was; its numbers are finite of themselves. -/
theorem exists_readsBackAs :
    (∀ row : Row, (∀ x ∈ row.numbers, x.isFinite = true) → (∀ x ∈ row.numbers, ¬IsShortWhole x → ReadsBack x) →
      ∃ row', row.ReadsBackAs row') ∧
    (∀ (text : String) (row : Row), Row.ofJson text = .ok row → (∀ x ∈ row.numbers, ¬IsShortWhole x → ReadsBack x) →
      ∃ row', row.ReadsBackAs row') := by
  refine ⟨fun row hfinite hback => exists_readsBackAs_of_isFinite (fun c hc x hvalue => ?_) hback,
    fun text row hread hback => exists_readsBackAs_of_isFinite (isFinite_of_ofJson hread) hback⟩
  exact hfinite x (mem_numbers.2 ⟨c, hc, hvalue⟩)

/-- A row with an empty key that comes twice, a key that is not ASCII and one of a line end, over a fraction, a text that has to
be escaped, a negative zero and a number beyond 2^63; and a row that is read from a text with blanks, an escaped key and numbers
in other forms. -/
theorem exists_readsBackAs_every_cell :
    (∃ row row' : Row,
      row = ⟨[("", .number (.ofDecimal false ⟨975, -1⟩)), ("é", .text "a\"b\\\n"), ("\n", .number (.ofDecimal true ⟨0, 0⟩)),
        ("", .number (.ofDecimal false ⟨1, 19⟩))]⟩ ∧
      row.ReadsBackAs row') ∧
    (∃ row row' : Row,
      Row.ofJson " \x7b \"b\" : 9.750e1, \"\\u0061\":\"x\" ,\"b\": -0.0 \x7d" = .ok row ∧ row.ReadsBackAs row') := by
  obtain ⟨row', hrow'⟩ := exists_readsBackAs.1
    ⟨[("", .number (.ofDecimal false ⟨975, -1⟩)), ("é", .text "a\"b\\\n"), ("\n", .number (.ofDecimal true ⟨0, 0⟩)),
      ("", .number (.ofDecimal false ⟨1, 19⟩))]⟩
    (by decide +kernel) (by decide +kernel)
  have htext : Row.ofJson " \x7b \"b\" : 9.750e1, \"\\u0061\":\"x\" ,\"b\": -0.0 \x7d" =
      .ok ⟨[("b", .number (.ofDecimal false ⟨975, -1⟩)), ("a", .text "x"), ("b", .number (.ofDecimal true ⟨0, 0⟩))]⟩ := by
    decide +kernel
  obtain ⟨row'', hrow''⟩ := exists_readsBackAs.2 _ _ htext (by decide +kernel)
  exact ⟨⟨_, row', rfl, hrow'⟩, ⟨_, row'', htext, hrow''⟩⟩

end Row

end SentenceQuery
