import SentenceQuery.Proofs.Grammar.ClauseParts
import SentenceQuery.Proofs.Names
import SentenceQuery.Proofs.Sentence.Criterion

/-!
# The grammar and the tables

Each rule leaves one node with all the parts that are read off it, and a node of an operator, an aggregate, a direction or a
number has a text that the table, or the reader of numbers, accepts. So it is for every match of every rule at any place
(`complete_of_run`): what one way to put patterns together leaves is said once, and each rule is put together of these.
-/

namespace SentenceQuery

open Grammar Pattern

/-! ## Complete nodes -/

/-- The rule leaves no node. -/
def Rule.isSilent : Rule → Bool
  | .blank | .ws | .sp | .identChar | .word | .reserved | .listSep | .quoted => true
  | _ => false

/-- The rules of the nodes within a node of a rule. -/
def Rule.HasParts : Rule → List Rule → Prop
  | .fieldList, parts => parts ≠ [] ∧ ∀ r ∈ parts, r = .field
  | .datasetClause, parts => parts = [.kind, .datasetId]
  | .groupClause, parts | .displayClause, parts => parts = [.fieldList]
  | .filterClause, parts => parts = [.findAll] ∨ parts = [.findWhose]
  | .findWhose, parts => parts = [.criteriaText]
  | .applyClause, parts => parts ≠ [] ∧ ∀ r ∈ parts, r = .applyDef
  | .applyDef, parts => parts = [.ident, .aggregate, .field]
  | .sortClause, parts => parts = [.direction, .fieldList]
  | .finish, parts => parts = [.endOfText]
  | .operator, parts => parts = [.numericOp] ∨ parts = [.stringOp]
  | .literal, parts => parts = [.number] ∨ parts = [.string] ∨ parts = [.raw]
  | .criterion, parts => parts = [.field, .operator, .literal, .endOfText]
  | _, parts => parts = []

/-- What the text of a node of a rule stands for: an entry of a table, or a number. -/
def Rule.Accepts : Rule → List Char → Prop
  | .operator, t => ∃ op, Operator.ofPhrase (String.ofList t) = .ok op
  | .aggregate, t => ∃ op, Aggregate.ofName (String.ofList t) = .ok op
  | .direction, t => ∃ d, Direction.ofWord? (String.ofList t) = some d
  | .number, t => ∃ x, Binary64.ofText? t = some x
  | _, _ => True

/-- The node and all within it have the parts that are read off them, and texts that stand for something. -/
inductive Node.Complete : Node Rule → Prop where
  | mk {n : Node Rule} (parts : n.rule.HasParts (n.inner.map Node.rule)) (accepts : n.rule.Accepts n.text)
      (inner : ∀ m ∈ n.inner, Complete m) : Complete n

/-- Wherever the pattern matches, it leaves complete nodes, and what holds of their rules. -/
abbrev LeavesRules (p : Pattern Rule) (parts : List Rule → Prop) : Prop :=
  Leaves p fun ns => parts (ns.map Node.rule) ∧ ∀ n ∈ ns, n.Complete

/-! ## Patterns put together -/

section Combine

variable {p q : Pattern Rule} {r : Rule} {rs : List Rule} {P Q : List Rule → Prop}

theorem LeavesRules.cons (hp : LeavesRules p (· = [r])) (hq : LeavesRules q (· = rs)) :
    LeavesRules (seq p q) (· = r :: rs) := by
  intro offset s o h
  obtain ⟨one, two, hone, htwo, rfl⟩ := run_seq_eq_some.1 h
  obtain ⟨hparts, hcomplete⟩ := hp hone
  obtain ⟨hparts', hcomplete'⟩ := hq htwo
  refine ⟨?_, List.forall_mem_append.2 ⟨hcomplete, hcomplete'⟩⟩
  simp only [List.map_append, hparts, hparts', List.singleton_append]

/-- A part, the blanks after it, and the parts behind it. -/
theorem LeavesRules.next (hp : LeavesRules p (· = [r])) (hq : LeavesRules q (· = rs)) :
    LeavesRules (seq p (seq ws q)) (· = r :: rs) :=
  hp.cons (silent_ws.before hq)

/-- What stands behind a pattern and leaves nothing. -/
theorem LeavesRules.behind (hp : LeavesRules p P) (hq : Silent q) : LeavesRules (seq p q) P := by
  intro offset s o h
  obtain ⟨one, two, hone, htwo, rfl⟩ := run_seq_eq_some.1 h
  have hnodes := hp hone
  simpa [hq htwo] using hnodes

theorem LeavesRules.afterWord (word : String) (hp : LeavesRules p P) : LeavesRules (seq (text word) (seq ws p)) P :=
  (silent_text word).before (silent_ws.before hp)

theorem LeavesRules.afterMark (mark : String) (hp : LeavesRules p P) : LeavesRules (seq (text mark) (seq sp p)) P :=
  (silent_text mark).before (silent_sp.before hp)

theorem LeavesRules.or (hp : LeavesRules p P) (hq : LeavesRules q Q) :
    LeavesRules (choice p q) fun parts => P parts ∨ Q parts := by
  intro offset s o h
  rcases run_choice_eq_some.1 h with h | ⟨-, h⟩
  · exact ⟨Or.inl (hp h).1, (hp h).2⟩
  · exact ⟨Or.inr (hq h).1, (hq h).2⟩

theorem leavesRules_token (hparts : r.HasParts [])
    (haccepts : ∀ {offset s o}, p.run offset s = some o → r.Accepts o.text) : LeavesRules (token r p) (· = [r]) := by
  intro offset s o h
  obtain ⟨one, hone, rfl⟩ := run_token_eq_some.1 h
  refine ⟨rfl, fun n hn => ?_⟩
  rw [List.mem_singleton.1 hn]
  exact .mk hparts (haccepts hone) fun m hm => absurd hm List.not_mem_nil

theorem leavesRules_node (hp : LeavesRules p P) (hparts : ∀ parts, P parts → r.HasParts parts)
    (haccepts : ∀ {offset s o}, p.run offset s = some o → r.Accepts o.text) :
    LeavesRules (node r p) (· = [r]) := by
  intro offset s o h
  obtain ⟨one, hone, rfl⟩ := run_node_eq_some.1 h
  refine ⟨rfl, fun n hn => ?_⟩
  rw [List.mem_singleton.1 hn]
  exact .mk (hparts _ (hp hone).1) (haccepts hone) (hp hone).2

/-- A list leaves a node of its members' rule for each of them. -/
theorem leavesRules_listOf (hp : LeavesRules p (· = [r])) :
    LeavesRules (listOf p) fun parts => parts ≠ [] ∧ ∀ r' ∈ parts, r' = r := by
  have hitem : LeavesOne p fun n => n.rule = r ∧ n.Complete := by
    intro offset s o h
    obtain ⟨hparts, hcomplete⟩ := hp h
    obtain ⟨n, hn, hrule⟩ := List.map_eq_singleton_iff.1 hparts
    exact ⟨n, hn, hrule, hcomplete n (by rw [hn]; exact List.mem_singleton_self n)⟩
  refine (leaves_listOf hitem).imp fun ns h => ⟨⟨by simpa using h.1, fun r' hr' => ?_⟩, fun n hn => (h.2 n hn).2⟩
  obtain ⟨n, hn, rfl⟩ := List.mem_map.1 hr'
  exact (h.2 n hn).1

end Combine

/-! ## Names and words of tables -/

theorem leavesRules_field : LeavesRules field (· = [.field]) := leavesRules_token rfl fun _ => trivial

theorem leavesRules_aggregate : LeavesRules aggregate (· = [.aggregate]) := by
  refine leavesRules_token rfl fun h => ?_
  obtain ⟨name, hname, _, -, -, rfl⟩ := (run_oneOf_eq_some isVocabulary_aggregates).1 h
  obtain ⟨op, -, rfl⟩ := List.mem_map.1 hname
  refine ⟨op, ?_⟩
  simp only [String.ofList_toList, Aggregate.ofName, Aggregate.ofName?_name]

theorem leavesRules_direction : LeavesRules direction (· = [.direction]) := by
  refine leavesRules_token rfl fun h => ?_
  obtain ⟨word, hword, _, -, -, rfl⟩ := (run_oneOf_eq_some isVocabulary_directions).1 h
  obtain ⟨d, -, rfl⟩ := List.mem_map.1 hword
  exact ⟨d, by rw [String.ofList_toList, Direction.ofWord?_word]⟩

theorem leavesRules_number : LeavesRules number (· = [.number]) := by
  intro offset s o h
  obtain ⟨n, hn, rfl, rfl⟩ := run_number_eq_some.1 h
  refine ⟨rfl, fun m hm => ?_⟩
  rw [List.mem_singleton.1 hm]
  exact .mk rfl ⟨n.value, ofText?_text hn⟩ fun m hm => absurd hm List.not_mem_nil

theorem leavesRules_operator : LeavesRules operator (· = [.operator]) := by
  have hnumeric : LeavesRules numericOp (· = [.numericOp]) := leavesRules_token rfl fun _ => trivial
  have hstring : LeavesRules stringOp (· = [.stringOp]) := leavesRules_token rfl fun _ => trivial
  refine leavesRules_node (hnumeric.or hstring) (fun _ h => h) fun {offset s o} h => ?_
  have hrun : operator.run offset s = _ := run_node_eq_some.2 ⟨o, h, rfl⟩
  obtain ⟨op, _, _, -, ho⟩ := run_operator_eq_some hrun
  have htext : o.text = op.phrase.toList := congrArg Outcome.text ho
  exact ⟨op, by rw [htext, String.ofList_toList, ofPhrase_phrase]⟩

/-! ## Clauses -/

theorem leavesRules_fieldList : LeavesRules fieldList (· = [.fieldList]) :=
  leavesRules_node (leavesRules_listOf leavesRules_field) (fun _ h => h) fun _ => trivial

theorem leavesRules_datasetClause : LeavesRules datasetClause (· = [.datasetClause]) := by
  have hkind : LeavesRules kind (· = [.kind]) := leavesRules_token rfl fun _ => trivial
  have hid : LeavesRules datasetId (· = [.datasetId]) := leavesRules_token rfl fun _ => trivial
  have hbody := (hkind.next (hid.afterWord "dataset")).afterWord "In"
  exact leavesRules_node hbody (fun _ h => h) fun _ => trivial

theorem leavesRules_groupClause : LeavesRules groupClause (· = [.groupClause]) := by
  have hbody := (leavesRules_fieldList.afterWord "by").afterWord "grouped"
  exact leavesRules_node hbody (fun _ h => h) fun _ => trivial

theorem leavesRules_displayClause : LeavesRules displayClause (· = [.displayClause]) :=
  leavesRules_node (leavesRules_fieldList.afterWord "show") (fun _ h => h) fun _ => trivial

theorem leavesRules_findAll : LeavesRules findAll (· = [.findAll]) := by
  have hwords : LeavesRules (text "entries") (· = []) := (silent_text "entries").imp fun ns h => by simp [h]
  exact leavesRules_node ((hwords.afterWord "all").afterWord "find") (fun _ h => h) fun _ => trivial

theorem leavesRules_findWhose : LeavesRules findWhose (· = [.findWhose]) := by
  have hcriteria : LeavesRules criteriaText (· = [.criteriaText]) := leavesRules_token rfl fun _ => trivial
  have hbody := ((hcriteria.afterWord "whose").afterWord "entries").afterWord "find"
  exact leavesRules_node hbody (fun _ h => h) fun _ => trivial

theorem leavesRules_filterClause : LeavesRules filterClause (· = [.filterClause]) := by
  have hend : Silent (seq sp (text ";")) := silent_sp.before (silent_text ";")
  have hbody := ((leavesRules_findAll.or leavesRules_findWhose).behind hend).afterMark ","
  exact leavesRules_node hbody (fun _ h => h) fun _ => trivial

theorem leavesRules_applyDef : LeavesRules applyDef (· = [.applyDef]) := by
  have hname : LeavesRules ident (· = [.ident]) := leavesRules_token rfl fun _ => trivial
  have hbehind := ((leavesRules_aggregate.next (leavesRules_field.afterWord "of")).afterWord "the").afterWord "is"
  exact leavesRules_node (hname.next hbehind) (fun _ h => h) fun _ => trivial

theorem leavesRules_applyClause : LeavesRules applyClause (· = [.applyClause]) := by
  have hbody := ((leavesRules_listOf leavesRules_applyDef).afterWord "where").afterMark ","
  exact leavesRules_node hbody (fun _ h => h) fun _ => trivial

theorem leavesRules_sortClause : LeavesRules sortClause (· = [.sortClause]) := by
  have hbehind := leavesRules_direction.next ((leavesRules_fieldList.afterWord "by").afterWord "order")
  have hbody := ((hbehind.afterWord "in").afterWord "sort").afterMark ";"
  exact leavesRules_node hbody (fun _ h => h) fun _ => trivial

theorem leavesRules_endOfText : LeavesRules endOfText (· = [.endOfText]) :=
  leavesRules_token rfl fun _ => trivial

theorem leavesRules_finish : LeavesRules Grammar.finish (· = [.finish]) :=
  leavesRules_node (leavesRules_endOfText.afterMark ".") (fun _ h => h) fun _ => trivial

/-! ## One criterion -/

theorem leavesRules_literal : LeavesRules Grammar.literal (· = [.literal]) := by
  have hstring : LeavesRules string (· = [.string]) := leavesRules_token rfl fun _ => trivial
  have hraw : LeavesRules raw (· = [.raw]) := leavesRules_token rfl fun _ => trivial
  exact leavesRules_node (leavesRules_number.or (hstring.or hraw)) (fun _ h => h) fun _ => trivial

theorem leavesRules_criterion : LeavesRules criterion (· = [.criterion]) := by
  have hbody := leavesRules_field.next (leavesRules_operator.next (leavesRules_literal.cons leavesRules_endOfText))
  exact leavesRules_node hbody (fun _ h => h) fun _ => trivial

/-! ## Every rule -/

/-- Every rule that leaves nodes leaves one, which is complete. -/
theorem leavesRules_pattern {r : Rule} (hr : r.isSilent = false) : LeavesRules r.pattern (· = [r]) := by
  cases r with
  | blank | ws | sp | identChar | word | reserved | listSep | quoted => cases hr
  | ident => exact leavesRules_token rfl fun _ => trivial
  | field => exact leavesRules_field
  | fieldList => exact leavesRules_fieldList
  | kind => exact leavesRules_token rfl fun _ => trivial
  | datasetId => exact leavesRules_token rfl fun _ => trivial
  | datasetClause => exact leavesRules_datasetClause
  | groupClause => exact leavesRules_groupClause
  | criteriaText => exact leavesRules_token rfl fun _ => trivial
  | findAll => exact leavesRules_findAll
  | findWhose => exact leavesRules_findWhose
  | filterClause => exact leavesRules_filterClause
  | displayClause => exact leavesRules_displayClause
  | aggregate => exact leavesRules_aggregate
  | applyDef => exact leavesRules_applyDef
  | applyClause => exact leavesRules_applyClause
  | direction => exact leavesRules_direction
  | sortClause => exact leavesRules_sortClause
  | finish => exact leavesRules_finish
  | numericOp => exact leavesRules_token rfl fun _ => trivial
  | stringOp => exact leavesRules_token rfl fun _ => trivial
  | operator => exact leavesRules_operator
  | number => exact leavesRules_number
  | string => exact leavesRules_token rfl fun _ => trivial
  | raw => exact leavesRules_token rfl fun _ => trivial
  | literal => exact leavesRules_literal
  | criterion => exact leavesRules_criterion
  | endOfText => exact leavesRules_endOfText

/-- The node of a rule has all the text that the rule takes. -/
theorem text_of_run {r : Rule} (hr : r.isSilent = false) {offset : Nat} {s : List Char} {o : Outcome Rule}
    (h : r.pattern.run offset s = some o) : ∀ n ∈ o.nodes, n.text = o.text := by
  cases r with
  | blank | ws | sp | identChar | word | reserved | listSep | quoted => cases hr
  | fieldList | datasetClause | groupClause | findAll | findWhose | filterClause | displayClause | applyDef | applyClause
  | sortClause | finish | operator | literal | criterion =>
    obtain ⟨_, _, rfl⟩ := run_node_eq_some.1 h
    intro n hn
    rw [List.mem_singleton.1 hn]
  | ident | field | kind | datasetId | criteriaText | aggregate | direction | numericOp | stringOp | number | string | raw
  | endOfText =>
    obtain ⟨_, _, rfl⟩ := run_token_eq_some.1 h
    intro n hn
    rw [List.mem_singleton.1 hn]

/-- A rule that matches leaves one node, of all the text that it takes, and the node is complete. -/
theorem complete_of_run {r : Rule} (hr : r.isSilent = false) {offset : Nat} {s : List Char} {o : Outcome Rule}
    (h : r.pattern.run offset s = some o) :
    ∃ n, o.nodes = [n] ∧ n.rule = r ∧ n.text = o.text ∧ n.Complete := by
  obtain ⟨hparts, hcomplete⟩ := leavesRules_pattern hr h
  obtain ⟨n, hn, hrule⟩ := List.map_eq_singleton_iff.1 hparts
  have hmem : n ∈ o.nodes := by rw [hn]; exact List.mem_singleton_self n
  exact ⟨n, hn, hrule, text_of_run hr h n hmem, hcomplete n hmem⟩

end SentenceQuery
