import SentenceQuery.Proofs.Json.Kept
import SentenceQuery.Proofs.Query.PlanText

/-!
# The canonical text keeps the plan

A plan whose numbers are finite is read back from its canonical text, and so is what was read from any text. The plan that comes
back counts as the same and has the same canonical text (`Plan.ofJson_toJson`). A whole number below 2^63 is written as an integer and always
comes back; that the text of any other finite number is read back as that number is assumed of the reader of numbers, for the numbers
of the plan only.
-/

namespace SentenceQuery

open Json

/-! ## Plans that count as the same -/

theorem Cell.number?_eq_some {c : Cell} {x : Binary64} : c.number? = some x ↔ c = .number x := by
  cases c <;> simp [number?]

/-- The representative of a criterion among those whose values count as the same. -/
def Criterion.canonical (c : Criterion) : Criterion := { c with value := c.value.canonical }

namespace Plan

/-- The representative of a plan among those that count as the same. -/
def canonical (p : Plan) : Plan := { p with criteria := p.criteria.map Criterion.canonical }

/-- Two plans count as the same: they are equal but for the values of their criteria, and those count as the same. -/
def Same (p q : Plan) : Prop := p.canonical = q.canonical

instance (p q : Plan) : Decidable (p.Same q) := inferInstanceAs (Decidable (_ = _))

/-- The numbers that a plan compares with. -/
def numbers (p : Plan) : List Binary64 := p.criteria.filterMap fun c => c.value.number?

theorem mem_numbers {p : Plan} {x : Binary64} : x ∈ p.numbers ↔ ∃ c ∈ p.criteria, c.value = .number x := by
  simp only [numbers, List.mem_filterMap, Cell.number?_eq_some]

end Plan

theorem ofNumber_of_isZero {x : Binary64} (h : x.code = 0) : ofNumber x = ['0'] := by
  have hfinite : x.isFinite = true := by
    rw [Binary64.isFinite, h]
    decide
  have hwhole : x.wholeMagnitude? = some 0 := by simp [Binary64.wholeMagnitude?, hfinite, h, Binary64.units]
  simp [ofNumber, Binary64.compactText?, hfinite, hwhole]

/-- Cells that count as the same are written in the same way. -/
theorem Cell.toJson_canonical (c : Cell) : c.canonical.toJson = c.toJson := by
  cases c with
  | text s => rfl
  | number x =>
    show ofNumber x.canonical = ofNumber x
    unfold Binary64.canonical
    split
    · rename_i hzero
      rw [ofNumber_of_isZero (of_decide_eq_true hzero), ofNumber_of_isZero rfl]
    · split
      · rename_i hnan
        have hlt : Binary64.infinityCode < x.code := of_decide_eq_true hnan
        have hfinite : x.isFinite = false := decide_eq_false (by omega)
        rw [ofNumber_of_not_finite hfinite, ofNumber_of_not_finite (by decide)]
      · rfl

theorem Criterion.toJson_canonical (c : Criterion) : c.canonical.toJson = c.toJson := by
  unfold Criterion.toJson Criterion.canonical
  rw [Cell.toJson_canonical]

theorem Plan.toJson_canonical (p : Plan) : p.canonical.toJson = p.toJson := by
  have hcriteria : listMember "criteria" Criterion.toJson (p.criteria.map Criterion.canonical) =
      listMember "criteria" Criterion.toJson p.criteria := by
    cases p.criteria with
    | nil => rfl
    | cons c cs => simp [listMember, Function.comp_def, Criterion.toJson_canonical]
  unfold Plan.toJson Plan.canonical
  dsimp only
  rw [hcriteria]

/-- Plans that count as the same have one canonical text. -/
theorem Plan.Same.toJson_eq {p q : Plan} (h : p.Same q) : p.toJson = q.toJson := by
  rw [← p.toJson_canonical, ← q.toJson_canonical, h]

/-! ## What is read is finite -/

/-- The cell is not an infinity or a NaN. -/
def Cell.IsFinite (c : Cell) : Prop := ∀ x, c = .number x → x.isFinite = true

theorem Cell.isFinite_of_read {depth : Nat} {s s' : List Char} {c : Cell} (h : Cell.read depth s = .ok (c, s')) :
    c.IsFinite := by
  rw [Cell.read, bind_eq_ok] at h
  obtain ⟨⟨v, s₁⟩, hread, hresult⟩ := h
  rintro x rfl
  cases v with
  | number y =>
    cases hresult
    exact isFinite_of_readValue hread
  | _ => cases hresult

/-- What is read once is what its reader reads. -/
theorem readOnce_eq_ok {α : Type} {current : Option α} {value : Reader α} {s : List Char} {r : α × List Char}
    (h : readOnce current value s = .ok r) : value s = .ok r := by
  unfold readOnce at h
  split at h
  · cases h
  · exact h

theorem Criterion.isFinite_of_read {depth : Nat} {s s' : List Char} {c : Criterion}
    (h : Criterion.read depth s = .ok (c, s')) : c.value.IsFinite := by
  rw [Criterion.read, bind_eq_ok] at h
  obtain ⟨⟨d, s₁⟩, hdraft, hresult⟩ := h
  have hkeeps : ∀ v, d.value = some v → v.IsFinite := by
    refine readFields_keeps (K := fun d : CriterionDraft => ∀ v, d.value = some v → v.IsFinite) ?_ (by simp) hdraft
    intro depth acc key s acc' s' hacc hfield
    unfold CriterionDraft.readField at hfield
    split at hfield
    · obtain ⟨_, -, hset⟩ := bind_eq_ok.1 hfield
      cases hset
      exact hacc
    · split at hfield
      · obtain ⟨_, -, hset⟩ := bind_eq_ok.1 hfield
        cases hset
        exact hacc
      · split at hfield
        · obtain ⟨⟨v, s₂⟩, hvalue, hset⟩ := bind_eq_ok.1 hfield
          cases hset
          intro w hw
          cases hw
          exact Cell.isFinite_of_read (readOnce_eq_ok hvalue)
        · obtain ⟨_, -, hset⟩ := bind_eq_ok.1 hfield
          cases hset
          exact hacc
  dsimp only at hresult
  simp only [bind_eq_ok] at hresult
  obtain ⟨_, -, _, -, v, hv, hc⟩ := hresult
  cases hc
  cases hvalue : d.value with
  | none =>
    rw [hvalue] at hv
    cases hv
  | some w =>
    rw [hvalue] at hv
    cases hv
    exact hkeeps _ hvalue

/-- The criteria that are read so far compare with no infinity and no NaN. -/
def PlanDraft.IsFinite (d : PlanDraft) : Prop := ∀ cs, d.criteria = some cs → ∀ c ∈ cs, c.value.IsFinite

theorem PlanDraft.isFinite_readField {depth : Nat} {d d' : PlanDraft} {key : String} {s s' : List Char}
    (hd : d.IsFinite) (h : PlanDraft.readField depth d key s = .ok (d', s')) : d'.IsFinite := by
  unfold PlanDraft.readField at h
  by_cases hkey : key = "criteria"
  · subst hkey
    rw [if_neg (by decide), if_neg (by decide), if_pos rfl] at h
    obtain ⟨⟨cs, s₁⟩, hread, hset⟩ := bind_eq_ok.1 h
    cases hset
    intro cs' hcs'
    cases hcs'
    exact readList_forall (P := fun c : Criterion => c.value.IsFinite)
      (fun depth s v s' hv => Criterion.isFinite_of_read hv) (readOnce_eq_ok hread)
  · -- every other field leaves the criteria as they are
    rw [if_neg hkey] at h
    split_ifs at h
    all_goals
      obtain ⟨_, -, hset⟩ := bind_eq_ok.1 h
      cases hset
      exact hd

/-- The numbers of a plan that was read are finite. -/
theorem Plan.isFinite_of_ofJson {text : String} {p : Plan} (h : Plan.ofJson text = .ok p) :
    ∀ x ∈ p.numbers, x.isFinite = true := by
  obtain ⟨rest, hread, -⟩ := readWholeText_eq_ok.1 h
  rw [Plan.read, bind_eq_ok] at hread
  obtain ⟨⟨d, s⟩, hdraft, hplan⟩ := hread
  have hd : d.IsFinite := readFields_keeps (K := PlanDraft.IsFinite)
    (fun _ _ _ _ _ _ hacc hfield => PlanDraft.isFinite_readField hacc hfield)
    (by simp [PlanDraft.IsFinite, PlanDraft.empty]) hdraft
  dsimp only at hplan
  obtain ⟨_, htoPlan, hresult⟩ := bind_eq_ok.1 hplan
  cases hresult
  have hcriteria : p.criteria = d.criteria.getD [] := by
    unfold PlanDraft.toPlan at htoPlan
    simp only [bind_eq_ok] at htoPlan
    obtain ⟨_, -, _, -, _, -, heq⟩ := htoPlan
    cases heq
    rfl
  intro x hx
  obtain ⟨c, hc, hvalue⟩ := mem_numbers.1 hx
  rw [hcriteria] at hc
  cases hcs : d.criteria with
  | none =>
    rw [hcs] at hc
    cases hc
  | some cs =>
    rw [hcs] at hc
    exact hd cs hcs c hc x hvalue

/-! ## Reading back -/

/-- The number is read back from its text. -/
def Json.ReadsBack (x : Binary64) : Prop := readNumber (ofNumber x) = .ok (x, [])

instance (x : Binary64) : Decidable (ReadsBack x) := inferInstanceAs (Decidable (_ = _))

theorem Cell.ReadFrom.unique {v w c : Cell} (hv : v.ReadFrom c) (hw : w.ReadFrom c) : v = w := (hv 0).inj (hw 0)

theorem Cell.exists_readFrom {c : Cell} (hfinite : c.IsFinite) : ∃ v : Cell, v.ReadFrom c := by
  cases c with
  | text s => exact ⟨.text s, Cell.readFrom_text s⟩
  | number x =>
    obtain ⟨y, hreads⟩ := exists_reads_number (hfinite x rfl)
    exact ⟨.number y, Cell.readFrom_number (hfinite x rfl) hreads⟩

/-- The cell that is read counts as the same. -/
theorem Cell.ReadFrom.same {v c : Cell} (hv : v.ReadFrom c) (hfinite : c.IsFinite)
    (hback : ∀ x, c = .number x → ¬IsShortWhole x → ReadsBack x) : v.Same c := by
  cases c with
  | text s =>
    obtain rfl := hv.unique (Cell.readFrom_text s)
    rfl
  | number x =>
    have hx := hfinite x rfl
    by_cases hwhole : IsShortWhole x
    · obtain ⟨y, hreads, hsame⟩ := reads_whole hx hwhole
      obtain rfl := hv.unique (Cell.readFrom_number hx hreads)
      exact congrArg Cell.number hsame
    · obtain ⟨y, hreads⟩ := exists_reads_number hx
      obtain rfl := hv.unique (Cell.readFrom_number hx hreads)
      have hread := hreads.eq_ok
      rw [hback x rfl hwhole, Except.ok.injEq, Prod.mk.injEq] at hread
      obtain ⟨rfl, -⟩ := hread
      rfl

theorem exists_readFrom_criteria (criteria : List Criterion) (h : ∀ c ∈ criteria, c.value.IsFinite) :
    ∃ criteria', List.Forall₂ (fun c c' => Criterion.ReadFrom c' c) criteria criteria' := by
  refine exists_forall₂ fun c hc => ?_
  obtain ⟨v, hv⟩ := Cell.exists_readFrom (h c hc)
  exact ⟨{ c with value := v }, v, hv, rfl⟩

/-- The criteria that are read count as the same if their values do. -/
theorem canonical_of_readFrom {criteria criteria' : List Criterion}
    (hread : List.Forall₂ (fun c c' => Criterion.ReadFrom c' c) criteria criteria')
    (h : ∀ c ∈ criteria, ∀ v : Cell, v.ReadFrom c.value → v.Same c.value) :
    criteria'.map Criterion.canonical = criteria.map Criterion.canonical := by
  induction hread with
  | nil => rfl
  | @cons c _ criteria criteria' hc _ ih =>
    obtain ⟨v, hv, rfl⟩ := hc
    have hcell : v.canonical = c.value.canonical := h c List.mem_cons_self v hv
    rw [List.map_cons, List.map_cons, ih fun d hd => h d (List.mem_cons_of_mem _ hd)]
    simp [Criterion.canonical, hcell]

namespace Plan

theorem isFinite_value {p : Plan} (hp : ∀ x ∈ p.numbers, x.isFinite = true) {c : Criterion} (hc : c ∈ p.criteria) :
    c.value.IsFinite := fun x hx => hp x (mem_numbers.2 ⟨c, hc, hx⟩)

/-- The canonical text of a plan with finite numbers is read as a plan that differs in the values of its criteria at most, and those
are read from theirs. -/
theorem exists_ofJson_toJson {p : Plan} (hp : ∀ x ∈ p.numbers, x.isFinite = true) :
    ∃ criteria, List.Forall₂ (fun c c' => Criterion.ReadFrom c' c) p.criteria criteria ∧
      Plan.ofJson (String.ofList p.toJson) = .ok { p with criteria := criteria } := by
  obtain ⟨criteria, hread⟩ := exists_readFrom_criteria p.criteria fun _ hc => isFinite_value hp hc
  refine ⟨criteria, hread, ?_⟩
  rw [Plan.ofJson, String.toList_ofList]
  exact (Plan.reads_toJson hread 123).wholeText

theorem exists_same_of_toJson {p : Plan} (hfinite : ∀ x ∈ p.numbers, x.isFinite = true)
    (hback : ∀ x ∈ p.numbers, ¬IsShortWhole x → ReadsBack x) :
    ∃ q, Plan.ofJson (String.ofList p.toJson) = .ok q ∧ q.Same p ∧ q.toJson = p.toJson := by
  obtain ⟨criteria, hread, htext⟩ := exists_ofJson_toJson hfinite
  have hcanonical := canonical_of_readFrom hread fun c hc v hv =>
    hv.same (isFinite_value hfinite hc) fun x hx => hback x (mem_numbers.2 ⟨c, hc, hx⟩)
  have hsame : Plan.Same { p with criteria := criteria } p := by
    unfold Plan.Same Plan.canonical
    dsimp only
    rw [hcanonical]
  exact ⟨_, htext, hsame, hsame.toJson_eq⟩

end Plan

/-- The canonical text is lossless. Every plan with finite numbers is read back from it as a plan that counts as the same and has the
same canonical text. So is every plan that was read from a text, in whatever form that was; its numbers are finite of
themselves. -/
theorem Plan.ofJson_toJson :
    (∀ p : Plan, (∀ x ∈ p.numbers, x.isFinite = true) → (∀ x ∈ p.numbers, ¬IsShortWhole x → ReadsBack x) →
      ∃ q, Plan.ofJson (String.ofList p.toJson) = .ok q ∧ q.Same p ∧ q.toJson = p.toJson) ∧
    (∀ (text : String) (p : Plan), Plan.ofJson text = .ok p → (∀ x ∈ p.numbers, ¬IsShortWhole x → ReadsBack x) →
      ∃ q, Plan.ofJson (String.ofList p.toJson) = .ok q ∧ q.Same p ∧ q.toJson = p.toJson) :=
  ⟨fun _ hfinite hback => Plan.exists_same_of_toJson hfinite hback,
    fun _ _ hread hback => Plan.exists_same_of_toJson (Plan.isFinite_of_ofJson hread) hback⟩

/-- A plan with a decimal number, a negative zero and a text that has to be escaped; and a plan that is read from an array with
blanks. -/
theorem Plan.ofJson_toJson_every_value :
    (∃ p q : Plan,
      p = ⟨.courses, "sfu",
        [⟨"avg", .number .lessThan, .number (.ofDecimal false ⟨975, -1⟩), some .or⟩,
          ⟨"fail", .number .equalTo, .number (.ofDecimal true ⟨0, 0⟩), some .and⟩,
          ⟨"title", .text .is, .text "a\\b\n", none⟩],
        ["dept"], ["dept"], [], .unsorted, some (NameSet.ofNames ["dept"])⟩ ∧
      Plan.ofJson (String.ofList p.toJson) = .ok q ∧ q.Same p ∧ q.toJson = p.toJson) ∧
    (∃ p q : Plan,
      Plan.ofJson ("[\"courses\", \"sfu\", [[\"avg\", [\"Numeric\", \"LessThan\"], 9.75e1, null]], [\"avg\"], [], [], " ++
        "[\"ascending\", []], null ]") = .ok p ∧
      Plan.ofJson (String.ofList p.toJson) = .ok q ∧ q.Same p ∧ q.toJson = p.toJson) := by
  obtain ⟨q, hq⟩ := Plan.ofJson_toJson.1
    ⟨.courses, "sfu",
      [⟨"avg", .number .lessThan, .number (.ofDecimal false ⟨975, -1⟩), some .or⟩,
        ⟨"fail", .number .equalTo, .number (.ofDecimal true ⟨0, 0⟩), some .and⟩,
        ⟨"title", .text .is, .text "a\\b\n", none⟩],
      ["dept"], ["dept"], [], .unsorted, some (NameSet.ofNames ["dept"])⟩
    (by decide +kernel) (by decide +kernel)
  have htext : Plan.ofJson ("[\"courses\", \"sfu\", [[\"avg\", [\"Numeric\", \"LessThan\"], 9.75e1, null]], [\"avg\"], [], [], " ++
      "[\"ascending\", []], null ]") = .ok ⟨.courses, "sfu",
        [⟨"avg", .number .lessThan, .number (.ofDecimal false ⟨975, -1⟩), none⟩], ["avg"], [], [], .unsorted, none⟩ := by
    decide +kernel
  obtain ⟨r, hr⟩ := Plan.ofJson_toJson.2 _ _ htext (by decide +kernel)
  exact ⟨⟨_, q, rfl, hq⟩, ⟨_, r, htext, hr⟩⟩

end SentenceQuery
