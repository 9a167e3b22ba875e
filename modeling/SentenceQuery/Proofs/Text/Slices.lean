import SentenceQuery.Text.Blank

/-!
# Slices of a text

A slice is cut out of a text by two byte offsets (`slice?`). There is one only where the offsets are in order, within the
text, and between characters of it; `slice?_eq_some` says what it holds. An offset between characters of a string is one that
is valid in the string (`isValid_iff`).
-/

namespace SentenceQuery

/-- The text without its first bytes, if these are whole characters of it. -/
def dropBytes? : Nat → List Char → Option (List Char)
  | 0, s => some s
  | _ + 1, [] => none
  | n + 1, c :: s => if c.utf8Size ≤ n + 1 then dropBytes? (n + 1 - c.utf8Size) s else none

/-- The first bytes of a text, if these are whole characters of it. -/
def takeBytes? : Nat → List Char → Option (List Char)
  | 0, _ => some []
  | _ + 1, [] => none
  | n + 1, c :: s => if c.utf8Size ≤ n + 1 then (takeBytes? (n + 1 - c.utf8Size) s).map (c :: ·) else none

/-- The text between two byte offsets. There is none where the range runs backwards or past the end of the text, or where
one of its ends falls inside a character. -/
def slice? (s : List Char) (i j : Nat) : Option (List Char) :=
  if i ≤ j then (dropBytes? i s).bind (takeBytes? (j - i)) else none

variable {s t : List Char} {n i j : Nat}

theorem byteSize_eq_zero : byteSize s = 0 ↔ s = [] := by
  cases s with
  | nil => simp
  | cons c s =>
    have hpos := Char.utf8Size_pos c
    simp only [byteSize_cons, reduceCtorEq, iff_false]
    omega

theorem dropBytes?_zero_eq_some : dropBytes? 0 s = some t ↔ ∃ u, s = u ++ t ∧ 0 = byteSize u := by
  simp only [dropBytes?, Option.some.injEq]
  constructor
  · rintro rfl
    exact ⟨[], rfl, rfl⟩
  · rintro ⟨u, hs, hu⟩
    rw [byteSize_eq_zero.1 hu.symm] at hs
    exact hs

theorem takeBytes?_zero_eq_some : takeBytes? 0 s = some t ↔ ∃ u, s = t ++ u ∧ 0 = byteSize t := by
  simp only [takeBytes?, Option.some.injEq]
  constructor
  · rintro rfl
    exact ⟨s, rfl, rfl⟩
  · rintro ⟨u, -, ht⟩
    exact (byteSize_eq_zero.1 ht.symm).symm

theorem dropBytes?_eq_some : dropBytes? n s = some t ↔ ∃ u, s = u ++ t ∧ n = byteSize u := by
  induction s generalizing n with
  | nil =>
    cases n with
    | zero => exact dropBytes?_zero_eq_some
    | succ n => simp [dropBytes?]
  | cons c s ih =>
    have hpos := Char.utf8Size_pos c
    cases n with
    | zero => exact dropBytes?_zero_eq_some
    | succ n =>
      simp only [dropBytes?, Option.ite_none_right_eq_some, ih]
      constructor
      · rintro ⟨hsize, u, rfl, hu⟩
        exact ⟨c :: u, rfl, by rw [byteSize_cons]; omega⟩
      · rintro ⟨u, hs, hu⟩
        cases u with
        | nil => cases hu
        | cons d u =>
          obtain ⟨rfl, rfl⟩ := List.cons.inj hs
          rw [byteSize_cons] at hu
          exact ⟨by omega, u, rfl, by omega⟩

theorem takeBytes?_eq_some : takeBytes? n s = some t ↔ ∃ u, s = t ++ u ∧ n = byteSize t := by
  induction s generalizing n t with
  | nil =>
    cases n with
    | zero => exact takeBytes?_zero_eq_some
    | succ n =>
      simp only [takeBytes?, reduceCtorEq, false_iff]
      rintro ⟨u, hs, ht⟩
      rw [(List.append_eq_nil_iff.1 hs.symm).1] at ht
      cases ht
  | cons c s ih =>
    have hpos := Char.utf8Size_pos c
    cases n with
    | zero => exact takeBytes?_zero_eq_some
    | succ n =>
      simp only [takeBytes?, Option.ite_none_right_eq_some, Option.map_eq_some_iff, ih]
      constructor
      · rintro ⟨hsize, t, ⟨u, rfl, ht⟩, rfl⟩
        exact ⟨u, rfl, by rw [byteSize_cons]; omega⟩
      · rintro ⟨u, hs, ht⟩
        cases t with
        | nil => cases ht
        | cons d t =>
          obtain ⟨rfl, rfl⟩ := List.cons.inj hs
          rw [byteSize_cons] at ht
          exact ⟨by omega, t, ⟨u, rfl, by omega⟩, rfl⟩

/-- A slice is the text between what stands before it and what stands behind it. -/
theorem slice?_eq_some :
    slice? s i j = some t ↔ ∃ u v, s = u ++ (t ++ v) ∧ i = byteSize u ∧ j = byteSize u + byteSize t := by
  simp only [slice?, Option.ite_none_right_eq_some, Option.bind_eq_some_iff, dropBytes?_eq_some, takeBytes?_eq_some]
  constructor
  · rintro ⟨hle, _, ⟨u, rfl, rfl⟩, v, rfl, ht⟩
    exact ⟨u, v, rfl, rfl, by omega⟩
  · rintro ⟨u, v, rfl, rfl, rfl⟩
    exact ⟨Nat.le_add_right _ _, _, ⟨u, rfl, rfl⟩, v, rfl, Nat.add_sub_cancel_left _ _⟩

theorem slice?_append (u t v : List Char) : slice? (u ++ (t ++ v)) (byteSize u) (byteSize u + byteSize t) = some t :=
  slice?_eq_some.2 ⟨u, v, rfl, rfl, rfl⟩

/-! ## Offsets in a string -/

theorem utf8ByteSize_ofList (s : List Char) : (String.ofList s).utf8ByteSize = byteSize s := by
  induction s with
  | nil => rfl
  | cons c s ih =>
    rw [← List.singleton_append, String.ofList_append, String.utf8ByteSize_append, ih]
    have hsingle : (String.ofList [c]).utf8ByteSize = c.utf8Size := String.utf8ByteSize_singleton
    rw [hsingle]
    rfl

/-- An offset is valid in a string if it is the size of what stands before it. -/
theorem isValid_iff {sentence : String} :
    (⟨n⟩ : String.Pos.Raw).IsValid sentence ↔ ∃ u t, sentence.toList = u ++ t ∧ n = byteSize u := by
  rw [String.Pos.Raw.isValid_iff_exists_append]
  constructor
  · rintro ⟨u, t, rfl, hn⟩
    refine ⟨u.toList, t.toList, String.toList_append, ?_⟩
    have hsize := utf8ByteSize_ofList u.toList
    rw [String.ofList_toList] at hsize
    rw [← hsize]
    exact congrArg String.Pos.Raw.byteIdx hn
  · rintro ⟨u, t, hs, rfl⟩
    refine ⟨String.ofList u, String.ofList t, ?_, ?_⟩
    · rw [← String.ofList_append, ← hs, String.ofList_toList]
    · rw [String.rawEndPos, utf8ByteSize_ofList]

end SentenceQuery
