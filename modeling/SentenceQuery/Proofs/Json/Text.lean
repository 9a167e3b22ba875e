import SentenceQuery.Json.Scalar
import SentenceQuery.Json.Writer

/-!
# Texts that are written and read

Every character of a text is written so that it is read back, whatever follows it (`readStringBody_escapeChar`); so a text is
read back, and passed over, whatever it holds.
-/

namespace SentenceQuery.Json

/-- A text behind its opening quote, with the closing quote. -/
def quotedBody (s : String) : List Char := s.toList.flatMap escapeChar ++ ['"']

theorem ofString_eq (s : String) : ofString s = '"' :: quotedBody s := rfl

theorem hexDigit_digitChar : ∀ n < 16, hexDigit? (Nat.digitChar n) = some n := by decide

theorem hex4_digitChar {n : Nat} (h : n < 0x20) :
    hex4? '0' '0' (Nat.digitChar (n / 16)) (Nat.digitChar (n % 16)) = some n := by
  have hzero : hexDigit? '0' = some 0 := rfl
  have hhigh := hexDigit_digitChar (n / 16) (by omega)
  have hlow := hexDigit_digitChar (n % 16) (by omega)
  simp only [hex4?, hzero, hhigh, hlow, Option.bind_eq_bind, Option.bind_some, Option.pure_def, Option.some.injEq]
  omega

/-- A control character is escaped by a letter that stands for it or by its number. -/
theorem escapeChar_control {c : Char} (hquote : c ≠ '"') (hslash : c ≠ '\\') (h : c.toNat < 0x20) :
    (∃ letter ∈ ['b', 't', 'n', 'f', 'r'], escapeChar c = ['\\', letter] ∧ escaped? letter = some c) ∨
      escapeChar c = ['\\', 'u', '0', '0', Nat.digitChar (c.toNat / 16), Nat.digitChar (c.toNat % 16)] := by
  have hc : Char.ofNat c.toNat = c := Char.ofNat_toNat c
  rw [escapeChar, if_neg hquote, if_neg hslash, if_pos h]
  split <;> rename_i hn
  · rw [hn] at hc
    exact .inl ⟨'b', by decide, rfl, congrArg some hc⟩
  · rw [hn] at hc
    exact .inl ⟨'t', by decide, rfl, congrArg some hc⟩
  · rw [hn] at hc
    exact .inl ⟨'n', by decide, rfl, congrArg some hc⟩
  · rw [hn] at hc
    exact .inl ⟨'f', by decide, rfl, congrArg some hc⟩
  · rw [hn] at hc
    exact .inl ⟨'r', by decide, rfl, congrArg some hc⟩
  · exact .inr rfl

theorem readStringBody_letter {letter c : Char} (hne : letter ≠ 'u') (h : escaped? letter = some c) (rest : List Char) :
    readStringBody ('\\' :: letter :: rest) = prependChar c (readStringBody rest) ∧
      skipStringBody ('\\' :: letter :: rest) = skipStringBody rest := by
  constructor
  · simp [readStringBody, hne, h]
  · simp [skipStringBody, hne, h]

theorem readStringBody_number {a b c d : Char} {n : Nat} (h : hex4? a b c d = some n) (hsmall : n < 0x20) (rest : List Char) :
    readStringBody ('\\' :: 'u' :: a :: b :: c :: d :: rest) = prependChar (Char.ofNat n) (readStringBody rest) ∧
      skipStringBody ('\\' :: 'u' :: a :: b :: c :: d :: rest) = skipStringBody rest := by
  have hleading : isLeading n = false := by
    simp only [isLeading, Bool.and_eq_false_iff, decide_eq_false_iff_not]
    omega
  have htrailing : isTrailing n = false := by
    simp only [isTrailing, Bool.and_eq_false_iff, decide_eq_false_iff_not]
    omega
  constructor
  · simp [readStringBody, h, hleading, htrailing]
  · simp [skipStringBody, h]

theorem escapeChar_of_plain {c : Char} (hquote : c ≠ '"') (hslash : c ≠ '\\') (hcontrol : ¬c.toNat < 0x20) :
    escapeChar c = [c] := by
  simp [escapeChar, hquote, hslash, hcontrol]

/-- A character is read back from how it is written. -/
theorem readStringBody_escapeChar (c : Char) (rest : List Char) :
    readStringBody (escapeChar c ++ rest) = prependChar c (readStringBody rest) ∧
      skipStringBody (escapeChar c ++ rest) = skipStringBody rest := by
  by_cases hquote : c = '"'
  · subst hquote
    exact ⟨rfl, rfl⟩
  by_cases hslash : c = '\\'
  · subst hslash
    exact ⟨rfl, rfl⟩
  by_cases hcontrol : c.toNat < 0x20
  · obtain ⟨letter, hmem, htext, hletter⟩ | htext := escapeChar_control hquote hslash hcontrol
    · rw [htext]
      refine readStringBody_letter ?_ hletter rest
      rintro rfl
      exact absurd hmem (by decide)
    · rw [htext]
      have h := readStringBody_number (hex4_digitChar hcontrol) hcontrol rest
      rwa [Char.ofNat_toNat] at h
  · rw [escapeChar_of_plain hquote hslash hcontrol, List.singleton_append]
    constructor
    · simp [readStringBody, hslash, hcontrol]
    · simp [skipStringBody, hslash, hcontrol]

theorem readStringBody_flatMap (s rest : List Char) :
    readStringBody (s.flatMap escapeChar ++ '"' :: rest) = .ok (s, rest) ∧
      skipStringBody (s.flatMap escapeChar ++ '"' :: rest) = .ok ((), rest) := by
  induction s with
  | nil => exact ⟨rfl, rfl⟩
  | cons c s ih =>
    rw [List.flatMap_cons, List.append_assoc, (readStringBody_escapeChar c _).1, (readStringBody_escapeChar c _).2, ih.1]
    exact ⟨rfl, ih.2⟩

/-- A text is read back. -/
theorem readKey_quotedBody (s : String) (rest : List Char) : readKey (quotedBody s ++ rest) = .ok (s, rest) := by
  rw [readKey, quotedBody, List.append_assoc, List.singleton_append, (readStringBody_flatMap _ _).1]
  exact congrArg Except.ok (Prod.ext String.ofList_toList rfl)

/-- A text is passed over. -/
theorem skipStringBody_quotedBody (s : String) (rest : List Char) :
    skipStringBody (quotedBody s ++ rest) = .ok ((), rest) := by
  rw [quotedBody, List.append_assoc, List.singleton_append, (readStringBody_flatMap _ _).2]

/-- Two texts with what follows them are the same only if the texts are. -/
theorem quotedBody_append_inj {s t : String} {r u : List Char} (h : quotedBody s ++ r = quotedBody t ++ u) :
    s = t ∧ r = u := by
  have hs := readKey_quotedBody s r
  rw [h, readKey_quotedBody t u, Except.ok.injEq, Prod.mk.injEq] at hs
  exact ⟨hs.1.symm, hs.2.symm⟩

theorem ofString_injective {s t : String} (h : ofString s = ofString t) : s = t := by
  rw [ofString_eq, ofString_eq, List.cons.injEq] at h
  exact (quotedBody_append_inj (r := []) (u := []) (by simpa using h.2)).1

end SentenceQuery.Json
