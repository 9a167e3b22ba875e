import Mathlib.Data.List.Forall2
import SentenceQuery.Proofs.Grammar.Names

/-!
# Lists

The members of a list stand between commas or the word `and`, with blanks beside a comma and around the word. `ListText` says
how a list may be written, whatever its members are; a list that is written so is read member by member (`run_listOf`), if what
follows it does not go on with a further member.
-/

namespace SentenceQuery

namespace Grammar

open Pattern

/-- What may stand between the members of a list. -/
inductive Separator : List Char → Prop where
  | comma {g h : List Char} (hg : Over isGap g) (hh : Over isGap h) : Separator (g ++ ',' :: h)
  | and {g h : List Char} (hg : Over isGap g) (hne : g ≠ []) (hh : Over isGap h) (hne' : h ≠ []) :
      Separator (g ++ ("and".toList ++ h))

/-- How a list may be written, given how its members may be. -/
inductive ListText {α : Type} (member : α → List Char → Prop) : List α → List Char → Prop where
  | last {a : α} {t : List Char} (h : member a t) : ListText member [a] t
  | more {a : α} {as : List α} {t sep rest : List Char} (h : member a t) (hsep : Separator sep)
      (hrest : ListText member as rest) : ListText member (a :: as) (t ++ (sep ++ rest))

/-- What is so of every member of a list may be said of it. -/
theorem ListText.imp {α : Type} {member member' : α → List Char → Prop} {as : List α} {t : List Char}
    (h : ListText member as t) (himp : ∀ a ∈ as, ∀ t, member a t → member' a t) : ListText member' as t := by
  induction h with
  | last h => exact ListText.last (himp _ List.mem_cons_self _ h)
  | more h hsep _ ih =>
    exact ListText.more (himp _ List.mem_cons_self _ h) hsep (ih fun b hb => himp b (List.mem_cons_of_mem _ hb))

theorem Separator.ne_nil {sep : List Char} (h : Separator sep) : sep ≠ [] := by
  cases h <;> simp

/-- A separator is read whole where no further blank follows it. -/
theorem run_listSep_append {sep r : List Char} (h : Separator sep) (hr : Stops isGap r) (offset : Nat) :
    listSep.run offset (sep ++ r) = some ⟨sep, [], r⟩ := by
  simp only [listSep, run_choice_eq_some, Pattern.all, run_seq_eq_some]
  cases h with
  | @comma g h hg hh =>
    have hfirst := run_sp_append hg (stops_cons.2 (by decide) : Stops isGap (',' :: h ++ r)) offset
    have hcomma : (text "," : Pattern Rule).run (offset + byteSize g) (',' :: h ++ r) = some ⟨[','], [], h ++ r⟩ :=
      run_text_eq_some.2 ⟨h ++ r, rfl, rfl⟩
    have hlast := run_sp_append hh hr (offset + byteSize g + byteSize [','])
    exact Or.inl ⟨_, _, by simpa using hfirst, ⟨_, _, hcomma, hlast, rfl⟩, by simp⟩
  | @and g h hg hne hh hne' =>
    have hstops : Stops isGap ("and".toList ++ h ++ r) := stops_cons.2 (by decide)
    have hnone : (seq sp (seq (text ",") sp)).run offset (g ++ ("and".toList ++ h) ++ r) = none := by
      cases hrun : (seq sp (seq (text ",") sp)).run offset (g ++ ("and".toList ++ h) ++ r) with
      | none => rfl
      | some o =>
        obtain ⟨one, two, hone, htwo, -⟩ := run_seq_eq_some.1 hrun
        obtain ⟨_, _, hcomma, -, -⟩ := run_seq_eq_some.1 htwo
        rw [List.append_assoc, run_sp_append hg hstops, Option.some.injEq] at hone
        subst hone
        obtain ⟨x, hx, -⟩ := run_text_eq_some.1 hcomma
        simp at hx
    have hfirst := run_ws_append hne hg hstops offset
    have hand : (text "and" : Pattern Rule).run (offset + byteSize g) ("and".toList ++ h ++ r) =
        some ⟨"and".toList, [], h ++ r⟩ := run_text_eq_some.2 ⟨h ++ r, by simp, rfl⟩
    have hlast := run_ws_append hne' hh hr (offset + byteSize g + byteSize "and".toList)
    exact Or.inr ⟨hnone, _, _, by simpa using hfirst, ⟨_, _, hand, hlast, rfl⟩, by simp⟩

theorem run_listSep_eq_some {offset : Nat} {s : List Char} {o : Outcome Rule} :
    listSep.run offset s = some o ↔ ∃ sep r, s = sep ++ r ∧ Separator sep ∧ Stops isGap r ∧ o = ⟨sep, [], r⟩ := by
  constructor
  · intro hrun
    simp only [listSep, run_choice_eq_some, Pattern.all, run_seq_eq_some, run_text_eq_some, run_ws_eq_some] at hrun
    rcases hrun with ⟨_, _, h₁, ⟨_, _, ⟨s₁, hs₁, rfl⟩, h₂, rfl⟩, rfl⟩ |
      ⟨-, _, _, ⟨g, s₁, rfl, hne, hg, -, rfl⟩, ⟨_, _, ⟨s₂, hs₂, rfl⟩, ⟨h, r, hs₃, hne', hh, hr, rfl⟩, rfl⟩, rfl⟩
    · rw [run_sp, Option.some.injEq] at h₁ h₂
      subst h₁ h₂
      simp only at hs₁ ⊢
      have hsplit : s.takeWhile isGap ++ s.dropWhile isGap = s := List.takeWhile_append_dropWhile
      rw [hs₁] at hsplit
      exact ⟨s.takeWhile isGap ++ ',' :: s₁.takeWhile isGap, s₁.dropWhile isGap, hsplit.symm.trans (by simp),
        Separator.comma (over_takeWhile _) (over_takeWhile _), stops_dropWhile _, by simp⟩
    · simp only at hs₂ hs₃
      subst hs₂ hs₃
      exact ⟨g ++ ("and".toList ++ h), r, by simp, Separator.and hg hne hh hne', hr, by simp⟩
  · rintro ⟨sep, r, rfl, hsep, hr, rfl⟩
    exact run_listSep_append hsep hr offset

/-- A column's name ends where no character of a word comes, and no capital letter after a space. -/
theorem fieldEnds_of_stops {r : List Char} (h : Stops isWordChar r)
    (hspace : ∀ r', r = ' ' :: r' → Stops Char.isUpper r') : FieldEnds r := by
  refine ⟨h, ?_⟩
  rintro w r' hr ⟨hname, hupper⟩ -
  cases w with
  | nil => exact hname.1.1 rfl
  | cons c w =>
    have hfalse := hspace (c :: w ++ r') hr c rfl
    rw [hupper c rfl] at hfalse
    cases hfalse

/-- After blanks a name does not go on with a character that is no capital letter. -/
theorem fieldEnds_blank_append {u r : List Char} (hu : Over isBlank u) (hr : Stops Char.isUpper r)
    (hnil : u = [] → Stops isWordChar r ∧ Stops isBlank r) : FieldEnds (u ++ r) := by
  cases u with
  | nil =>
    obtain ⟨hw, hblank⟩ := hnil rfl
    refine fieldEnds_of_stops hw ?_
    rintro r' hspace
    rw [List.nil_append] at hspace
    rw [hspace, stops_cons] at hblank
    exact absurd hblank (by decide)
  | cons c u =>
    obtain ⟨hc, hu⟩ := over_cons.1 hu
    refine fieldEnds_of_stops (stops_cons.2 (not_isWordChar_of_isBlank hc)) ?_
    rintro r' hspace
    obtain ⟨-, rfl⟩ := List.cons.inj hspace
    cases u with
    | nil => exact hr
    | cons d u =>
      have hd := not_isWordChar_of_isBlank (over_cons.1 hu).1
      exact stops_cons.2 (not_isUpper_of_not_isWordChar hd)

theorem Separator.fieldEnds_append {sep : List Char} (h : Separator sep) (r : List Char) : FieldEnds (sep ++ r) := by
  cases h with
  | @comma g h hg _ =>
    rw [List.append_assoc]
    exact fieldEnds_blank_append (over_isBlank_of_isGap hg) (stops_cons.2 (by decide))
      fun _ => ⟨stops_cons.2 (by decide), stops_cons.2 (by decide)⟩
  | @and g h hg hne _ _ =>
    rw [List.append_assoc]
    exact fieldEnds_blank_append (over_isBlank_of_isGap hg) (stops_cons.2 (by decide)) fun hnil => absurd hnil hne

/-! ## Reading lists -/

/-- The pattern of a list of members. -/
def listOf (item : Pattern Rule) : Pattern Rule := seq item (many (seq listSep item))

/-- A list does not go on here: a member's last name ends, and no separator with a member follows. -/
def ListEnds (item : Pattern Rule) (r : List Char) : Prop :=
  FieldEnds r ∧ ∀ offset, (seq listSep item).run offset r = none

/-- After its blanks a separator starts with a comma, and what follows the comma is then fixed, or with a letter. -/
theorem Separator.first {sep u r s : List Char} {c : Char} (h : Separator sep) (hu : Over isBlank u)
    (hc : isBlank c = false) (heq : u ++ c :: s = sep ++ r) :
    (c = ',' ∧ ∃ g, Over isGap g ∧ s = g ++ r) ∨ c = 'a' := by
  cases h with
  | @comma g h hg hh =>
    rw [List.append_assoc, List.cons_append] at heq
    obtain ⟨-, heq⟩ := span_unique heq hu (stops_cons.2 hc) (over_isBlank_of_isGap hg) (stops_cons.2 (by decide))
    obtain ⟨rfl, rfl⟩ := List.cons.inj heq
    exact Or.inl ⟨rfl, h, hh, rfl⟩
  | @and g h hg _ _ _ =>
    rw [List.append_assoc, List.append_assoc] at heq
    obtain ⟨-, heq⟩ := span_unique heq hu (stops_cons.2 hc) (over_isBlank_of_isGap hg) (stops_cons.2 (by decide))
    obtain ⟨rfl, -⟩ := List.cons.inj heq
    exact Or.inr rfl

/-- A list ends before a character that is neither a comma nor part of a word. -/
theorem listEnds_mark {item : Pattern Rule} {u s : List Char} {c : Char} (hu : Over isBlank u)
    (hblank : isBlank c = false) (hword : isWordChar c = false) (hcomma : c ≠ ',') : ListEnds item (u ++ c :: s) := by
  have hupper := not_isUpper_of_not_isWordChar hword
  refine ⟨fieldEnds_blank_append hu (stops_cons.2 hupper) fun _ => ⟨stops_cons.2 hword, stops_cons.2 hblank⟩, ?_⟩
  intro offset
  cases hrun : (seq listSep item).run offset (u ++ c :: s) with
  | none => rfl
  | some o =>
    obtain ⟨one, _, hone, -, -⟩ := run_seq_eq_some.1 hrun
    obtain ⟨sep, r, heq, hsep, hr, -⟩ := run_listSep_eq_some.1 hone
    rcases hsep.first hu hblank heq with ⟨rfl, -⟩ | rfl
    · exact absurd rfl hcomma
    · exact absurd hword (by decide)

/-- A list ends before a comma that no member follows. -/
theorem listEnds_comma {item : Pattern Rule} {u g s : List Char} (hu : Over isBlank u) (hg : Over isGap g)
    (hs : Stops isGap s) (hitem : ∀ offset, item.run offset s = none) : ListEnds item (u ++ ',' :: (g ++ s)) := by
  refine ⟨fieldEnds_blank_append hu (stops_cons.2 (by decide))
    fun _ => ⟨stops_cons.2 (by decide), stops_cons.2 (by decide)⟩, ?_⟩
  intro offset
  cases hrun : (seq listSep item).run offset (u ++ ',' :: (g ++ s)) with
  | none => rfl
  | some o =>
    obtain ⟨one, two, hone, htwo, -⟩ := run_seq_eq_some.1 hrun
    obtain ⟨sep, r, heq, hsep, hr, rfl⟩ := run_listSep_eq_some.1 hone
    rcases hsep.first hu (by decide) heq with ⟨-, g', hg', heq'⟩ | habsurd
    · obtain ⟨-, rfl⟩ := span_unique heq' hg hs hg' hr
      rw [hitem] at htwo
      cases htwo
    · exact absurd habsurd (by decide)

theorem run_listOf_last {item : Pattern Rule} {offset : Nat} {t r : List Char} {n : Node Rule}
    (h : item.run offset (t ++ r) = some ⟨t, [n], r⟩) (hr : ListEnds item r) :
    (listOf item).run offset (t ++ r) = some ⟨t, [n], r⟩ := by
  refine run_seq_eq_some.2 ⟨_, ⟨[], [], r⟩, h, run_many_eq_some.2 (Repeated.stop fun one hone => ?_), by simp⟩
  rw [hr.2] at hone
  cases hone

theorem run_listOf_more {item : Pattern Rule} {offset : Nat} {t sep s : List Char} {n : Node Rule} {o : Outcome Rule}
    (h : item.run offset (t ++ (sep ++ s)) = some ⟨t, [n], sep ++ s⟩) (hsep : Separator sep) (hs : Stops isGap s)
    (hrest : (listOf item).run (offset + byteSize (t ++ sep)) s = some o) :
    (listOf item).run offset (t ++ (sep ++ s)) = some ⟨t ++ (sep ++ o.text), n :: o.nodes, o.rest⟩ := by
  obtain ⟨one, two, hone, htwo, rfl⟩ := run_seq_eq_some.1 hrest
  have hstep : (seq listSep item).run (offset + byteSize t) (sep ++ s) =
      some ⟨sep ++ one.text, one.nodes, one.rest⟩ := by
    refine run_seq_eq_some.2 ⟨_, one, run_listSep_append hsep hs _, ?_, by simp⟩
    simpa [Nat.add_assoc] using hone
  have hmore : Repeated (seq listSep item).run (offset + byteSize t + byteSize (sep ++ one.text)) one.rest two := by
    rw [run_many_eq_some] at htwo
    simpa [Nat.add_assoc] using htwo
  refine run_seq_eq_some.2 ⟨_, _, h, run_many_eq_some.2 (Repeated.more hstep ?_ hmore), by simp⟩
  simp [hsep.ne_nil]

/-- A list starts as its first member does. -/
theorem ListText.stops_isGap {α : Type} {member : α → List Char → Prop}
    (hstart : ∀ a t, member a t → t ≠ [] ∧ Stops isGap t) {as : List α} {t : List Char} (h : ListText member as t)
    (s : List Char) : Stops isGap (t ++ s) := by
  cases h with
  | last h => exact (stops_append (hstart _ _ h).1).2 (hstart _ _ h).2
  | more h _ _ =>
    rw [List.append_assoc]
    exact (stops_append (hstart _ _ h).1).2 (hstart _ _ h).2

/-- A list is read member by member, if each member is read wherever a list may go on or end behind it. -/
theorem run_listOf {α : Type} {member : α → List Char → Prop} {item : Pattern Rule} {reads : α → Node Rule → Prop}
    (hstart : ∀ a t, member a t → t ≠ [] ∧ Stops isGap t)
    (hitem : ∀ a t r offset, member a t → FieldEnds r → ∃ n, item.run offset (t ++ r) = some ⟨t, [n], r⟩ ∧ reads a n)
    {as : List α} {t r : List Char} (h : ListText member as t) (hr : ListEnds item r) (offset : Nat) :
    ∃ ns, (listOf item).run offset (t ++ r) = some ⟨t, ns, r⟩ ∧ List.Forall₂ reads as ns := by
  induction h generalizing offset with
  | @last a t h =>
    obtain ⟨n, hrun, hn⟩ := hitem a t r offset h hr.1
    exact ⟨[n], run_listOf_last hrun hr, List.Forall₂.cons hn List.Forall₂.nil⟩
  | @more a as t sep rest h hsep hrest ih =>
    obtain ⟨ns, hns, hall⟩ := ih (offset + byteSize (t ++ sep))
    obtain ⟨n, hrun, hn⟩ := hitem a t (sep ++ (rest ++ r)) offset h (hsep.fieldEnds_append _)
    refine ⟨n :: ns, ?_, List.Forall₂.cons hn hall⟩
    simpa using run_listOf_more hrun hsep (hrest.stops_isGap hstart r) hns

end Grammar

end SentenceQuery
