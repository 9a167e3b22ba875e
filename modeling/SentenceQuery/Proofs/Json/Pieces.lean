import SentenceQuery.Proofs.Json.NumberText

/-!
# Values as they are written

A written value is passed over just up to its end (`IsValue`), so it ends in one place only, whatever stands behind it
(`IsValue.append_inj`). Hence an array is the text of one list of items and an object that of one list of members
(`ofItems_inj`, `ofMembers_inj`).
-/

namespace SentenceQuery.Json

/-- The text is a value: it is passed over, with fuel for its length. -/
def IsValue (text : List Char) : Prop := ∀ fuel, text.length ≤ fuel → Reads (skipNested fuel) text ()

/-! ## What is a value -/

theorem isValue_ofString (s : String) : IsValue (ofString s) := by
  refine fun fuel _ => ⟨startsValue_cons.2 (by decide), fun rest _ => ?_⟩
  rw [ofString_eq, List.cons_append, skipNested, skipSpace_cons (by decide)]
  exact skipStringBody_quotedBody s rest

theorem skipNested_of_startsNumber {c : Char} (h : startsNumber c = true) (fuel : Nat) (r : List Char) :
    skipNested fuel (c :: r) = (do let (_, s) ← readNumberText (c :: r); .ok ((), s)) := by
  obtain ⟨c', r', heq, hspace, -⟩ := startsValue_of_startsNumber h r
  cases heq
  rw [skipNested, skipSpace_cons hspace]
  split
  · rename_i heq
    cases heq
  · rename_i heq
    cases heq
    exact absurd h (by decide)
  · rename_i heq
    cases heq
    exact absurd h (by decide)
  · rename_i heq
    cases heq
    exact absurd h (by decide)
  · rename_i heq
    cases heq
    rw [if_pos h]

theorem isValue_written {t : NumberText} (h : t.WellFormed) : IsValue t.written := by
  have hreads := reads_numberText h
  refine fun fuel _ => ⟨hreads.starts, fun rest hrest => ?_⟩
  obtain ⟨c, r, hwritten, hc⟩ := h.exists_cons
  have hread := hreads.reads rest hrest
  rw [hwritten, List.cons_append] at hread ⊢
  rw [skipNested_of_startsNumber hc, hread]
  rfl

theorem isValue_null : IsValue ['n', 'u', 'l', 'l'] := by
  refine fun fuel _ => ⟨startsValue_cons.2 (by decide), fun rest _ => ?_⟩
  rw [List.cons_append, skipNested, skipSpace_cons (by decide)]
  rfl

/-- Every number is written as a value, one that is not finite as null. -/
theorem isValue_ofNumber (x : Binary64) : IsValue (ofNumber x) := by
  cases h : x.isFinite with
  | true =>
    obtain ⟨t, ht⟩ := exists_numberText h
    rw [ht.written]
    exact isValue_written ht.wellFormed
  | false =>
    rw [ofNumber_of_not_finite h]
    exact isValue_null

theorem length_le_of_mem_commaSeparated {pieces : List (List Char)} {piece : List Char} (h : piece ∈ pieces) :
    piece.length ≤ (commaSeparated pieces).length := by
  fun_induction commaSeparated pieces with
  | case1 => simp at h
  | case2 first => rw [List.mem_singleton.1 h]
  | case3 first rest _ ih =>
    rw [List.length_append, List.length_cons]
    rcases List.mem_cons.1 h with rfl | hrest
    · omega
    · have := ih hrest
      omega

theorem isValue_ofItems {texts : List (List Char)} (h : ∀ text ∈ texts, IsValue text) : IsValue (ofItems texts) := by
  intro fuel hfuel
  refine ⟨startsValue_cons.2 (by decide), fun rest _ => ?_⟩
  rw [ofItems, List.length_cons, List.length_append] at hfuel
  obtain ⟨fuel, rfl⟩ : ∃ n, fuel = n + 1 := ⟨fuel - 1, by omega⟩
  have hitems : ReadsItems (fun _ => skipNested fuel) () texts () := by
    have hread : ∀ text ∈ texts, Reads (skipNested fuel) text () := fun text htext =>
      h text htext fuel (by have := length_le_of_mem_commaSeparated htext; omega)
    clear h hfuel
    induction texts with
    | nil => exact ReadsItems.nil ()
    | cons text texts ih =>
      exact ReadsItems.cons (hread text List.mem_cons_self) (ih fun t ht => hread t (List.mem_cons_of_mem _ ht))
  rw [ofItems, List.cons_append, skipNested, skipSpace_cons (by decide), List.append_assoc, List.singleton_append]
  exact readArray_commaSeparated hitems rest

theorem isValue_ofMembers {members : List (String × List Char)} (h : ∀ m ∈ members, IsValue m.2) :
    IsValue (ofMembers members) := by
  intro fuel hfuel
  refine ⟨startsValue_cons.2 (by decide), fun rest _ => ?_⟩
  rw [ofMembers, List.length_cons, List.length_append] at hfuel
  obtain ⟨fuel, rfl⟩ : ∃ n, fuel = n + 1 := ⟨fuel - 1, by omega⟩
  have hmembers : ReadsMembers (fun _ => ()) (fun _ _ => skipNested fuel) () members () := by
    have hread : ∀ m ∈ members, Reads (skipNested fuel) m.2 () := fun m hm => by
      have hlength := length_le_of_mem_commaSeparated (List.mem_map_of_mem (f := fun m => member m.1 m.2) hm)
      rw [member, List.length_append, List.length_cons] at hlength
      exact h m hm fuel (by omega)
    clear h hfuel
    induction members with
    | nil => exact ReadsMembers.nil ()
    | cons m members ih =>
      exact ReadsMembers.cons (hread m List.mem_cons_self) (ih fun n hn => hread n (List.mem_cons_of_mem _ hn))
  rw [ofMembers, List.cons_append, skipNested, skipSpace_cons (by decide), List.append_assoc, List.singleton_append]
  exact readObject_commaSeparated skipStringBody_quotedBody hmembers rest

theorem isValue_ofStrings (names : List String) : IsValue (ofStrings names) :=
  isValue_ofItems (List.forall_mem_map.2 fun name _ => isValue_ofString name)

/-! ## A value ends in one place -/

theorem IsValue.starts {text : List Char} (h : IsValue text) : StartsValue text := (h text.length (Nat.le_refl _)).starts

/-- Two values, each with a delimiter behind it, make one text only if they are the same. -/
theorem IsValue.append_inj {v w r u : List Char} (hv : IsValue v) (hw : IsValue w) (hr : Delimited r) (hu : Delimited u)
    (h : v ++ r = w ++ u) : v = w ∧ r = u := by
  have hread := (hv (max v.length w.length) (Nat.le_max_left _ _)).reads r hr
  rw [h, (hw (max v.length w.length) (Nat.le_max_right _ _)).reads u hu, Except.ok.injEq, Prod.mk.injEq] at hread
  obtain ⟨-, rfl⟩ := hread
  exact ⟨List.append_cancel_right h, rfl⟩

/-- What two lists of pieces with commas between them need to be told apart: a piece ends in one place, and it does not
start with a delimiter. -/
structure EndsOnce (piece : List Char → Prop) : Prop where
  starts : ∀ v, piece v → StartsValue v
  append_inj : ∀ v w r u, piece v → piece w → Delimited r → Delimited u → v ++ r = w ++ u → v = w ∧ r = u

theorem endsOnce_isValue : EndsOnce IsValue :=
  ⟨fun _ hv => hv.starts, fun _ _ _ _ hv hw hr hu h => hv.append_inj hw hr hu h⟩

/-- What follows a piece is a comma if another one follows and the closing character if not. -/
theorem commaSeparated_cons_append (piece : List Char) (pieces : List (List Char)) (close : List Char) :
    commaSeparated (piece :: pieces) ++ close =
      piece ++ (if pieces = [] then close else ',' :: (commaSeparated pieces ++ close)) := by
  cases pieces <;> simp [commaSeparated]

theorem commaSeparated_append_inj {piece : List Char → Prop} (hpiece : EndsOnce piece) {close : Char}
    (hends : endsValue close = true) (hcomma : close ≠ ',') {vs ws : List (List Char)} (hvs : ∀ v ∈ vs, piece v)
    (hws : ∀ w ∈ ws, piece w) (h : commaSeparated vs ++ [close] = commaSeparated ws ++ [close]) : vs = ws := by
  have hclosed : ∀ {v : List Char} {texts : List (List Char)}, piece v → ¬[close] = commaSeparated (v :: texts) ++ [close] := by
    intro v texts hv heq
    obtain ⟨c, r, rfl, -, hc⟩ := hpiece.starts v hv
    rw [commaSeparated_cons_append, List.cons_append, List.cons.injEq] at heq
    rw [heq.1, hc] at hends
    cases hends
  have hdelimited : ∀ texts : List (List Char),
      Delimited (if texts = [] then [close] else ',' :: (commaSeparated texts ++ [close])) := by
    intro texts
    split
    · exact delimited_cons.2 hends
    · exact delimited_cons.2 (by decide)
  induction vs generalizing ws with
  | nil =>
    cases ws with
    | nil => rfl
    | cons w ws => exact absurd h (hclosed (hws w List.mem_cons_self))
  | cons v vs ih =>
    cases ws with
    | nil => exact absurd h.symm (hclosed (hvs v List.mem_cons_self))
    | cons w ws =>
      rw [commaSeparated_cons_append, commaSeparated_cons_append] at h
      obtain ⟨rfl, hrest⟩ := hpiece.append_inj v w _ _ (hvs v List.mem_cons_self) (hws w List.mem_cons_self)
        (hdelimited vs) (hdelimited ws) h
      have hvs' : ∀ x ∈ vs, piece x := fun x hx => hvs x (List.mem_cons_of_mem _ hx)
      have hws' : ∀ x ∈ ws, piece x := fun x hx => hws x (List.mem_cons_of_mem _ hx)
      by_cases hv : vs = []
      · by_cases hw : ws = []
        · rw [hv, hw]
        · rw [if_pos hv, if_neg hw, List.cons.injEq] at hrest
          exact absurd hrest.1 hcomma
      · by_cases hw : ws = []
        · rw [if_neg hv, if_pos hw, List.cons.injEq] at hrest
          exact absurd hrest.1.symm hcomma
        · rw [if_neg hv, if_neg hw, List.cons.injEq] at hrest
          rw [ih hvs' hws' hrest.2]

/-- An array is the text of one list of items. -/
theorem ofItems_inj {vs ws : List (List Char)} (hvs : ∀ v ∈ vs, IsValue v) (hws : ∀ w ∈ ws, IsValue w)
    (h : ofItems vs = ofItems ws) : vs = ws := by
  rw [ofItems, ofItems, List.cons.injEq] at h
  exact commaSeparated_append_inj endsOnce_isValue (by decide) (by decide) hvs hws h.2

/-- The text is a member of an object. -/
def IsMember (text : List Char) : Prop := ∃ key value, IsValue value ∧ text = member key value

theorem member_append_inj {key key' : String} {v w r u : List Char} (hv : IsValue v) (hw : IsValue w) (hr : Delimited r)
    (hu : Delimited u) (h : member key v ++ r = member key' w ++ u) : key = key' ∧ v = w ∧ r = u := by
  simp only [member, ofString_eq, List.cons_append, List.append_assoc, List.cons.injEq, true_and] at h
  obtain ⟨rfl, hrest⟩ := quotedBody_append_inj h
  exact ⟨rfl, hv.append_inj hw hr hu (List.cons.inj hrest).2⟩

theorem endsOnce_isMember : EndsOnce IsMember := by
  refine ⟨?_, ?_⟩
  · rintro _ ⟨key, value, -, rfl⟩
    exact startsValue_cons.2 (by decide)
  · rintro _ _ r u ⟨key, v, hv, rfl⟩ ⟨key', w, hw, rfl⟩ hr hu h
    obtain ⟨rfl, rfl, rfl⟩ := member_append_inj hv hw hr hu h
    exact ⟨rfl, rfl⟩

/-- An object is the text of one list of members. -/
theorem ofMembers_inj {vs ws : List (String × List Char)} (hvs : ∀ m ∈ vs, IsValue m.2) (hws : ∀ m ∈ ws, IsValue m.2)
    (h : ofMembers vs = ofMembers ws) : vs = ws := by
  have hmember : ∀ {members : List (String × List Char)}, (∀ m ∈ members, IsValue m.2) →
      ∀ text ∈ members.map (fun m => member m.1 m.2), IsMember text := by
    intro members hmembers text htext
    obtain ⟨m, hm, rfl⟩ := List.mem_map.1 htext
    exact ⟨m.1, m.2, hmembers m hm, rfl⟩
  rw [ofMembers, ofMembers, List.cons.injEq] at h
  have hmap := commaSeparated_append_inj endsOnce_isMember (by decide) (by decide) (hmember hvs) (hmember hws) h.2
  clear h
  induction vs generalizing ws with
  | nil =>
    cases ws with
    | nil => rfl
    | cons m ws => cases hmap
  | cons m vs ih =>
    cases ws with
    | nil => cases hmap
    | cons n ws =>
      rw [List.map_cons, List.map_cons, List.cons.injEq] at hmap
      obtain ⟨hkey, hvalue, -⟩ := member_append_inj (hvs m List.mem_cons_self) (hws n List.mem_cons_self)
        delimited_nil delimited_nil (congrArg (· ++ []) hmap.1)
      rw [Prod.ext hkey hvalue, ih (fun x hx => hvs x (List.mem_cons_of_mem _ hx))
        (fun x hx => hws x (List.mem_cons_of_mem _ hx)) hmap.2]

end SentenceQuery.Json
