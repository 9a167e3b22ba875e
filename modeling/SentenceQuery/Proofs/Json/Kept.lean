import SentenceQuery.Proofs.Json.Number

/-!
# What readers keep

An array or an object is read into what is read so far, so what each item or member keeps holds of the whole
(`readArray_keeps`, `readObject_keeps`, `readFields_keeps`). In this way every number in what is read is known to be finite.
-/

namespace SentenceQuery.Json

variable {σ α κ : Type} {K : σ → Prop}

theorem readItems_keeps {item : σ → Reader σ}
    (hitem : ∀ acc s acc' s', K acc → item acc s = .ok (acc', s') → K acc') {fuel : Nat} {acc acc' : σ}
    {s s' : List Char} (hacc : K acc) (h : readItems item fuel acc s = .ok (acc', s')) : K acc' := by
  induction fuel generalizing acc s with
  | zero => cases h
  | succ fuel ih =>
    rw [readItems, bind_eq_ok] at h
    obtain ⟨⟨acc₁, s₁⟩, hfirst, hrest⟩ := h
    have hkeeps := hitem _ _ _ _ hacc hfirst
    dsimp only at hrest
    split at hrest
    · exact ih hkeeps hrest
    · cases hrest
      exact hkeeps
    · cases hrest

theorem readArray_keeps {item : σ → Reader σ}
    (hitem : ∀ acc s acc' s', K acc → item acc s = .ok (acc', s') → K acc') {acc acc' : σ} {s s' : List Char}
    (hacc : K acc) (h : readArray item acc s = .ok (acc', s')) : K acc' := by
  unfold readArray at h
  split at h
  · cases h
    exact hacc
  · exact readItems_keeps hitem hacc h

theorem readMembers_keeps {key : Reader κ} {value : σ → κ → Reader σ}
    (hvalue : ∀ acc k s acc' s', K acc → value acc k s = .ok (acc', s') → K acc') {fuel : Nat} {acc acc' : σ}
    {s s' : List Char} (hacc : K acc) (h : readMembers key value fuel acc s = .ok (acc', s')) : K acc' := by
  induction fuel generalizing acc s with
  | zero => cases h
  | succ fuel ih =>
    rw [readMembers] at h
    split at h
    · rw [bind_eq_ok] at h
      obtain ⟨⟨k, s₁⟩, -, hmember⟩ := h
      dsimp only at hmember
      split at hmember
      · rw [bind_eq_ok] at hmember
        obtain ⟨⟨acc₁, s₂⟩, hread, hrest⟩ := hmember
        have hkeeps := hvalue _ _ _ _ _ hacc hread
        dsimp only at hrest
        split at hrest
        · exact ih hkeeps hrest
        · cases hrest
          exact hkeeps
        · cases hrest
      · cases hmember
    · cases h

theorem readObject_keeps {key : Reader κ} {value : σ → κ → Reader σ}
    (hvalue : ∀ acc k s acc' s', K acc → value acc k s = .ok (acc', s') → K acc') {acc acc' : σ}
    {s s' : List Char} (hacc : K acc) (h : readObject key value acc s = .ok (acc', s')) : K acc' := by
  unfold readObject at h
  split at h
  · cases h
    exact hacc
  · exact readMembers_keeps hvalue hacc h

theorem readMap_keeps {value : Nat → σ → String → Reader σ}
    (hvalue : ∀ depth acc k s acc' s', K acc → value depth acc k s = .ok (acc', s') → K acc') {depth : Nat} {acc acc' : σ}
    {s s' : List Char} (hacc : K acc) (h : readMap value acc depth s = .ok (acc', s')) : K acc' := by
  unfold readMap at h
  split at h
  · split at h
    · cases h
    · exact readObject_keeps (hvalue _) hacc h
  · cases h

/-- A value with fields, written as an object or as an array. -/
theorem readFields_keeps {fields : List String} {field : Nat → σ → String → Reader σ}
    (hfield : ∀ depth acc k s acc' s', K acc → field depth acc k s = .ok (acc', s') → K acc') {depth : Nat}
    {acc acc' : σ} {s s' : List Char} (hacc : K acc) (h : readFields fields field acc depth s = .ok (acc', s')) :
    K acc' := by
  unfold readFields at h
  split at h
  · split at h
    · cases h
    · refine readObject_keeps (fun acc k s acc' s' hacc hmember => ?_) hacc h
      unfold readField at hmember
      split at hmember
      · exact hfield _ _ _ _ _ _ hacc hmember
      · rw [bind_eq_ok] at hmember
        obtain ⟨_, -, hskipped⟩ := hmember
        cases hskipped
        exact hacc
  · split at h
    · cases h
    · rw [bind_eq_ok] at h
      obtain ⟨⟨⟨acc₁, n⟩, s₁⟩, harray, hresult⟩ := h
      cases hresult
      refine readArray_keeps (K := fun r : σ × Nat => K r.1) (fun r s r' s' hr hitem => ?_) hacc harray
      unfold readNextField at hitem
      split at hitem
      · cases hitem
      · rw [bind_eq_ok] at hitem
        obtain ⟨⟨acc₂, s₂⟩, hread, hnext⟩ := hitem
        cases hnext
        exact hfield _ _ _ _ _ _ hr hread
  · cases h

/-- Every value of a list is one that its reader reads. -/
theorem readList_forall {item : Nat → Reader α} {P : α → Prop} (hitem : ∀ depth s v s', item depth s = .ok (v, s') → P v)
    {depth : Nat} {vs : List α} {s s' : List Char} (h : readList item depth s = .ok (vs, s')) : ∀ v ∈ vs, P v := by
  unfold readList at h
  split at h
  · split at h
    · cases h
    · refine readArray_keeps (K := fun vs : List α => ∀ v ∈ vs, P v) (fun acc s acc' s' hacc hread => ?_) (by simp) h
      rw [appendItem, bind_eq_ok] at hread
      obtain ⟨⟨v, s₁⟩, hv, happend⟩ := hread
      cases happend
      intro w hw
      rcases List.mem_append.1 hw with hw | hw
      · exact hacc w hw
      · rw [List.mem_singleton.1 hw]
        exact hitem _ _ _ _ hv
  · cases h

/-- A number that is read as a value of any shape is finite. -/
theorem isFinite_of_readValue {depth : Nat} {s s' : List Char} {x : Binary64}
    (h : readValue depth s = .ok (.number x, s')) : x.isFinite = true := by
  unfold readValue at h
  split at h
  · cases h
  · obtain ⟨_, -, hresult⟩ := bind_eq_ok.1 h
    cases hresult
  · split at h
    · cases h
    · obtain ⟨_, -, hresult⟩ := bind_eq_ok.1 h
      cases hresult
  · split at h
    · cases h
    · obtain ⟨_, -, hresult⟩ := bind_eq_ok.1 h
      cases hresult
  · split at h
    · obtain ⟨⟨y, s₁⟩, hread, hresult⟩ := bind_eq_ok.1 h
      cases hresult
      exact isFinite_of_readNumber hread
    · split at h
      · obtain ⟨_, -, hresult⟩ := bind_eq_ok.1 h
        cases hresult
      · split at h
        · obtain ⟨_, -, hresult⟩ := bind_eq_ok.1 h
          cases hresult
        · split at h
          · obtain ⟨_, -, hresult⟩ := bind_eq_ok.1 h
            cases hresult
          · cases h

end SentenceQuery.Json
