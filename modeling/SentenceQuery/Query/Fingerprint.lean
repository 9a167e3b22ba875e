import SentenceQuery.Digest.Sha256
import SentenceQuery.Query.Json

/-!
# Fingerprints of plans

The fingerprint of a plan is the digest of its canonical text, so plans with one text share it.
-/

namespace SentenceQuery

/-- The digest of a plan's canonical text. -/
def Plan.fingerprint (p : Plan) : String := String.ofList (Sha256.hexDigest p.toJson)

end SentenceQuery
