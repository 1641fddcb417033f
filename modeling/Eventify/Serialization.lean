import Eventify.Domain

/-!
# Retrying serialization conflicts

`withSerializationRetry` runs a transaction at most `maxAttempts` times and
starts again only after a conflict the database reported.
-/

namespace Eventify

/-- The three shapes in which a conflict reaches the service. -/
def isSerializationConflict : Failure → Bool
  | .http _ => false
  | .client error =>
      error.code == some "P2034" || error.originalCode == some "40001" ||
        error.kind == some "TransactionWriteConflict"

def maxAttempts : ℕ := 8

/-- The `catch` block of the retry loop: the error is thrown unless it is a
conflict and attempts are left. -/
def retries (attempt : ℕ) (error : Failure) : Bool :=
  !(!isSerializationConflict error || attempt == maxAttempts)

end Eventify
