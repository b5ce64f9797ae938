import BackOffice.Sorted.Table
import BackOffice.Json.Printer
import BackOffice.Json.Decoder
import BackOffice.Digest.Sha256
import BackOffice.Http.Request
import BackOffice.Ident.Uuid
/-!
# Idempotency keys

Each operation that changes something has a name, and a logical submission under that name is an
attempt.  An attempt keeps its keys until it is completed or cancelled, so that sending it again
sends the same keys.  It is bound to what it submits by a fingerprint: another payload under the
same name is a conflict, and leaves the attempt as it is.

Beside the attempts stand the marks of the operations that are in flight.  A mark is taken before a
submission and given back when it ends; the two tables do not touch each other.
-/
namespace BackOffice

inductive AttemptState where
  | pending
  | succeeded
  | failed
deriving DecidableEq, Repr

namespace AttemptState

def name : AttemptState → String
  | .pending   => "PENDING"
  | .succeeded => "SUCCEEDED"
  | .failed    => "FAILED"

def decoder : Decoder AttemptState :=
  Decoder.oneOf ([pending, succeeded, failed].map (fun s => (s.name, s)))

def toJson (s : AttemptState) : Json := .string s.name

end AttemptState

/-- A logical submission that has not been completed. -/
structure Attempt where
  operation   : String
  keys        : AttemptKeys
  state       : AttemptState
  fingerprint : Option String
deriving DecidableEq, Repr

/-- The fresh identifiers for one attempt. -/
structure FreshKeys where
  key         : Uuid
  transaction : Uuid

namespace Attempt

/-- The keys of an operation made of fresh identifiers. -/
def keysOf (operation : String) (fresh : FreshKeys) : AttemptKeys :=
  ⟨operation ++ "-" ++ fresh.key.simpleText, "txn-" ++ fresh.transaction.text⟩

/-- A new attempt. -/
def mint (operation : String) (fresh : FreshKeys) (fingerprint : Option String) : Attempt :=
  ⟨operation, keysOf operation fresh, .pending, fingerprint⟩

end Attempt

/-- The digest of a payload; the order of members does not count. -/
def fingerprint (payload : Json) : String := Sha256.ofText payload.canonical.render

/-- What an attempt for a request is bound to. -/
def requestPayload (method path : String) (body : Json) : Json :=
  Json.record [("method", .string method), ("path", .string path), ("body", body)]

/-- An attempt under this name is bound to another payload. -/
structure AttemptConflict where
  operation : String
deriving DecidableEq, Repr

def AttemptConflict.message (c : AttemptConflict) : String :=
  s!"operation '{c.operation}' has an unfinished attempt for a different payload; "
    ++ "cancel it before submitting new data"

structure Issuer where
  inFlight : SortedSet String
  attempts : Table String Attempt
deriving DecidableEq

namespace Issuer

def empty : Issuer := ⟨.empty, .empty⟩

instance : Inhabited Issuer := ⟨empty⟩

/-! ## Marks -/

/-- Marks an operation as in flight; `false` if it is already. -/
def start (i : Issuer) (name : String) : Bool × Issuer :=
  if i.inFlight.contains name then (false, i)
  else (true, { i with inFlight := i.inFlight.insert name })

/-- Takes the mark away, whoever has set it. -/
def finish (i : Issuer) (name : String) : Issuer := { i with inFlight := i.inFlight.erase name }

def isInFlight (i : Issuer) (name : String) : Bool := i.inFlight.contains name

/-! ## Attempts -/

def attempt? (i : Issuer) (name : String) : Option Attempt := i.attempts.get? name

/-- The keys of the attempt under this name, or of a new one. -/
def obtain (i : Issuer) (fresh : FreshKeys) (name : String) : AttemptKeys × Issuer :=
  let a : Attempt := match i.attempt? name with
    | some a => { a with state := .pending }
    | none   => .mint name fresh none
  (a.keys, { i with attempts := i.attempts.insert name a })

/-- The keys for a payload under this name: of the attempt that is there, unless it is bound to
another payload, or of a new one. -/
def obtainFor (i : Issuer) (fresh : FreshKeys) (name : String) (payload : Json) :
    Except AttemptConflict AttemptKeys × Issuer :=
  let digest := fingerprint payload
  match i.attempt? name with
  | some a =>
    if a.fingerprint.isSome && a.fingerprint != some digest then (.error ⟨name⟩, i)
    else
      let b : Attempt := { a with fingerprint := some digest, state := .pending }
      (.ok b.keys, { i with attempts := i.attempts.insert name b })
  | none =>
    let a := Attempt.mint name fresh (some digest)
    (.ok a.keys, { i with attempts := i.attempts.insert name a })

/-- The keys for a request under this name. -/
def obtainForRequest (i : Issuer) (fresh : FreshKeys) (name method path : String) (body : Json) :
    Except AttemptConflict AttemptKeys × Issuer :=
  i.obtainFor fresh name (requestPayload method path body)

/-- The submission failed; the attempt is kept for another try. -/
def markFailed (i : Issuer) (name : String) : Issuer :=
  { i with attempts := i.attempts.adjust name (fun a => { a with state := .failed }) }

/-- The submission succeeded; the attempt is done with. -/
def complete (i : Issuer) (name : String) : Option Attempt × Issuer :=
  ((i.attempt? name).map (fun a => { a with state := .succeeded }),
    { i with attempts := i.attempts.erase name })

/-- Forgets an attempt; tells whether there was one. -/
def cancel (i : Issuer) (name : String) : Bool × Issuer :=
  ((i.attempt? name).isSome, { i with attempts := i.attempts.erase name })

/-- Forgets all attempts and counts them; the marks stay. -/
def cancelAll (i : Issuer) : Nat × Issuer :=
  (i.attempts.size, { i with attempts := .empty })

end Issuer
end BackOffice
