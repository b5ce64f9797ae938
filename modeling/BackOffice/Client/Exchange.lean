import BackOffice.Client.Call
import BackOffice.Config.Settings
/-!
# Exchanges

A request is sent and the end of the exchange is judged.  A read that failed on the wire, by a
timeout or with a status of 500 or more is sent again after a pause, up to the configured number of
attempts; anything else is sent once.  A request whose context has changed in the meantime comes to
nothing, whatever the answer was.
-/
namespace BackOffice

/-! ## Gates

The permissions that the mutating operations require. -/

namespace Permission

def createStores : PermissionKey := ⟨"stores.create"⟩
def createUsers : PermissionKey := ⟨"users.create"⟩
def managePolicies : PermissionKey := ⟨"users.permissions.manage"⟩

end Permission

/-! ## Sending -/

/-- What a mutation is for. -/
inductive Intent where
  | createStore
  | createUser
  | savePolicy (preview : PolicyPreview)

/-- A mutating call, described before it is gated and sent. -/
structure Mutation where
  operation  : String
  permission : PermissionKey
  method     : Method
  path       : String
  body       : Json
  resource   : Resource
  intent     : Intent

/-- What the answer to a request is awaited for. -/
inductive Purpose where
  | fetch
  | refresh (stamp : Stamp)
  | list (resource : Resource) (stamp : Stamp) (key : String)
  | submit (mutation : Mutation) (tenant : TenantId)
  | send

/-- A request that is being sent for some purpose, for the `attempt`-th time. -/
structure Exchange where
  request : Request
  purpose : Purpose
  attempt : Nat

/-- What follows from the end of one attempt. -/
inductive Verdict where
  | settled (r : Except ApiError Answer)
  | again (pauseMs : Nat)

/-- Why a request must not be sent: a mutation without an idempotency key. -/
def Request.refusal? (r : Request) (trace : TraceId) : Option ApiError :=
  if r.isMutation && (r.header? Request.idempotencyHeader).isNone then
    some (.validation trace (s!"{r.method.name} {r.path} is a mutation and must carry an "
      ++ s!"{Request.idempotencyHeader} header"))
  else none

/-- How often a request may be sent. -/
def Config.attemptsFor (c : Config) (r : Request) : Nat :=
  if r.method = .get then max c.maxAttempts 1 else 1

/-- Judges the end of an attempt; `current` tells whether the context of the request is still the
one it was made in. -/
def Config.judge (c : Config) (r : Request) (attempt : Nat) (current : Bool) (fresh : Uuid)
    (arrival : Arrival) : Verdict :=
  match r.context, current with
  | some stamp, false => .settled (.error (.cancelled (.minted fresh) stamp.key))
  | _, _ =>
    match Arrival.read fresh arrival with
    | .ok a    => .settled (.ok a)
    | .error e =>
      if e.isRetryable && decide (attempt < c.attemptsFor r) then .again (c.backoffFor attempt)
      else .settled (.error e)

end BackOffice
