import BackOffice.Http.Answer
import BackOffice.Http.Request
import BackOffice.Policy.Preview
import BackOffice.Wire.Store
import BackOffice.Wire.User
import BackOffice.Wire.PermissionReport
/-!
# Calls

What a user of the client may ask for, and what it replies.
-/
namespace BackOffice

/-- The records that are listed and created. -/
inductive Resource where
  | stores
  | users
deriving DecidableEq, Repr

namespace Resource

def name : Resource → String
  | .stores => "stores"
  | .users  => "users"

/-- Where a tenant's records are listed and created. -/
def path (r : Resource) (tenant : TenantId) : String := s!"/tenants/{tenant.text}/{r.name}"

end Resource

inductive Call where
  | fetchPermissions
  | refreshPermissions
  | list (resource : Resource)
  | createStore (store : NewStore)
  | createUser (user : NewUser)
  | savePolicy (user : UserId) (before after : PolicyLayer) (confirmed : Bool)
  | send (request : Request)

/-- What became of a submission that passed the gates. -/
inductive Submission (α : Type) where
  | completed (a : α)
  | alreadyInFlight

def Submission.map {α β : Type} (f : α → β) : Submission α → Submission β
  | .completed a     => .completed (f a)
  | .alreadyInFlight => .alreadyInFlight

/-- What became of a policy edit. -/
inductive PolicySave where
  | noChanges
  | blocked (keys : KeySet) (preview : PolicyPreview)
  | needsConfirmation (preview : PolicyPreview)
  | saved (preview : PolicyPreview)
  | alreadyInFlight
deriving DecidableEq

namespace PolicySave

def outcome : PolicySave → String
  | .noChanges           => "no_changes"
  | .blocked _ _         => "blocked"
  | .needsConfirmation _ => "needs_confirmation"
  | .saved _             => "saved"
  | .alreadyInFlight     => "already_in_flight"

def toJson (p : PolicySave) : Json :=
  Json.record (("outcome", .string p.outcome) :: (match p with
    | .blocked keys preview      => [("blocked", KeySet.toJson keys), ("preview", preview.toJson)]
    | .needsConfirmation preview => [("preview", preview.toJson)]
    | .saved preview             => [("preview", preview.toJson)]
    | .noChanges                 => []
    | .alreadyInFlight           => []))

end PolicySave

/-- What a call returns. -/
inductive Reply where
  | report (r : Except ApiError PermissionReport)
  | installed (r : Except ApiError EffectiveSet)
  | stores (r : Except ApiError (List Store))
  | users (r : Except ApiError (List User))
  | storeCreated (r : Except ApiError (Submission Store))
  | userCreated (r : Except ApiError (Submission User))
  | policySaved (r : Except ApiError PolicySave)
  | answered (r : Except ApiError Answer)

end BackOffice
