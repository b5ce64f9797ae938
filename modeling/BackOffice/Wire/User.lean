import BackOffice.Policy.Subject
/-!
# Users

A user of a tenant, as the server lists it, and what is sent to enrol a new one.
-/
namespace BackOffice

structure User where
  id          : UserId
  tenant      : TenantId
  email       : String
  displayName : Option String
  role        : Role
  store       : Option StoreId
deriving DecidableEq, Repr

namespace User

def decoder : Decoder User := fun room w => do
  let f ← Decoder.fields ["id", "tenant_id", "email", "display_name", "role", "store_id"] room w
  some {
    id := ← f.required "id" EntityId.decoder
    tenant := ← f.required "tenant_id" EntityId.decoder
    email := ← f.required "email" Decoder.string
    displayName := ← f.optional "display_name" Decoder.string
    role := ← f.required "role" Role.decoder
    store := ← f.optional "store_id" EntityId.decoder }

def toJson (u : User) : Json :=
  Json.record [("id", u.id.toJson), ("tenant_id", u.tenant.toJson), ("email", .string u.email),
    ("display_name", Json.optional .string u.displayName), ("role", u.role.toJson),
    ("store_id", Json.optional EntityId.toJson u.store)]

end User

structure NewUser where
  email       : String
  displayName : Option String
  role        : Role
  store       : Option StoreId
deriving DecidableEq, Repr

namespace NewUser

def decoder : Decoder NewUser := fun room w => do
  let f ← Decoder.fields ["email", "display_name", "role", "store_id"] room w
  some {
    email := ← f.required "email" Decoder.string
    displayName := ← f.optional "display_name" Decoder.string
    role := ← f.required "role" Role.decoder
    store := ← f.optional "store_id" EntityId.decoder }

/-- Absent parts are left out. -/
def toJson (u : NewUser) : Json :=
  Json.record ([("email", .string u.email), ("role", u.role.toJson)]
    ++ (u.displayName.map (fun n => ("display_name", Json.string n))).toList
    ++ (u.store.map (fun i => ("store_id", i.toJson))).toList)

end NewUser
end BackOffice
