import BackOffice.Ident.Entity
/-!
# Subjects

The subject of a session is a user of a tenant, perhaps at one of its stores, in some role.  Its
scope names the tenant and the store, and is what cached answers are filed under.
-/
namespace BackOffice

structure Role where
  name : String
deriving DecidableEq, Repr

structure Subject where
  user   : UserId
  tenant : TenantId
  store  : Option StoreId
  role   : Role
deriving DecidableEq, Repr

namespace Role

def decoder : Decoder Role := Decoder.string.map (⟨·⟩)

def toJson (r : Role) : Json := .string r.name

end Role

namespace Subject

/-- A user of a tenant at no store in particular. -/
def ofUser (user : UserId) (tenant : TenantId) (role : Role) : Subject := ⟨user, tenant, none, role⟩

def atStore (s : Subject) (store : StoreId) : Subject := { s with store := some store }

/-- The tenant and the store, or a dash for no store. -/
def scope (s : Subject) : String :=
  s.tenant.text ++ "/" ++ (match s.store with
    | some store => store.text
    | none       => "-")

def decoder : Decoder Subject := fun room w => do
  let f ← Decoder.fields ["user_id", "tenant_id", "store_id", "role"] room w
  some {
    user := ← f.required "user_id" EntityId.decoder
    tenant := ← f.required "tenant_id" EntityId.decoder
    store := ← f.optional "store_id" EntityId.decoder
    role := ← f.required "role" Role.decoder }

/-- The store is left out where there is none. -/
def toJson (s : Subject) : Json :=
  Json.record ([("user_id", s.user.toJson), ("tenant_id", s.tenant.toJson),
    ("role", s.role.toJson)] ++ (s.store.map (fun i => ("store_id", i.toJson))).toList)

end Subject
end BackOffice
