import BackOffice.Ident.Entity
import BackOffice.Calendar.Timestamp
/-!
# Stores

A store of a tenant, as the server lists it, and what is sent to open a new one.
-/
namespace BackOffice

structure Store where
  id        : StoreId
  tenant    : TenantId
  name      : String
  code      : Option String
  createdAt : Option Timestamp
deriving DecidableEq, Repr

namespace Store

def decoder : Decoder Store := fun room w => do
  let f ← Decoder.fields ["id", "tenant_id", "name", "code", "created_at"] room w
  some {
    id := ← f.required "id" EntityId.decoder
    tenant := ← f.required "tenant_id" EntityId.decoder
    name := ← f.required "name" Decoder.string
    code := ← f.optional "code" Decoder.string
    createdAt := ← f.optional "created_at" Timestamp.decoder }

def toJson (s : Store) : Json :=
  Json.record [("id", s.id.toJson), ("tenant_id", s.tenant.toJson), ("name", .string s.name),
    ("code", Json.optional .string s.code),
    ("created_at", Json.optional Timestamp.toJson s.createdAt)]

end Store

structure NewStore where
  name : String
  code : Option String
deriving DecidableEq, Repr

namespace NewStore

def decoder : Decoder NewStore := fun room w => do
  let f ← Decoder.fields ["name", "code"] room w
  some {
    name := ← f.required "name" Decoder.string
    code := ← f.optional "code" Decoder.string }

/-- The code is left out where there is none. -/
def toJson (s : NewStore) : Json :=
  Json.record ([("name", .string s.name)] ++ (s.code.map (fun c => ("code", Json.string c))).toList)

end NewStore
end BackOffice
