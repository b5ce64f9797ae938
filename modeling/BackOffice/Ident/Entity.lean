import BackOffice.Ident.Uuid
import BackOffice.Json.Decoder
/-!
# Identifiers of tenants, stores and users

A UUID identifies a record of one kind, and the kind is part of the identifier's type.  All three
kinds are read and written as UUIDs.
-/
namespace BackOffice

/-- The kinds of records that have identifiers. -/
inductive Entity where
  | tenant
  | store
  | user
deriving DecidableEq, Repr

/-- The name of the type of identifiers of a kind of record. -/
def Entity.idName : Entity → String
  | .tenant => "TenantId"
  | .store  => "StoreId"
  | .user   => "UserId"

/-- The identifier of a record of the given kind. -/
structure EntityId (entity : Entity) where
  uuid : Uuid
deriving DecidableEq, Repr

abbrev TenantId := EntityId .tenant
abbrev StoreId := EntityId .store
abbrev UserId := EntityId .user

/-- A text that should have been the identifier of a record of the given kind. -/
structure InvalidId where
  entity : Entity

def InvalidId.message (e : InvalidId) : String :=
  s!"invalid identifier: {e.entity.idName}: not a UUID"

namespace EntityId

variable {e : Entity}

instance : Ord (EntityId e) := ⟨fun a b => compare a.uuid b.uuid⟩

instance : Std.TransOrd (EntityId e) := transOrd_of_key uuid (fun _ _ => rfl)

instance : Std.LawfulEqOrd (EntityId e) :=
  lawfulEqOrd_of_key uuid (fun _ _ => rfl) (fun ⟨_⟩ ⟨_⟩ h => by cases h; rfl)

def text (i : EntityId e) : String := i.uuid.text

def parse (s : String) : Except InvalidId (EntityId e) :=
  match Uuid.parse s with
  | some u => .ok ⟨u⟩
  | none   => .error ⟨e⟩

def decoder : Decoder (EntityId e) := Decoder.string.filterMap (fun s => (Uuid.parse s).map (⟨·⟩))

def toJson (i : EntityId e) : Json := .string i.text

end EntityId
end BackOffice
