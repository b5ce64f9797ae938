import BackOffice.Policy.Key
/-!
# Policy layers

A policy is made of four layers, from the role template over the tenant and the store to the user.
Each holds the keys it allows and the keys it denies.
-/
namespace BackOffice

/-- The layers in the order in which they are applied. -/
inductive LayerKind where
  | template
  | tenant
  | store
  | user
deriving DecidableEq, Repr

namespace LayerKind

/-- The layers in the order in which they are applied. -/
def all : List LayerKind := [.template, .tenant, .store, .user]

/-- The place in that order. -/
def rank : LayerKind → Nat
  | .template => 0
  | .tenant   => 1
  | .store    => 2
  | .user     => 3

def name : LayerKind → String
  | .template => "template"
  | .tenant   => "tenant"
  | .store    => "store"
  | .user     => "user"

theorem getElem?_all_rank (k : LayerKind) : all[k.rank]? = some k := by
  cases k <;> rfl

theorem eq_of_rank_eq {a b : LayerKind} (h : a.rank = b.rank) : a = b := by
  have ha := getElem?_all_rank a
  rw [h, getElem?_all_rank b] at ha
  exact (Option.some.inj ha).symm

instance : Ord LayerKind := ⟨fun a b => compare a.rank b.rank⟩

instance : Std.TransOrd LayerKind := transOrd_of_key rank (fun _ _ => rfl)

instance : Std.LawfulEqOrd LayerKind :=
  lawfulEqOrd_of_key rank (fun _ _ => rfl) (fun _ _ => eq_of_rank_eq)

def names : List (String × LayerKind) := all.map (fun k => (k.name, k))

def decoder : Decoder LayerKind := Decoder.oneOf names

def toJson (k : LayerKind) : Json := .string k.name

end LayerKind

/-- The keys that one layer allows and those it denies. -/
structure PolicyLayer where
  allow : KeySet
  deny  : KeySet
deriving DecidableEq

namespace PolicyLayer

def empty : PolicyLayer := ⟨.empty, .empty⟩

instance : Inhabited PolicyLayer := ⟨empty⟩

/-- The layer of two lists of keys. -/
def ofLists (allow deny : List PermissionKey) : PolicyLayer := ⟨.ofList allow, .ofList deny⟩

def allowing (l : PolicyLayer) (k : PermissionKey) : PolicyLayer := { l with allow := l.allow.insert k }

def denying (l : PolicyLayer) (k : PermissionKey) : PolicyLayer := { l with deny := l.deny.insert k }

def isEmpty (l : PolicyLayer) : Bool := l.allow.isEmpty && l.deny.isEmpty

/-- The allowed keys and then the denied ones. -/
def keys (l : PolicyLayer) : List PermissionKey := l.allow.toList ++ l.deny.toList

def decoder : Decoder PolicyLayer := fun room w => do
  let f ← Decoder.fields ["allow", "deny"] room w
  some {
    allow := ← f.withDefault "allow" KeySet.decoder .empty
    deny := ← f.withDefault "deny" KeySet.decoder .empty }

def toJson (l : PolicyLayer) : Json :=
  Json.record [("allow", KeySet.toJson l.allow), ("deny", KeySet.toJson l.deny)]

end PolicyLayer

/-- The four layers that decide for one subject. -/
structure PolicyLayers where
  template : PolicyLayer
  tenant   : PolicyLayer
  store    : PolicyLayer
  user     : PolicyLayer
deriving DecidableEq

namespace PolicyLayers

def empty : PolicyLayers := ⟨.empty, .empty, .empty, .empty⟩

instance : Inhabited PolicyLayers := ⟨empty⟩

def get (l : PolicyLayers) : LayerKind → PolicyLayer
  | .template => l.template
  | .tenant   => l.tenant
  | .store    => l.store
  | .user     => l.user

/-- Replaces one layer. -/
def withLayer (l : PolicyLayers) (kind : LayerKind) (layer : PolicyLayer) : PolicyLayers :=
  match kind with
  | .template => { l with template := layer }
  | .tenant   => { l with tenant := layer }
  | .store    => { l with store := layer }
  | .user     => { l with user := layer }

/-- The keys that some layer allows or denies. -/
def mentionedKeys (l : PolicyLayers) : KeySet :=
  .ofList (LayerKind.all.flatMap (fun k => (l.get k).keys))

def decoder : Decoder PolicyLayers := fun room w => do
  let f ← Decoder.fields ["template", "tenant", "store", "user"] room w
  some {
    template := ← f.withDefault "template" PolicyLayer.decoder .empty
    tenant := ← f.withDefault "tenant" PolicyLayer.decoder .empty
    store := ← f.withDefault "store" PolicyLayer.decoder .empty
    user := ← f.withDefault "user" PolicyLayer.decoder .empty }

def toJson (l : PolicyLayers) : Json :=
  Json.record (LayerKind.all.map (fun k => (k.name, (l.get k).toJson)))

theorem get_withLayer (l : PolicyLayers) (kind other : LayerKind) (layer : PolicyLayer) :
    (l.withLayer kind layer).get other = if other = kind then layer else l.get other := by
  cases kind <;> cases other <;> rfl

end PolicyLayers
end BackOffice
