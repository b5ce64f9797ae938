import BackOffice.Policy.Layer
/-!
# Decisions

The layers are applied in their order and the last one that mentions a key decides about it.
Within a layer a denial is applied after an allowance, so a key that stands in both lists is
denied; a key that no layer mentions is denied as well.  A decision keeps the trail of what each
layer contributed and which layers denied.
-/
namespace BackOffice

inductive Effect where
  | allow
  | deny
deriving DecidableEq, Repr

namespace Effect

def name : Effect → String
  | .allow => "allow"
  | .deny  => "deny"

def names : List (String × Effect) := [("allow", .allow), ("deny", .deny)]

def decoder : Decoder Effect := Decoder.oneOf names

def toJson (e : Effect) : Json := .string e.name

end Effect

/-- A layer applied an effect to the key. -/
structure Contribution where
  layer  : LayerKind
  effect : Effect
deriving DecidableEq, Repr

namespace Contribution

def decoder : Decoder Contribution := fun room w => do
  let f ← Decoder.fields ["layer", "effect"] room w
  some {
    layer := ← f.required "layer" LayerKind.decoder
    effect := ← f.required "effect" Effect.decoder }

def toJson (c : Contribution) : Json :=
  Json.record [("layer", c.layer.toJson), ("effect", c.effect.toJson)]

end Contribution

/-- The decision about one key and how it came about. -/
structure Decision where
  key         : PermissionKey
  final       : Effect
  trail       : List Contribution
  denySources : SortedSet LayerKind
deriving DecidableEq

namespace Decision

def isAllowed (d : Decision) : Bool := d.final == .allow

/-- The layer that contributed last, if any did. -/
def decidedBy (d : Decision) : Option LayerKind := d.trail.getLast?.map Contribution.layer

/-- The layers whose denial a later allowance set aside. -/
def overriddenDenies (d : Decision) : List LayerKind :=
  if d.isAllowed then d.denySources.toList else []

def decoder : Decoder Decision := fun room w => do
  let f ← Decoder.fields ["key", "final", "contributing_layers", "deny_sources"] room w
  some {
    key := ← f.required "key" PermissionKey.decoder
    final := ← f.required "final" Effect.decoder
    trail := ← f.required "contributing_layers" (Decoder.list Contribution.decoder)
    denySources := ← f.required "deny_sources" ((Decoder.list LayerKind.decoder).map .ofList) }

def toJson (d : Decision) : Json :=
  Json.record [("key", d.key.toJson), ("final", d.final.toJson),
    ("contributing_layers", .array (d.trail.map Contribution.toJson)),
    ("deny_sources", .array (d.denySources.toList.map LayerKind.toJson))]

/-- The decision before any layer is applied. -/
def undecided (key : PermissionKey) : Decision := ⟨key, .deny, [], .empty⟩

/-- A layer allows the key. -/
def applyAllow (d : Decision) (kind : LayerKind) : Decision :=
  { d with final := .allow, trail := d.trail ++ [⟨kind, .allow⟩] }

/-- A layer denies the key. -/
def applyDeny (d : Decision) (kind : LayerKind) : Decision :=
  { d with
    final := .deny
    trail := d.trail ++ [⟨kind, .deny⟩]
    denySources := d.denySources.insert kind }

/-- Applies one layer. -/
def applyLayer (d : Decision) (kind : LayerKind) (layer : PolicyLayer) : Decision :=
  let d := if layer.allow.contains d.key then d.applyAllow kind else d
  if layer.deny.contains d.key then d.applyDeny kind else d

end Decision

/-- The decision of the four layers about one key. -/
def PolicyLayers.resolve (l : PolicyLayers) (key : PermissionKey) : Decision :=
  LayerKind.all.foldl (fun d kind => d.applyLayer kind (l.get kind)) (.undecided key)

/-- The decisions about all mentioned keys, in order of the keys. -/
def PolicyLayers.resolveAll (l : PolicyLayers) : List Decision :=
  l.mentionedKeys.toList.map l.resolve

end BackOffice
