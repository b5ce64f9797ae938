import BackOffice.Policy.Evaluation
/-!
# Permission reports

What the server says about a user's permissions: its verdicts, key by key, and the layers they come
from.  The verdicts are what a session installs; resolving the layers again shows where the server
disagrees with its own layers.
-/
namespace BackOffice

/-- The verdict on one key, and the layer that decided it as the server tells it. -/
structure PermissionEntry where
  key     : PermissionKey
  allowed : Bool
  source  : Option String
deriving DecidableEq, Repr

namespace PermissionEntry

def decoder : Decoder PermissionEntry := fun room w => do
  let f ← Decoder.fields ["key", "allowed", "source"] room w
  some {
    key := ← f.required "key" PermissionKey.decoder
    allowed := ← f.required "allowed" Decoder.bool
    source := ← f.optional "source" Decoder.string }

def toJson (e : PermissionEntry) : Json :=
  Json.record [("key", e.key.toJson), ("allowed", .bool e.allowed),
    ("source", Json.optional .string e.source)]

end PermissionEntry

structure PermissionReport where
  subject : Json
  entries : List PermissionEntry
  denies  : List Json
  layers  : PolicyLayers
  traceId : Option String

namespace PermissionReport

def decoder : Decoder PermissionReport := fun room w => do
  let f ← Decoder.fields ["subject", "permissions", "denies_applied", "sources_trace", "trace_id"]
    room w
  some {
    subject := ← f.withDefault "subject" Decoder.json .null
    entries := ← f.withDefault "permissions" (Decoder.list PermissionEntry.decoder) []
    denies := ← f.withDefault "denies_applied" (Decoder.list Decoder.json) []
    layers := ← f.withDefault "sources_trace" PolicyLayers.decoder .empty
    traceId := ← f.optional "trace_id" Decoder.string }

def toJson (r : PermissionReport) : Json :=
  Json.record [("subject", r.subject), ("permissions", .array (r.entries.map PermissionEntry.toJson)),
    ("denies_applied", .array r.denies), ("sources_trace", r.layers.toJson),
    ("trace_id", Json.optional .string r.traceId)]

/-- The verdicts as a set; of verdicts on one key the last counts. -/
def effectiveSet (r : PermissionReport) : EffectiveSet :=
  .ofPairs (r.entries.map (fun e => (e.key, e.allowed)))

/-- Decides about every key that is listed or that a layer mentions. -/
def evaluation (r : PermissionReport) (subject : Subject) : Evaluation :=
  r.layers.evaluate subject
    (r.layers.mentionedKeys.union (.ofList (r.entries.map PermissionEntry.key))).toList

/-- The keys with an entry whose verdict is not that of the layers. -/
def mismatches (r : PermissionReport) (subject : Subject) : KeySet :=
  let own := r.evaluation subject
  .ofList ((r.entries.filter (fun e => match own.decision? e.key with
    | some d => d.isAllowed != e.allowed
    | none   => false)).map PermissionEntry.key)

end PermissionReport
end BackOffice
