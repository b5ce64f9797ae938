import BackOffice.Policy.Effective
import BackOffice.Policy.Subject
/-!
# Evaluations

The decisions about a choice of keys for one subject, one decision for each key.
-/
namespace BackOffice

structure Evaluation where
  subject   : Subject
  decisions : Table PermissionKey Decision
deriving DecidableEq

namespace Evaluation

def decision? (e : Evaluation) (k : PermissionKey) : Option Decision := e.decisions.get? k

def size (e : Evaluation) : Nat := e.decisions.size

def isEmpty (e : Evaluation) : Bool := e.decisions.isEmpty

/-- The keys that are decided against. -/
def deniedKeys (e : Evaluation) : KeySet :=
  .ofList ((e.decisions.values.filter (fun d => !d.isAllowed)).map Decision.key)

def effectiveSet (e : Evaluation) : EffectiveSet := .ofDecisions e.decisions.values

def toJson (e : Evaluation) : Json :=
  Json.record [("subject", e.subject.toJson),
    ("decisions", Json.record (e.decisions.entries.map (fun d => (d.1.text, d.2.toJson))))]

end Evaluation

/-- Decides about the given keys, in whatever order and however often they are given. -/
def PolicyLayers.evaluate (l : PolicyLayers) (subject : Subject) (keys : List PermissionKey) :
    Evaluation :=
  ⟨subject, .ofList (keys.map (fun k => (k, l.resolve k)))⟩

/-- Decides about all mentioned keys. -/
def PolicyLayers.evaluateAll (l : PolicyLayers) (subject : Subject) : Evaluation :=
  l.evaluate subject l.mentionedKeys.toList

end BackOffice
