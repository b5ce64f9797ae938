import BackOffice.Policy.Decision
/-!
# Explanations

Why a key is allowed or denied, and what is proposed against a denial.  Reasons and suggestions are values
of their own; their wording is `Reason.text` and `Suggestion.text`.
-/
namespace BackOffice

inductive Reason where
  | noGrant (key : PermissionKey)
  | allowedBy (layer : LayerKind) (overridden : List LayerKind)
  | deniedBy (layer : LayerKind)
deriving DecidableEq, Repr

def Reason.text : Reason → String
  | .noGrant k           => s!"No policy layer grants '{k.text}' (default deny)"
  | .allowedBy l []      => s!"Allowed by the {l.name} layer"
  | .allowedBy l denying => s!"Allowed by the {l.name} layer, overriding an earlier deny from: "
      ++ String.intercalate ", " (denying.map LayerKind.name)
  | .deniedBy l          => s!"Denied by the {l.name} layer"

/-- What is proposed to someone whose key is denied. -/
inductive Suggestion where
  | grant (key : PermissionKey)
  | reviewTemplate
  | allowAfter (key : PermissionKey) (layer : LayerKind)
  | removeDeny (key : PermissionKey) (layer : LayerKind)
deriving DecidableEq, Repr

def Suggestion.text : Suggestion → String
  | .grant k        => s!"Grant '{k.text}' in the tenant, store or user layer"
  | .reviewTemplate => "Check that the subject's role template includes this permission"
  | .allowAfter k l => s!"An allow for '{k.text}' in a layer after {l.name} would restore access"
  | .removeDeny k l => s!"Remove '{k.text}' from the {l.name} layer's deny list"

structure Explanation where
  key              : PermissionKey
  granted          : Bool
  reason           : Reason
  trail            : List Contribution
  overriddenDenies : List LayerKind
  suggestions      : List Suggestion
deriving DecidableEq

namespace Decision

def reason (d : Decision) : Reason :=
  match d.decidedBy, d.final with
  | none,   _      => .noGrant d.key
  | some l, .allow => .allowedBy l d.overriddenDenies
  | some l, .deny  => .deniedBy l

/-- What is proposed to change the decision; nothing where the key is allowed.  After the user layer
there is none that could allow the key again. -/
def suggestions (d : Decision) : List Suggestion :=
  match d.decidedBy, d.final with
  | none,   _      => [.grant d.key, .reviewTemplate]
  | some _, .allow => []
  | some l, .deny  =>
    (if l = .user then [] else [.allowAfter d.key l]) ++ [.removeDeny d.key l]

def explain (d : Decision) : Explanation :=
  ⟨d.key, d.isAllowed, d.reason, d.trail, d.overriddenDenies, d.suggestions⟩

end Decision

def Explanation.toJson (e : Explanation) : Json :=
  Json.record [("key", e.key.toJson), ("granted", .bool e.granted),
    ("reason", .string e.reason.text), ("trail", .array (e.trail.map Contribution.toJson)),
    ("overridden_denies", .array (e.overriddenDenies.map LayerKind.toJson)),
    ("suggestions", Json.strings (e.suggestions.map Suggestion.text))]

end BackOffice
