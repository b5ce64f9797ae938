import BackOffice.Policy.Layer
/-!
# Previews of policy edits

What an edit adds to a layer and what it removes.  An edit that adds an allowance or removes a
denial can widen somebody's access, and has to be confirmed.
-/
namespace BackOffice

structure PolicyPreview where
  allowAdded   : KeySet
  allowRemoved : KeySet
  denyAdded    : KeySet
  denyRemoved  : KeySet
deriving DecidableEq

namespace PolicyPreview

/-- The edit that turns one layer into another. -/
def between (before after : PolicyLayer) : PolicyPreview :=
  { allowAdded := after.allow.sdiff before.allow
    allowRemoved := before.allow.sdiff after.allow
    denyAdded := after.deny.sdiff before.deny
    denyRemoved := before.deny.sdiff after.deny }

def isEmpty (p : PolicyPreview) : Bool :=
  p.allowAdded.isEmpty && p.allowRemoved.isEmpty && p.denyAdded.isEmpty && p.denyRemoved.isEmpty

def requiresConfirmation (p : PolicyPreview) : Bool :=
  !p.allowAdded.isEmpty || !p.denyRemoved.isEmpty

/-- The layer after the edit. -/
def replay (p : PolicyPreview) (before : PolicyLayer) : PolicyLayer :=
  ⟨(before.allow.sdiff p.allowRemoved).union p.allowAdded,
    (before.deny.sdiff p.denyRemoved).union p.denyAdded⟩

def toJson (p : PolicyPreview) : Json :=
  Json.record [("allow_added", KeySet.toJson p.allowAdded),
    ("allow_removed", KeySet.toJson p.allowRemoved), ("deny_added", KeySet.toJson p.denyAdded),
    ("deny_removed", KeySet.toJson p.denyRemoved)]

end PolicyPreview
end BackOffice
