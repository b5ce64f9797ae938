import BackOffice.Session.Cache
import BackOffice.Session.Contexts
import BackOffice.Session.Issuer
import BackOffice.Ident.Mint
import BackOffice.Policy.Effective
import BackOffice.Policy.Subject
import BackOffice.Failure.ApiError
/-!
# Sessions

All that one login keeps: its subject and what the subject may do, the versions of its contexts,
its unfinished attempts, its cached answers, and the mint of its fresh identifiers.  Nothing is
shared between sessions.
-/
namespace BackOffice

structure Session where
  subject     : Subject
  permissions : EffectiveSet
  contexts    : Contexts
  issuer      : Issuer
  cache       : Cache
  mint        : Mint

namespace Session

/-- A new session; everything is denied until permissions have been fetched. -/
def start (subject : Subject) (cacheTtlSecs : Nat) (mint : Mint) : Session :=
  ⟨subject, .empty, .start, .empty, .ofTtl cacheTtlSecs, mint⟩

/-- Draws a fresh identifier. -/
def draw (s : Session) : Uuid × Session := (s.mint.peek, { s with mint := s.mint.draw.2 })

/-- Draws the identifiers of one attempt. -/
def drawKeys (s : Session) : FreshKeys × Session :=
  let (key, s) := s.draw
  let (transaction, s) := s.draw
  (⟨key, transaction⟩, s)

def isAllowed (s : Session) (k : PermissionKey) : Bool := s.permissions.isAllowed k

/-- The gate in front of an operation. -/
def require (s : Session) (trace : TraceId) (k : PermissionKey) : Except ApiError Unit :=
  if s.isAllowed k then .ok () else .error (.missingPermission trace k)

/-- Puts another effective set in place of the one that is there. -/
def grant (s : Session) (set : EffectiveSet) : Session := { s with permissions := set }

/-- The stamp of a request made now. -/
def stamp (s : Session) : Stamp := s.contexts.stamp Contexts.tenantKey

def isCurrent (s : Session) (stamp : Stamp) : Bool := s.contexts.isCurrent stamp

/-- Moves on to another subject.  Stamps of the old context go stale, nothing is allowed until
permissions have been fetched again, and cached answers and unfinished attempts are dropped; marks
of operations in flight stay with those who hold them. -/
def switchContext (s : Session) (subject : Subject) : Session :=
  { s with
    subject := subject
    contexts := (s.contexts.advance Contexts.tenantKey).2
    permissions := .empty
    cache := s.cache.clear
    issuer := s.issuer.cancelAll.2 }

end Session
end BackOffice
