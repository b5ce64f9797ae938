import BackOffice.Client.Exchange
import BackOffice.Session.State
/-!
# The course of a call

A call runs in turns.  In its first turn it passes its gates and either returns or leaves a request
with the transport; each later turn takes the end of an exchange.  Between two turns a call holds
no part of the session, so other calls may take their turns; what it has to remember is its
exchange.
-/
namespace BackOffice

/-- What a call that has not returned is waiting for. -/
inductive Waiting where
  | answer (x : Exchange)
  | pause (ms : Nat) (x : Exchange)

inductive Progress where
  | waiting (w : Waiting)
  | returned (r : Reply)

namespace Client

/-! ## Replies -/

def mapError {α β : Type} (f : α → β) : Except ApiError α → Except ApiError β
  | .ok a    => .ok (f a)
  | .error e => .error e

/-- Decodes what a mutation was answered. -/
def decodeSubmission {α : Type} (d : Decoder α) (trace : TraceId) :
    Except ApiError (Submission Json) → Except ApiError (Submission α)
  | .error e => .error e
  | .ok .alreadyInFlight => .ok .alreadyInFlight
  | .ok (.completed body) =>
    match d.value body with
    | some a => .ok (.completed a)
    | none   => .error (.invalidResponse trace "unexpected response shape: not of this shape")

/-- The reply of a mutation. -/
def submissionReply (trace : TraceId) (intent : Intent) (r : Except ApiError (Submission Json)) :
    Reply :=
  match intent with
  | .createStore => .storeCreated (decodeSubmission Store.decoder trace r)
  | .createUser  => .userCreated (decodeSubmission User.decoder trace r)
  | .savePolicy preview => .policySaved (mapError (fun
      | Submission.completed _     => PolicySave.saved preview
      | Submission.alreadyInFlight => PolicySave.alreadyInFlight) r)

/-- Decodes a listing. -/
def decodeListing {α : Type} (d : Decoder α) (resource : Resource) (trace : TraceId) :
    Except ApiError Json → Except ApiError (List α)
  | .error e => .error e
  | .ok body =>
    match (Decoder.list d).value body with
    | some l => .ok l
    | none   => .error (.invalidResponse trace
        s!"unexpected {resource.name} payload: not a list of {resource.name}")

/-- The reply of a listing. -/
def listingReply (trace : TraceId) (resource : Resource) (r : Except ApiError Json) : Reply :=
  match resource with
  | .stores => .stores (decodeListing Store.decoder resource trace r)
  | .users  => .users (decodeListing User.decoder resource trace r)

/-! ## Later turns -/

/-- Takes in what a mutation was answered: a success completes the attempt and drops the tenant's
cached listings of the resource, a failure keeps the attempt.  Either way the mark is given back. -/
def settleMutation (s : Session) (m : Mutation) (tenant : TenantId) :
    Except ApiError Answer → Except ApiError (Submission Json) × Session
  | .ok a =>
    (.ok (.completed a.body),
      { s with
        issuer := (s.issuer.complete m.operation).2.finish m.operation
        cache := (s.cache.invalidate (Cache.resourceFront m.resource.name tenant.text)).2 })
  | .error e =>
    (.error e, { s with issuer := (s.issuer.markFailed m.operation).finish m.operation })

/-- Installs a report, unless the context has changed since it was asked for. -/
def install (s : Session) (stamp : Stamp) (trace : TraceId) :
    Except ApiError PermissionReport → Except ApiError EffectiveSet × Session
  | .error e => (.error e, s)
  | .ok report =>
    if s.isCurrent stamp then (.ok report.effectiveSet, s.grant report.effectiveSet)
    else (.error (.cancelled trace stamp.key), s)

/-- The last turn of a call: takes in what its exchange came to. -/
def settle (s : Session) (purpose : Purpose) (r : Except ApiError Answer) : Reply × Session :=
  let (fresh, s) := s.draw
  match purpose with
  | .send => (.answered r, s)
  | .fetch => (.report (r.bind (Answer.decode PermissionReport.decoder)), s)
  | .refresh stamp =>
    let (r, s) := install s stamp (.minted fresh) (r.bind (Answer.decode PermissionReport.decoder))
    (.installed r, s)
  | .list resource stamp key =>
    let s := match r with
      | .ok a    => if s.isCurrent stamp then { s with cache := s.cache.set key a.body } else s
      | .error _ => s
    (listingReply (.minted fresh) resource (mapError Answer.body r), s)
  | .submit m tenant =>
    let (r, s) := settleMutation s m tenant r
    (submissionReply (.minted fresh) m.intent r, s)

/-- The turn of a call whose exchange has ended. -/
def arrive (c : Config) (s : Session) (x : Exchange) (arrival : Arrival) : Progress × Session :=
  let (fresh, s) := s.draw
  let current := match x.request.context with
    | some stamp => s.isCurrent stamp
    | none       => true
  match c.judge x.request x.attempt current fresh arrival with
  | .again ms  => (.waiting (.pause ms x), s)
  | .settled r =>
    let (reply, s) := settle s x.purpose r
    (.returned reply, s)

/-- The turn of a call whose pause is over. -/
def resume (x : Exchange) : Progress := .waiting (.answer { x with attempt := x.attempt + 1 })

/-- Drops a call that has not returned: a mutation gives its mark back. -/
def abandon (s : Session) (x : Exchange) : Session :=
  match x.purpose with
  | .submit m _ => { s with issuer := s.issuer.finish m.operation }
  | _ => s

/-! ## The first turn -/

/-- Hands a request to the transport, unless it must not be sent. -/
def launch (s : Session) (request : Request) (purpose : Purpose) : Progress × Session :=
  let (fresh, s) := s.draw
  match request.refusal? (.minted fresh) with
  | none   => (.waiting (.answer ⟨request, purpose, 1⟩), s)
  | some e =>
    let (reply, s) := settle s purpose (.error e)
    (.returned reply, s)

/-- The request for the permissions of the session's subject. -/
def permissionRequest (subject : Subject) : Request :=
  let r := Request.make .get
    s!"/tenants/{subject.tenant.text}/users/{subject.user.text}/effective-permissions"
  match subject.store with
  | some store => r.withQuery "store_id" store.text
  | none       => r

/-- The request for a listing of the tenant's records. -/
def listRequest (s : Session) (resource : Resource) : Request :=
  Request.make .get (resource.path s.subject.tenant)

/-- Where the cache keeps a listing. -/
def listKey (s : Session) (resource : Resource) : String :=
  let request := listRequest s resource
  Cache.key resource.name s.subject.scope request.path request.query

/-- Answers a listing from the cache, or asks for it. -/
def list (s : Session) (resource : Resource) : Progress × Session :=
  let stamp := s.stamp
  let key := listKey s resource
  let (hit, cache) := s.cache.get key
  let s := { s with cache := cache }
  match hit with
  | some body =>
    let (fresh, s) := s.draw
    (.returned (listingReply (.minted fresh) resource (.ok body)), s)
  | none => launch s ((listRequest s resource).withContext stamp) (.list resource stamp key)

/-- The request of a mutation under the keys of its attempt. -/
def mutationRequest (m : Mutation) (keys : AttemptKeys) (stamp : Stamp) : Request :=
  (((Request.make m.method m.path).withBody m.body).withIdempotency keys true).withContext stamp

/-- Binds an attempt to the request and sends it; the operation's mark has been taken. -/
def submit (s : Session) (m : Mutation) : Progress × Session :=
  let stamp := s.stamp
  let tenant := s.subject.tenant
  let (fresh, s) := s.drawKeys
  let (keys, issuer) := s.issuer.obtainForRequest fresh m.operation m.method.name m.path m.body
  let s := { s with issuer := issuer }
  match keys with
  | .ok keys => launch s (mutationRequest m keys stamp) (.submit m tenant)
  | .error conflict =>
    let (trace, s) := s.draw
    (.returned (submissionReply (.minted trace) m.intent
        (.error (.conflict (.minted trace) conflict.message))),
      { s with issuer := s.issuer.finish m.operation })

/-- A mutation has to be permitted, and to find its operation not in flight. -/
def mutate (s : Session) (m : Mutation) : Progress × Session :=
  let (fresh, s) := s.draw
  match s.require (.minted fresh) m.permission with
  | .error e => (.returned (submissionReply (.minted fresh) m.intent (.error e)), s)
  | .ok () =>
    let (begun, issuer) := s.issuer.start m.operation
    if begun then submit { s with issuer := issuer } m
    else (.returned (submissionReply (.minted fresh) m.intent (.ok .alreadyInFlight)), s)

/-- The mutation that opens a store. -/
def storeMutation (s : Session) (store : NewStore) : Mutation :=
  { operation := "store-create"
    permission := Permission.createStores
    method := .post
    path := Resource.stores.path s.subject.tenant
    body := store.toJson
    resource := .stores
    intent := .createStore }

def createStore (s : Session) (store : NewStore) : Progress × Session :=
  mutate s (storeMutation s store)

/-- The mutation that enrols a user. -/
def userMutation (s : Session) (user : NewUser) : Mutation :=
  { operation := "user-create"
    permission := Permission.createUsers
    method := .post
    path := Resource.users.path s.subject.tenant
    body := user.toJson
    resource := .users
    intent := .createUser }

def createUser (s : Session) (user : NewUser) : Progress × Session :=
  mutate s (userMutation s user)

/-- The mutation that saves a user's policy. -/
def policyMutation (s : Session) (user : UserId) (after : PolicyLayer) (preview : PolicyPreview) :
    Mutation :=
  { operation := s!"user-policy-update:{user.text}"
    permission := Permission.managePolicies
    method := .put
    path := s!"/tenants/{s.subject.tenant.text}/users/{user.text}/policy"
    body := after.toJson
    resource := .users
    intent := .savePolicy preview }

/-- Saves a policy edit.  Nothing is sent if the edit changes nothing, if it grants a key beyond
the ceiling of the session, or if it can widen access and is not confirmed. -/
def savePolicy (s : Session) (user : UserId) (before after : PolicyLayer) (confirmed : Bool) :
    Progress × Session :=
  let (fresh, s) := s.draw
  match s.require (.minted fresh) Permission.managePolicies with
  | .error e => (.returned (.policySaved (.error e)), s)
  | .ok () =>
    let preview := PolicyPreview.between before after
    let blocked := s.permissions.ceilingViolations preview.allowAdded
    if preview.isEmpty then (.returned (.policySaved (.ok .noChanges)), s)
    else if !blocked.isEmpty then (.returned (.policySaved (.ok (.blocked blocked preview))), s)
    else if preview.requiresConfirmation && !confirmed then
      (.returned (.policySaved (.ok (.needsConfirmation preview))), s)
    else mutate s (policyMutation s user after preview)

/-- The first turn of a call. -/
def start (s : Session) : Call → Progress × Session
  | .fetchPermissions => launch s ((permissionRequest s.subject).withContext s.stamp) .fetch
  | .refreshPermissions =>
    launch s ((permissionRequest s.subject).withContext s.stamp) (.refresh s.stamp)
  | .list resource => list s resource
  | .createStore store => createStore s store
  | .createUser user => createUser s user
  | .savePolicy user before after confirmed => savePolicy s user before after confirmed
  | .send request => launch s request .send

end Client
end BackOffice
