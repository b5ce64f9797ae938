import BackOffice.Client.Run
/-!
# What one turn of a call does

Everything that is proved of runs rests on two facts about single turns.  The first turn of a call
comes to one of six things (`start_opening`), and only a submission that passed its gates touches
the attempts and marks.  A later turn is judged (`Client.verdict`), and a call whose exchange has
come to an end is settled by its purpose; nothing else of the session changes but the count of
identifiers drawn, which `Session.skip` moves on.
-/
namespace BackOffice

namespace Session

/-- The session after so many more identifiers have been drawn. -/
def skip (s : Session) (n : Nat) : Session := { s with mint := { s.mint with drawn := s.mint.drawn + n } }

@[simp] theorem skip_subject (s : Session) (n : Nat) : (s.skip n).subject = s.subject := rfl
@[simp] theorem skip_permissions (s : Session) (n : Nat) : (s.skip n).permissions = s.permissions := rfl
@[simp] theorem skip_contexts (s : Session) (n : Nat) : (s.skip n).contexts = s.contexts := rfl
@[simp] theorem skip_issuer (s : Session) (n : Nat) : (s.skip n).issuer = s.issuer := rfl
@[simp] theorem skip_cache (s : Session) (n : Nat) : (s.skip n).cache = s.cache := rfl
@[simp] theorem skip_supply (s : Session) (n : Nat) : (s.skip n).mint.supply = s.mint.supply := rfl
@[simp] theorem skip_drawn (s : Session) (n : Nat) : (s.skip n).mint.drawn = s.mint.drawn + n := rfl
@[simp] theorem skip_stamp (s : Session) (n : Nat) : (s.skip n).stamp = s.stamp := rfl

theorem skip_skip (s : Session) (m n : Nat) : (s.skip m).skip n = s.skip (m + n) := by
  unfold skip; simp only [Nat.add_assoc]

theorem draw_eq (s : Session) : s.draw = (s.mint.peek, s.skip 1) := rfl

/-- The identifiers that the next attempt would be made of. -/
def nextKeys (s : Session) : FreshKeys := ⟨s.mint.supply s.mint.drawn, s.mint.supply (s.mint.drawn + 1)⟩

theorem drawKeys_eq (s : Session) : s.drawKeys = (s.nextKeys, s.skip 2) := rfl

theorem require_of_allowed {s : Session} {k : PermissionKey} (h : s.isAllowed k = true) (trace : TraceId) :
    s.require trace k = .ok () := if_pos h

theorem require_of_denied {s : Session} {k : PermissionKey} (h : s.isAllowed k = false) (trace : TraceId) :
    s.require trace k = .error (.missingPermission trace k) := if_neg (h ▸ Bool.false_ne_true)

end Session

/-! ## Marks and attempts -/

namespace Issuer

@[simp] theorem attempt?_finish (i : Issuer) (name other : String) : (i.finish name).attempt? other = i.attempt? other :=
  rfl

@[simp] theorem attempt?_cancelAll (i : Issuer) (other : String) : i.cancelAll.2.attempt? other = none := rfl

theorem attempt?_complete (i : Issuer) (name other : String) :
    (i.complete name).2.attempt? other = if other = name then none else i.attempt? other := Table.get?_erase _ _ _

theorem attempt?_cancel (i : Issuer) (name other : String) :
    (i.cancel name).2.attempt? other = if other = name then none else i.attempt? other := Table.get?_erase _ _ _

theorem attempt?_markFailed (i : Issuer) (name other : String) : (i.markFailed name).attempt? other =
    if other = name then (i.attempt? other).map (fun a => { a with state := .failed }) else i.attempt? other :=
  Table.get?_adjust _ _ _ _

/-- The attempt that a payload is bound to under a name: the one that is there, unless it is bound
to another payload, or a new one. -/
def binding? (i : Issuer) (fresh : FreshKeys) (name : String) (payload : Json) : Option Attempt :=
  match i.attempt? name with
  | some a =>
    if a.fingerprint.isSome && a.fingerprint != some (fingerprint payload) then none
    else some { a with fingerprint := some (fingerprint payload), state := .pending }
  | none => some (.mint name fresh (some (fingerprint payload)))

theorem obtainFor_eq (i : Issuer) (fresh : FreshKeys) (name : String) (payload : Json) :
    i.obtainFor fresh name payload = match i.binding? fresh name payload with
      | some a => (.ok a.keys, { i with attempts := i.attempts.insert name a })
      | none   => (.error ⟨name⟩, i) := by
  unfold obtainFor binding?
  cases i.attempt? name with
  | none => rfl
  | some a =>
    simp only
    by_cases h : (a.fingerprint.isSome && a.fingerprint != some (fingerprint payload)) = true
    · rw [if_pos h, if_pos h]
    · rw [if_neg h, if_neg h]

/-- An attempt that a payload is bound to keeps its keys, or is new; either way it is bound to it. -/
theorem binding?_cases {i : Issuer} {fresh : FreshKeys} {name : String} {payload : Json} {a : Attempt}
    (h : i.binding? fresh name payload = some a) :
    a.fingerprint = some (fingerprint payload) ∧
      ((∃ b, i.attempt? name = some b ∧ a.keys = b.keys ∧
          (b.fingerprint = none ∨ b.fingerprint = some (fingerprint payload))) ∨
        i.attempt? name = none ∧ a.keys = Attempt.keysOf name fresh) := by
  unfold binding? at h
  split at h
  · rename_i b hb
    split at h
    · cases h
    · rename_i hbound
      cases h
      refine ⟨rfl, .inl ⟨b, hb, rfl, ?_⟩⟩
      cases hprint : b.fingerprint with
      | none => exact .inl rfl
      | some print =>
        rw [hprint] at hbound
        exact .inr (by simpa using hbound)
  · rename_i hnone
    cases h
    exact ⟨rfl, .inr ⟨hnone, rfl⟩⟩

theorem binding?_of_bound {i : Issuer} {name print : String} {a : Attempt} (ha : i.attempt? name = some a)
    (hprint : a.fingerprint = some print) (fresh : FreshKeys) (payload : Json) :
    i.binding? fresh name payload = if print = fingerprint payload then
      some { a with fingerprint := some (fingerprint payload), state := .pending } else none := by
  unfold binding?
  simp only [ha, hprint]
  by_cases h : print = fingerprint payload
  · simp [h]
  · simp [h]

theorem start_of_marked (i : Issuer) (name : String) (h : i.isInFlight name = true) :
    i.start name = (false, i) := if_pos h

theorem start_of_unmarked (i : Issuer) (name : String) (h : i.isInFlight name = false) :
    i.start name = (true, { i with inFlight := i.inFlight.insert name }) := by
  unfold isInFlight at h
  unfold start
  rw [h]; rfl

theorem finish_of_started (i : Issuer) (name : String) (h : i.isInFlight name = false) :
    ({ i with inFlight := i.inFlight.insert name } : Issuer).finish name = i := by
  unfold finish
  have hmem : ¬ name ∈ i.inFlight := by simpa [isInFlight, SortedSet.contains] using h
  have hset : (i.inFlight.insert name).erase name = i.inFlight := by
    apply SortedSet.ext
    intro x
    rw [SortedSet.mem_erase, SortedSet.mem_insert]
    constructor
    · rintro ⟨hx, hne⟩
      exact hx.resolve_left hne
    · intro hx
      exact ⟨.inr hx, fun e => hmem (e ▸ hx)⟩
  simp only [hset]

end Issuer

/-! ## Requests -/

namespace Request

theorem isMutation_of_get {r : Request} (h : r.method = .get) : r.isMutation = false := by
  unfold isMutation
  rw [h]; rfl

theorem refusal?_get (r : Request) (trace : TraceId) (h : r.method = .get) : r.refusal? trace = none := by
  unfold refusal?
  rw [isMutation_of_get h]; rfl

end Request

/-! ## Answers -/

/-- An answer with a status of success whose body reads as this value; an empty one reads as null. -/
def Arrival.Yields (arrival : Arrival) (body : Json) : Prop :=
  ∃ raw, arrival = .ok raw ∧ raw.isSuccess = true ∧
    (if (Text.trim raw.body).isEmpty then some Json.null else Json.parse raw.body) = some body

theorem Arrival.yields_of_read {fresh : Uuid} {arrival : Arrival} {answer : Answer}
    (h : arrival.read fresh = .ok answer) : arrival.Yields answer.body := by
  cases arrival with
  | error e => cases h
  | ok raw =>
    unfold read at h
    simp only at h
    by_cases hs : raw.isSuccess = true
    · rw [if_pos hs] at h
      unfold Answer.ofRaw at h
      simp only at h
      split at h
      · cases h
      · rename_i body hbody
        cases h
        exact ⟨raw, rfl, hs, hbody⟩
    · rw [if_neg hs] at h; cases h

theorem Arrival.read_of_yields {arrival : Arrival} {body : Json} (h : arrival.Yields body) (fresh : Uuid) :
    ∃ answer, arrival.read fresh = .ok answer ∧ answer.body = body := by
  obtain ⟨raw, rfl, hs, hbody⟩ := h
  unfold read
  simp only [hs, if_true]
  unfold Answer.ofRaw
  simp only [hbody]
  exact ⟨_, rfl, rfl⟩

namespace Client

theorem header?_mutationRequest (m : Mutation) (keys : AttemptKeys) (stamp : Stamp) :
    (mutationRequest m keys stamp).header? Request.idempotencyHeader = some keys.idempotencyKey := by
  unfold Request.header? mutationRequest Request.withIdempotency
  simp [Request.withContext, Request.withBody, Request.make, Request.isNamed, Text.sameIgnoringCase_self]

theorem refusal?_mutationRequest (m : Mutation) (keys : AttemptKeys) (stamp : Stamp) (trace : TraceId) :
    (mutationRequest m keys stamp).refusal? trace = none := by
  unfold Request.refusal?
  rw [header?_mutationRequest]
  simp

theorem launch_eq (s : Session) (request : Request) (purpose : Purpose)
    (h : ∀ trace, request.refusal? trace = none) :
    launch s request purpose = (.waiting (.answer ⟨request, purpose, 1⟩), s.skip 1) := by
  unfold launch
  rw [Session.draw_eq]
  simp only [h]

theorem permissionRequest_method (subject : Subject) : (permissionRequest subject).method = .get := by
  unfold permissionRequest
  cases subject.store <;> rfl

/-! ## The first turn -/

/-- What becomes of a policy edit that changes nothing, goes beyond the ceiling of the session, or has
to be confirmed and is not; the first of the three that applies. -/
def heldBack? (s : Session) (before after : PolicyLayer) (confirmed : Bool) : Option PolicySave :=
  let preview := PolicyPreview.between before after
  let blocked := s.permissions.ceilingViolations preview.allowAdded
  if preview.isEmpty then some .noChanges
  else if !blocked.isEmpty then some (.blocked blocked preview)
  else if preview.requiresConfirmation && !confirmed then some (.needsConfirmation preview)
  else none

/-- The mutation that a call asks for, if it asks for one and is not held back. -/
def mutation? (s : Session) : Call → Option Mutation
  | .createStore store => some (storeMutation s store)
  | .createUser user   => some (userMutation s user)
  | .savePolicy user before after confirmed =>
    match heldBack? s before after confirmed with
    | some _ => none
    | none   => some (policyMutation s user after (PolicyPreview.between before after))
  | _ => none

theorem mutation?_cases {s : Session} {call : Call} {m : Mutation} (hm : mutation? s call = some m) :
    (∃ store, call = .createStore store ∧ m = storeMutation s store) ∨
    (∃ user, call = .createUser user ∧ m = userMutation s user) ∨
    ∃ user before after confirmed, call = .savePolicy user before after confirmed ∧
      heldBack? s before after confirmed = none ∧
      m = policyMutation s user after (PolicyPreview.between before after) := by
  cases call with
  | createStore store => cases hm; exact .inl ⟨store, rfl, rfl⟩
  | createUser user => cases hm; exact .inr (.inl ⟨user, rfl, rfl⟩)
  | savePolicy user before after confirmed =>
    cases hheld : heldBack? s before after confirmed with
    | some held => simp only [mutation?, hheld] at hm; cases hm
    | none =>
      simp only [mutation?, hheld] at hm
      cases hm
      exact .inr (.inr ⟨user, before, after, confirmed, rfl, hheld, rfl⟩)
  | _ => cases hm

end Client

/-- What the attempt of a mutation is bound to. -/
def Mutation.payload (m : Mutation) : Json := requestPayload m.method.name m.path m.body

namespace Client

/-- What a call that submits a mutation waits for. -/
def submission (s : Session) (m : Mutation) (keys : AttemptKeys) : Exchange :=
  ⟨mutationRequest m keys s.stamp, .submit m s.subject.tenant, 1⟩

/-- The session that has marked a mutation's operation and keeps its attempt. -/
def holding (s : Session) (m : Mutation) (a : Attempt) : Session :=
  { s with issuer := ⟨s.issuer.inFlight.insert m.operation, s.issuer.attempts.insert m.operation a⟩ }

theorem attempt?_holding (s : Session) (m : Mutation) (a : Attempt) (n : Nat) (name : String) :
    ((holding s m a).skip n).issuer.attempt? name = if m.operation = name then some a else s.issuer.attempt? name :=
  Table.get?_insert _ _ _ _

theorem stamp_holding (s : Session) (m : Mutation) (a : Attempt) (n : Nat) :
    ((holding s m a).skip n).stamp = s.stamp := rfl

theorem submit_eq (s : Session) (m : Mutation) :
    submit s m = match s.issuer.binding? s.nextKeys m.operation m.payload with
      | some a => (.waiting (.answer (submission s m a.keys)),
          { s.skip 3 with issuer := { s.issuer with attempts := s.issuer.attempts.insert m.operation a } })
      | none => (.returned (submissionReply (.minted (s.skip 2).mint.peek) m.intent
            (.error (.conflict (.minted (s.skip 2).mint.peek) (AttemptConflict.message ⟨m.operation⟩)))),
          { s.skip 3 with issuer := s.issuer.finish m.operation }) := by
  unfold submit
  rw [Session.drawKeys_eq]
  simp only [Issuer.obtainForRequest, Issuer.obtainFor_eq, Session.skip_issuer, Mutation.payload]
  cases s.issuer.binding? s.nextKeys m.operation (requestPayload m.method.name m.path m.body) with
  | some a =>
    simp only
    rw [launch_eq _ _ _ (refusal?_mutationRequest m a.keys _)]
    rfl
  | none => rfl

/-- A mutation that passes its gates is sent under the attempt it is bound to, and is refused without
a trace where the attempt of its operation is bound to something else. -/
theorem mutate_of_free (s : Session) (m : Mutation) (hp : s.isAllowed m.permission = true)
    (hf : s.issuer.isInFlight m.operation = false) :
    mutate s m = match s.issuer.binding? (s.skip 1).nextKeys m.operation m.payload with
      | some a => (.waiting (.answer (submission s m a.keys)), (holding s m a).skip 4)
      | none => (.returned (submissionReply (.minted (s.skip 3).mint.peek) m.intent
            (.error (.conflict (.minted (s.skip 3).mint.peek) (AttemptConflict.message ⟨m.operation⟩)))),
          s.skip 4) := by
  let marked : Session :=
    { s.skip 1 with issuer := { s.issuer with inFlight := s.issuer.inFlight.insert m.operation } }
  have hsubmit : mutate s m = submit marked m := by
    unfold mutate
    rw [Session.draw_eq]
    have hp' : (s.skip 1).isAllowed m.permission = true := hp
    simp only [Session.require_of_allowed hp', Session.skip_issuer, Issuer.start_of_unmarked _ _ hf]
    rfl
  -- taking the mark leaves the attempts as they are
  have hbind : marked.issuer.binding? marked.nextKeys m.operation m.payload =
      s.issuer.binding? (s.skip 1).nextKeys m.operation m.payload := rfl
  rw [hsubmit, submit_eq, hbind]
  cases s.issuer.binding? (s.skip 1).nextKeys m.operation m.payload with
  | some a => rfl
  | none =>
    have hfinish : marked.issuer.finish m.operation = s.issuer := Issuer.finish_of_started _ _ hf
    simp only [hfinish]
    rfl

theorem mutate_of_refused (s : Session) (m : Mutation) (hp : s.isAllowed m.permission = false) :
    mutate s m = (.returned (submissionReply (.minted s.mint.peek) m.intent
      (.error (.missingPermission (.minted s.mint.peek) m.permission))), s.skip 1) := by
  unfold mutate
  rw [Session.draw_eq]
  have hp' : (s.skip 1).isAllowed m.permission = false := hp
  simp only [Session.require_of_denied hp']

theorem mutate_of_inFlight (s : Session) (m : Mutation) (hp : s.isAllowed m.permission = true)
    (hf : s.issuer.isInFlight m.operation = true) :
    mutate s m = (.returned (submissionReply (.minted s.mint.peek) m.intent (.ok .alreadyInFlight)), s.skip 1) := by
  unfold mutate
  rw [Session.draw_eq]
  have hp' : (s.skip 1).isAllowed m.permission = true := hp
  simp only [Session.require_of_allowed hp', Session.skip_issuer, Issuer.start_of_marked _ _ hf, Bool.false_eq_true,
    if_false]

/-- What the first turn of a call can come to. -/
inductive Opening (s : Session) (call : Call) : Progress → Session → Prop where
  /-- It returns, and nothing has happened but that identifiers were drawn. -/
  | declined (reply : Reply) (n : Nat) : Opening s call (.returned reply) (s.skip n)
  /-- A listing is answered from the cache. -/
  | served (resource : Resource) (body : Json) (hc : call = .list resource)
      (hit : (s.cache.get (listKey s resource)).1 = some body) :
      Opening s call (.returned (listingReply (.minted s.mint.peek) resource (.ok body)))
        ({ s with cache := (s.cache.get (listKey s resource)).2 }.skip 1)
  /-- A listing that the cache does not hold is asked for. -/
  | listed (resource : Resource) (hc : call = .list resource)
      (miss : (s.cache.get (listKey s resource)).1 = none) :
      Opening s call (.waiting (.answer ⟨(listRequest s resource).withContext s.stamp,
          .list resource s.stamp (listKey s resource), 1⟩))
        ({ s with cache := (s.cache.get (listKey s resource)).2 }.skip 1)
  /-- The permissions of the subject are asked for. -/
  | asked (purpose : Purpose)
      (hc : call = .fetchPermissions ∧ purpose = .fetch ∨
        call = .refreshPermissions ∧ purpose = .refresh s.stamp) :
      Opening s call (.waiting (.answer ⟨(permissionRequest s.subject).withContext s.stamp, purpose, 1⟩)) (s.skip 1)
  /-- A request is sent as it is given. -/
  | sent (request : Request) (hc : call = .send request) :
      Opening s call (.waiting (.answer ⟨request, .send, 1⟩)) (s.skip 1)
  /-- A mutation has passed its gates and is sent under its attempt. -/
  | submitted (m : Mutation) (a : Attempt) (n : Nat) (hm : mutation? s call = some m)
      (hp : s.isAllowed m.permission = true) (hf : s.issuer.isInFlight m.operation = false)
      (hb : s.issuer.binding? (s.skip n).nextKeys m.operation m.payload = some a) :
      Opening s call (.waiting (.answer (submission s m a.keys))) ((holding s m a).skip (n + 3))

theorem mutate_opening (s : Session) (call : Call) (m : Mutation) (n : Nat) (hm : mutation? s call = some m) :
    Opening s call (mutate (s.skip n) m).1 (mutate (s.skip n) m).2 := by
  cases hp : s.isAllowed m.permission with
  | false =>
    rw [mutate_of_refused (s.skip n) m hp, Session.skip_skip]
    exact .declined _ _
  | true =>
    cases hf : s.issuer.isInFlight m.operation with
    | true =>
      rw [mutate_of_inFlight (s.skip n) m hp hf, Session.skip_skip]
      exact .declined _ _
    | false =>
      rw [mutate_of_free (s.skip n) m hp hf, Session.skip_skip, Session.skip_issuer]
      cases hb : s.issuer.binding? (s.skip (n + 1)).nextKeys m.operation m.payload with
      | none =>
        simp only [Session.skip_skip]
        exact .declined _ _
      | some a => exact .submitted m a (n + 1) hm hp hf hb

/-- **The gates of a policy edit, in their order.** -/
theorem savePolicy_eq (s : Session) (user : UserId) (before after : PolicyLayer) (confirmed : Bool) :
    savePolicy s user before after confirmed =
      if s.isAllowed Permission.managePolicies = true then
        match heldBack? s before after confirmed with
        | some held => (.returned (.policySaved (.ok held)), s.skip 1)
        | none => mutate (s.skip 1) (policyMutation s user after (PolicyPreview.between before after))
      else (.returned (.policySaved (.error (.missingPermission (.minted s.mint.peek) Permission.managePolicies))),
        s.skip 1) := by
  unfold savePolicy
  rw [Session.draw_eq, show heldBack? s before after confirmed = heldBack? (s.skip 1) before after confirmed from rfl,
    show s.isAllowed Permission.managePolicies = (s.skip 1).isAllowed Permission.managePolicies from rfl]
  cases hp : (s.skip 1).isAllowed Permission.managePolicies with
  | false => simp only [Session.require_of_denied hp, Bool.false_eq_true, if_false]
  | true =>
    simp only [Session.require_of_allowed hp, if_true]
    unfold heldBack?
    by_cases hsome : (PolicyPreview.between before after).isEmpty = true
    · simp only [if_pos hsome]
    simp only [if_neg hsome]
    by_cases hbeyond : (!((s.skip 1).permissions.ceilingViolations
        (PolicyPreview.between before after).allowAdded).isEmpty) = true
    · simp only [if_pos hbeyond]
    simp only [if_neg hbeyond]
    by_cases hask : ((PolicyPreview.between before after).requiresConfirmation && !confirmed) = true
    · simp only [if_pos hask]
    · simp only [if_neg hask]
      rfl

theorem start_of_mutation {s : Session} {call : Call} {m : Mutation} (hm : mutation? s call = some m)
    (hp : s.isAllowed m.permission = true) : ∃ n, start s call = mutate (s.skip n) m := by
  rcases mutation?_cases hm with ⟨store, rfl, rfl⟩ | ⟨user, rfl, rfl⟩ | ⟨user, before, after, confirmed, rfl, hheld, rfl⟩
  · exact ⟨0, rfl⟩
  · exact ⟨0, rfl⟩
  · have hmanage : s.isAllowed Permission.managePolicies = true := hp
    refine ⟨1, ?_⟩
    simp only [start]
    rw [savePolicy_eq, if_pos hmanage, hheld]

theorem start_of_gated {s : Session} {call : Call} {m : Mutation} (hm : mutation? s call = some m)
    (hp : s.isAllowed m.permission = true) (hf : s.issuer.isInFlight m.operation = false) :
    ∃ n, start s call = match s.issuer.binding? (s.skip n).nextKeys m.operation m.payload with
      | some a => (.waiting (.answer (submission s m a.keys)), (holding s m a).skip (n + 3))
      | none => (.returned (submissionReply (.minted (s.skip (n + 2)).mint.peek) m.intent
            (.error (.conflict (.minted (s.skip (n + 2)).mint.peek) (AttemptConflict.message ⟨m.operation⟩)))),
          s.skip (n + 3)) := by
  obtain ⟨n, hn⟩ := start_of_mutation hm hp
  refine ⟨n + 1, ?_⟩
  rw [hn, mutate_of_free (s.skip n) m hp hf, Session.skip_skip, Session.skip_issuer]
  cases s.issuer.binding? (s.skip (n + 1)).nextKeys m.operation m.payload with
  | some a =>
    have hskip : (holding (s.skip n) m a).skip 4 = (holding s m a).skip (n + 1 + 3) :=
      Session.skip_skip (holding s m a) n 4
    simp only [hskip]
    rfl
  | none => simp only [Session.skip_skip]

theorem list_of_hit {s : Session} {resource : Resource} {body : Json}
    (hit : (s.cache.get (listKey s resource)).1 = some body) :
    list s resource = (.returned (listingReply (.minted s.mint.peek) resource (.ok body)),
      { s with cache := (s.cache.get (listKey s resource)).2 }.skip 1) := by
  unfold list
  simp only [hit, Session.draw_eq]

theorem list_of_miss {s : Session} {resource : Resource} (miss : (s.cache.get (listKey s resource)).1 = none) :
    list s resource = (.waiting (.answer ⟨(listRequest s resource).withContext s.stamp,
        .list resource s.stamp (listKey s resource), 1⟩),
      { s with cache := (s.cache.get (listKey s resource)).2 }.skip 1) := by
  unfold list
  simp only [miss]
  rw [launch_eq _ _ _ (fun trace => Request.refusal?_get _ trace rfl)]
  rfl

theorem list_opening (s : Session) (resource : Resource) :
    Opening s (.list resource) (list s resource).1 (list s resource).2 := by
  cases hit : (s.cache.get (listKey s resource)).1 with
  | some body =>
    rw [list_of_hit hit]
    exact .served resource body rfl hit
  | none =>
    rw [list_of_miss hit]
    exact .listed resource rfl hit

/-- **Every first turn is one of six**, and only a submission touches the attempts and marks. -/
theorem start_opening (s : Session) (call : Call) : Opening s call (start s call).1 (start s call).2 := by
  have hget : ∀ trace, ((permissionRequest s.subject).withContext s.stamp).refusal? trace = none := fun trace =>
    Request.refusal?_get _ trace (permissionRequest_method s.subject)
  cases call with
  | fetchPermissions =>
    simp only [start]
    rw [launch_eq _ _ _ hget]
    exact .asked _ (.inl ⟨rfl, rfl⟩)
  | refreshPermissions =>
    simp only [start]
    rw [launch_eq _ _ _ hget]
    exact .asked _ (.inr ⟨rfl, rfl⟩)
  | list resource => exact list_opening s resource
  | createStore store => exact mutate_opening s _ _ 0 rfl
  | createUser user => exact mutate_opening s _ _ 0 rfl
  | savePolicy user before after confirmed =>
    simp only [start]
    rw [savePolicy_eq]
    split
    · cases hheld : heldBack? s before after confirmed with
      | some held => exact .declined _ _
      | none => exact mutate_opening s _ _ 1 (by simp only [mutation?, hheld])
    · exact .declined _ _
  | send request =>
    simp only [start]
    unfold launch
    rw [Session.draw_eq]
    cases h : request.refusal? (.minted s.mint.peek) with
    | none =>
      simp only [h]
      exact .sent request rfl
    | some e =>
      simp only [h]
      exact .declined _ 2

end Client

/-! ## Later turns -/

/-- Whether the context of a request is still the one it was made in. -/
def Session.isInContext (s : Session) (r : Request) : Bool :=
  match r.context with
  | some stamp => s.isCurrent stamp
  | none       => true

namespace Client

/-- How the end of an exchange is judged. -/
def verdict (c : Config) (s : Session) (x : Exchange) (arrival : Arrival) : Verdict :=
  c.judge x.request x.attempt (s.isInContext x.request) s.mint.peek arrival

theorem arrive_eq (c : Config) (s : Session) (x : Exchange) (arrival : Arrival) :
    arrive c s x arrival = match verdict c s x arrival with
      | .again ms  => (.waiting (.pause ms x), s.skip 1)
      | .settled r => (.returned (settle (s.skip 1) x.purpose r).1, (settle (s.skip 1) x.purpose r).2) := rfl

/-- **A stale answer is cancelled**, whatever it was. -/
theorem verdict_of_stale (c : Config) {s : Session} {x : Exchange} {stamp : Stamp} (arrival : Arrival)
    (hx : x.request.context = some stamp) (hs : s.isCurrent stamp = false) :
    verdict c s x arrival = .settled (.error (.cancelled (.minted s.mint.peek) stamp.key)) := by
  unfold verdict Session.isInContext Config.judge
  simp only [hx, hs]

theorem method_of_again {c : Config} {s : Session} {x : Exchange} {arrival : Arrival} {ms : Nat}
    (hx : 1 ≤ x.attempt) (h : verdict c s x arrival = .again ms) : x.request.method = .get := by
  unfold verdict Config.judge at h
  split at h
  · cases h
  split at h
  · cases h
  split at h
  · rename_i hmay
    simp only [Bool.and_eq_true, decide_eq_true_eq] at hmay
    unfold Config.attemptsFor at hmay
    split at hmay
    · assumption
    · omega
  · cases h

/-- An answer is taken for a success only in the context of its request. -/
theorem inContext_of_success {c : Config} {s : Session} {x : Exchange} {arrival : Arrival} {a : Answer}
    (h : verdict c s x arrival = .settled (.ok a)) : s.isInContext x.request = true := by
  unfold Session.isInContext
  cases hx : x.request.context with
  | none => rfl
  | some stamp =>
    cases hs : s.isCurrent stamp with
    | true => simp only [hs]
    | false => rw [verdict_of_stale c arrival hx hs] at h; cases h

/-- In its context an exchange is judged by its outcome and the count of its attempts alone. -/
theorem verdict_of_current (c : Config) {s : Session} {x : Exchange} (arrival : Arrival)
    (h : s.isInContext x.request = true) :
    verdict c s x arrival = match arrival.read s.mint.peek with
      | .ok a    => .settled (.ok a)
      | .error e => if e.isRetryable && decide (x.attempt < c.attemptsFor x.request) then .again (c.backoffFor x.attempt)
        else .settled (.error e) := by
  unfold verdict
  rw [h]
  unfold Config.judge
  split
  · rename_i hcontext; cases hcontext
  · rfl

theorem read_of_success {c : Config} {s : Session} {x : Exchange} {arrival : Arrival} {a : Answer}
    (h : verdict c s x arrival = .settled (.ok a)) : arrival.read s.mint.peek = .ok a := by
  rw [verdict_of_current c arrival (inContext_of_success h)] at h
  split at h
  · rename_i hread; cases h; exact hread
  · split at h <;> cases h

/-- The session after an exchange has come to its end.  A report is installed and a listing is kept
only in the context they were asked for in; an answered mutation completes its attempt and drops the
listings it has outdated; a failed one keeps its attempt; and a mutation gives its mark back. -/
def concluded (s : Session) : Purpose → Except ApiError Answer → Session
  | .refresh stamp, .ok a =>
    match a.decode PermissionReport.decoder with
    | .ok report => if s.isCurrent stamp then s.grant report.effectiveSet else s
    | .error _   => s
  | .list _ stamp key, .ok a => if s.isCurrent stamp then { s with cache := s.cache.set key a.body } else s
  | .submit m tenant, .ok _ =>
    { s with
      issuer := (s.issuer.complete m.operation).2.finish m.operation
      cache := (s.cache.invalidate (Cache.resourceFront m.resource.name tenant.text)).2 }
  | .submit m _, .error _ => { s with issuer := (s.issuer.markFailed m.operation).finish m.operation }
  | _, _ => s

theorem concluded_skip (s : Session) (n : Nat) (p : Purpose) (r : Except ApiError Answer) :
    concluded (s.skip n) p r = (concluded s p r).skip n := by
  cases p with
  | fetch => rfl
  | send => rfl
  | submit m tenant => cases r <;> rfl
  | list resource stamp key =>
    cases r with
    | error e => rfl
    | ok a =>
      simp only [concluded]
      by_cases hcurrent : s.isCurrent stamp = true
      · have hskip : (s.skip n).isCurrent stamp = true := hcurrent
        rw [if_pos hcurrent, if_pos hskip]; rfl
      · have hskip : ¬ (s.skip n).isCurrent stamp = true := hcurrent
        rw [if_neg hcurrent, if_neg hskip]
  | refresh stamp =>
    cases r with
    | error e => rfl
    | ok a =>
      simp only [concluded]
      cases a.decode PermissionReport.decoder with
      | error e => rfl
      | ok report =>
        simp only
        by_cases hcurrent : s.isCurrent stamp = true
        · have hskip : (s.skip n).isCurrent stamp = true := hcurrent
          rw [if_pos hcurrent, if_pos hskip]; rfl
        · have hskip : ¬ (s.skip n).isCurrent stamp = true := hcurrent
          rw [if_neg hcurrent, if_neg hskip]

theorem settle_session (s : Session) (p : Purpose) (r : Except ApiError Answer) :
    (settle s p r).2 = concluded (s.skip 1) p r := by
  unfold settle
  rw [Session.draw_eq]
  cases p with
  | refresh stamp =>
    cases r with
    | error e => rfl
    | ok a =>
      simp only [concluded, Except.bind, install]
      cases a.decode PermissionReport.decoder with
      | error e => rfl
      | ok report =>
        simp only
        split <;> rfl
  | _ => cases r <;> rfl

@[simp] theorem concluded_subject (s : Session) (p : Purpose) (r : Except ApiError Answer) :
    (concluded s p r).subject = s.subject := by
  unfold concluded
  (repeat' split) <;> rfl

@[simp] theorem concluded_contexts (s : Session) (p : Purpose) (r : Except ApiError Answer) :
    (concluded s p r).contexts = s.contexts := by
  unfold concluded
  (repeat' split) <;> rfl

@[simp] theorem concluded_mint (s : Session) (p : Purpose) (r : Except ApiError Answer) :
    (concluded s p r).mint = s.mint := by
  unfold concluded
  (repeat' split) <;> rfl

theorem arrive_of_settled {c : Config} {s : Session} {x : Exchange} {arrival : Arrival} {r : Except ApiError Answer}
    (h : verdict c s x arrival = .settled r) :
    arrive c s x arrival = (.returned (settle (s.skip 1) x.purpose r).1, (concluded s x.purpose r).skip 2) := by
  rw [arrive_eq, h]
  simp only [settle_session, concluded_skip, Session.skip_skip]

end Client
end BackOffice
