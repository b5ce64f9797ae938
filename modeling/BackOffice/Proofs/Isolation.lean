import BackOffice.Proofs.Listings
/-!
# Listings stay in their context

A listing is asked for with the subject, the scope and the context version of one moment, and its answer
is taken in at another.  Between the two other calls run, and the context may change.  An answer counts
only if the version is what it was when the call began; versions never come back, so no switch has come
between, and subject and scope are what they were as well.  A switch empties the cache.  Hence every
entry of the cache, and every listing that a call returns, was fetched for the present subject
(`listings_isolated`).
-/
namespace BackOffice

theorem CacheOp.entry_of_run {c : Cache} {op : CacheOp} {key : String} {e : Cache.Entry}
    (h : (op.run c).2.entries.get? key = some e) :
    op = .set key e.value ∨ op ≠ .clear ∧ c.entries.get? key = some e := by
  rw [op.entry_run c key] at h
  cases hleaves : op.leaves? c key with
  | none =>
    rw [hleaves] at h
    exact .inr ⟨fun hclear => (by subst hclear; cases hleaves), h⟩
  | some left =>
    rw [hleaves] at h
    obtain ⟨body, rfl, rfl⟩ := CacheOp.leaves?_eq_entry.1 (hleaves.trans (congrArg some h))
    exact .inl rfl

/-! ## Replies that list -/

/-- The resource that a reply lists, if it is a listing that succeeded. -/
def Reply.listed? : Reply → Option Resource
  | .stores (.ok _) => some .stores
  | .users (.ok _)  => some .users
  | _ => none

/-- A reply that is the decoding of a body as a list of records. -/
inductive Reply.Lists (body : Json) : Reply → Resource → Prop where
  | stores (l : List Store) (h : (Decoder.list Store.decoder).value body = some l) : Lists body (.stores (.ok l)) .stores
  | users (l : List User) (h : (Decoder.list User.decoder).value body = some l) : Lists body (.users (.ok l)) .users

namespace Client

theorem decodeListing_eq_ok {α : Type} {d : Decoder α} {resource : Resource} {trace : TraceId} {l : List α}
    {r : Except ApiError Json} (h : decodeListing d resource trace r = .ok l) :
    ∃ body, r = .ok body ∧ (Decoder.list d).value body = some l := by
  cases r with
  | error e => cases h
  | ok body =>
    unfold decodeListing at h
    simp only at h
    split at h
    · rename_i l' hl
      cases h
      exact ⟨body, rfl, hl⟩
    · cases h

theorem lists_of_listingReply {trace : TraceId} {resource asked : Resource} {r : Except ApiError Json}
    (h : (listingReply trace asked r).listed? = some resource) :
    resource = asked ∧ ∃ body, r = .ok body ∧ (listingReply trace asked r).Lists body asked := by
  cases asked with
  | stores =>
    cases hd : decodeListing Store.decoder .stores trace r with
    | error e => simp only [listingReply, hd, Reply.listed?] at h; cases h
    | ok l =>
      obtain ⟨body, hr, hl⟩ := decodeListing_eq_ok hd
      simp only [listingReply, hd, Reply.listed?] at h ⊢
      exact ⟨(Option.some.inj h).symm, body, hr, .stores l hl⟩
  | users =>
    cases hd : decodeListing User.decoder .users trace r with
    | error e => simp only [listingReply, hd, Reply.listed?] at h; cases h
    | ok l =>
      obtain ⟨body, hr, hl⟩ := decodeListing_eq_ok hd
      simp only [listingReply, hd, Reply.listed?] at h ⊢
      exact ⟨(Option.some.inj h).symm, body, hr, .users l hl⟩

theorem listed?_submissionReply (trace : TraceId) (intent : Intent) (r : Except ApiError (Submission Json)) :
    (submissionReply trace intent r).listed? = none := by
  cases intent <;> rfl

theorem lists_of_settle {s : Session} {p : Purpose} {r : Except ApiError Answer} {resource : Resource}
    (h : (settle s p r).1.listed? = some resource) :
    ∃ stamp key answer, p = .list resource stamp key ∧ r = .ok answer ∧ (settle s p r).1.Lists answer.body resource := by
  cases p with
  | list asked stamp key =>
    have hreply : (settle s (.list asked stamp key) r).1 =
        listingReply (.minted s.mint.peek) asked (mapError Answer.body r) := rfl
    rw [hreply] at h ⊢
    obtain ⟨rfl, body, hr, hl⟩ := lists_of_listingReply h
    cases r with
    | error e => cases hr
    | ok answer =>
      cases hr
      exact ⟨stamp, key, answer, rfl, rfl, hl⟩
  | submit m tenant =>
    have hreply : (settle s (.submit m tenant) r).1 =
        submissionReply (.minted s.mint.peek) m.intent (settleMutation (s.skip 1) m tenant r).1 := rfl
    rw [hreply, listed?_submissionReply] at h; cases h
  | fetch => cases h
  | refresh stamp => cases h
  | send => cases h

theorem listed?_launch {s : Session} {request : Request} {purpose : Purpose} {reply : Reply}
    (h : (launch s request purpose).1 = .returned reply) : reply.listed? = none := by
  unfold launch at h
  rw [Session.draw_eq] at h
  cases hr : request.refusal? (.minted s.mint.peek) with
  | none => simp only [hr] at h; cases h
  | some e =>
    simp only [hr] at h
    cases h
    cases hl : (settle (s.skip 1) purpose (.error e)).1.listed? with
    | none => rfl
    | some resource =>
      -- a list would have come from an answer
      obtain ⟨stamp, key, answer, -, hanswer, -⟩ := lists_of_settle hl
      cases hanswer

theorem listed?_mutate {s : Session} {m : Mutation} {reply : Reply} (h : (mutate s m).1 = .returned reply) :
    reply.listed? = none := by
  cases hp : s.isAllowed m.permission with
  | false =>
    rw [mutate_of_refused s m hp] at h
    cases h; exact listed?_submissionReply _ _ _
  | true =>
    cases hf : s.issuer.isInFlight m.operation with
    | true =>
      rw [mutate_of_inFlight s m hp hf] at h
      cases h; exact listed?_submissionReply _ _ _
    | false =>
      rw [mutate_of_free s m hp hf] at h
      cases hb : s.issuer.binding? (s.skip 1).nextKeys m.operation m.payload with
      | some a => simp only [hb] at h; cases h
      | none =>
        simp only [hb] at h
        cases h; exact listed?_submissionReply _ _ _

theorem lists_of_start {s : Session} {call : Call} {reply : Reply} {resource : Resource}
    (h : (start s call).1 = .returned reply) (hl : reply.listed? = some resource) :
    call = .list resource ∧ ∃ e, s.cache.entries.get? (listKey s resource) = some e ∧ reply.Lists e.value resource := by
  have hnone : reply.listed? ≠ none := by rw [hl]; exact Option.some_ne_none _
  cases call with
  | list asked =>
    simp only [start] at h
    cases hit : (s.cache.get (listKey s asked)).1 with
    | none => rw [list_of_miss hit] at h; cases h
    | some body =>
      rw [list_of_hit hit] at h
      cases h
      obtain ⟨rfl, body', hr, hlists⟩ := lists_of_listingReply hl
      cases hr
      obtain ⟨e, hentry, -, rfl⟩ := (Cache.get_eq_some_iff _ _ _).1 hit
      exact ⟨rfl, e, hentry, hlists⟩
  | savePolicy user before after confirmed =>
    simp only [start] at h
    rw [savePolicy_eq] at h
    by_cases hp : s.isAllowed Permission.managePolicies = true
    · rw [if_pos hp] at h
      cases hheld : heldBack? s before after confirmed with
      | some held => simp only [hheld] at h; cases h; cases hl
      | none => simp only [hheld] at h; exact absurd (listed?_mutate h) hnone
    · rw [if_neg hp] at h
      cases h; cases hl
  | createStore store => exact absurd (listed?_mutate h) hnone
  | createUser user => exact absurd (listed?_mutate h) hnone
  | fetchPermissions => exact absurd (listed?_launch h) hnone
  | refreshPermissions => exact absurd (listed?_launch h) hnone
  | send request => exact absurd (listed?_launch h) hnone

/-- A call that awaits a listing has asked for it by the subject, the scope and the stamp of that moment. -/
theorem Opening.of_list {s s' : Session} {call : Call} {x : Exchange} {resource : Resource} {stamp : Stamp} {key : String}
    (h : Opening s call (.waiting (.answer x)) s') (hp : x.purpose = .list resource stamp key) :
    call = .list resource ∧ key = listKey s resource ∧ x.request = (listRequest s resource).withContext s.stamp := by
  cases h with
  | listed asked hc miss => cases hp; exact ⟨hc, rfl, rfl⟩
  | asked purpose hc => rcases hc with ⟨-, rfl⟩ | ⟨-, rfl⟩ <;> cases hp
  | sent request hc => cases hp
  | submitted m a n hm hp' hf hb => cases hp

/-- The two listings are kept apart: their keys begin with different letters. -/
theorem listKey_injective (s : Session) {a b : Resource} (h : listKey s a = listKey s b) : a = b := by
  have hhead : ∀ resource : Resource, (listKey s resource).toList.head? = resource.name.toList.head? := by
    intro resource
    unfold listKey Cache.key
    cases resource <;> simp [Resource.name, String.toList_append]
  have hnames := (hhead a).symm.trans ((congrArg (fun k => k.toList.head?) h).trans (hhead b))
  cases a <;> cases b
  · rfl
  · exact absurd hnames (by decide)
  · exact absurd hnames (by decide)
  · rfl

end Client

namespace Run

variable {r : Run} {acts : List Action} {a : Action} {resource : Resource} {key : String} {body : Json}

/-- In the course of these actions a listing has asked for a resource, for the tenant and under the context
version that the session now has and with the subject that it now has, and was answered with this body. -/
def Fetched (r : Run) (acts : List Action) (resource : Resource) (body : Json) : Prop :=
  ∃ pre mid id arrival post x y,
    acts = pre ++ .begin (.list resource) :: (mid ++ .answer id arrival :: post) ∧
    ((r.after pre).act (.begin (.list resource))).1 = .progressed id (.waiting (.answer x)) ∧
    x.request = (Request.make .get (resource.path (r.after acts).session.subject.tenant)).withContext
      (r.after acts).session.stamp ∧
    (r.after pre).session.subject = (r.after acts).session.subject ∧
    (((r.after pre).step (.begin (.list resource))).after mid).ongoing.get? id = some (.answer y) ∧ Continues x y ∧
    arrival.Yields body

/-- A listing that is kept under a key is answered with a body. -/
def Brings (r : Run) (a : Action) (resource : Resource) (key : String) (body : Json) : Prop :=
  ∃ id arrival x stamp answer, a = .answer id arrival ∧ r.ongoing.get? id = some (.answer x) ∧
    x.purpose = .list resource stamp key ∧
    Client.verdict r.config r.session x arrival = .settled (.ok answer) ∧ answer.body = body

theorem after_concat (r : Run) (acts : List Action) (a : Action) : r.after (acts ++ [a]) = (r.after acts).step a :=
  r.after_append acts [a]

theorem Fetched.concat (h : r.Fetched acts resource body) (ha : a.isClient = true) (hs : ∀ subject, a ≠ .switch subject) :
    r.Fetched (acts ++ [a]) resource body := by
  obtain ⟨hsubject, hstamp⟩ := context_step (r := r.after acts) ha hs
  obtain ⟨pre, mid, id, arrival, post, x, y, hacts, hsent, hrequest, hfor, hanswer⟩ := h
  refine ⟨pre, mid, id, arrival, post ++ [a], x, y, by simp [hacts], hsent, ?_, ?_, hanswer⟩
  · rw [after_concat, hsubject, hstamp, hrequest]
  · rw [after_concat, hsubject, hfor]

/-- **The answer that a listing takes in was asked for in the present context**, and is filed where that
context looks for it. -/
theorem fetched_of_brings (hnew : r.ongoing = .empty) (h : (r.after acts).Brings a resource key body) :
    key = Client.listKey (r.after (acts ++ [a])).session resource ∧ r.Fetched (acts ++ [a]) resource body := by
  obtain ⟨id, arrival, y, stamp, answer, rfl, hy, hp, hv, rfl⟩ := h
  rcases begun_of_waiting hy with ⟨w, hw, -⟩ | ⟨pre, call, mid, x, rfl, hid, hstart, hcontinues⟩
  · rw [hnew] at hw; cases hw
  have hopening := Client.start_opening (r.after pre).session call
  rw [hstart] at hopening
  obtain ⟨rfl, rfl, hrequest⟩ := hopening.of_list (hcontinues.2.1.symm.trans hp)
  -- an answer counts only in the version it was asked for in, so no switch has come between
  have hcurrent := Client.inContext_of_success hv
  unfold Session.isInContext at hcurrent
  rw [show y.request = x.request from hcontinues.1, hrequest] at hcurrent
  have hsame : ((r.after pre).after (.begin (.list resource) :: mid)).version = (r.after pre).version := by
    rw [← after_append]
    exact (isCurrent_iff _ _).1 hcurrent
  obtain ⟨hsubject, hstamp⟩ := context_of_version hsame
  rw [← after_append] at hsubject hstamp
  obtain ⟨hsubject', hstamp'⟩ := context_step (r := r.after (pre ++ .begin (.list resource) :: mid))
    (a := .answer id arrival) rfl (fun _ e => by cases e)
  rw [← after_concat] at hsubject' hstamp'
  refine ⟨Client.listKey_congr (hsubject'.trans hsubject).symm resource, pre, mid, id, arrival, [], x, y, by simp,
    ?_, ?_, (hsubject'.trans hsubject).symm, ?_, hcontinues, Arrival.yields_of_read (Client.read_of_success hv)⟩
  · rw [act_begin, hstart, hid]
  · rw [hrequest, hsubject', hsubject, hstamp', hstamp]
    rfl
  · rw [after_append] at hy
    exact hy

theorem brings_of_set (ha : a.isClient = true) (h : r.cacheOp? a = some (.set key body)) :
    ∃ resource, r.Brings a resource key body := by
  obtain ⟨id, arrival, x, rfl, hx⟩ := answer_of_set ha h
  cases hv : Client.verdict r.config r.session x arrival with
  | again ms => simp only [cacheOp?, hx, hv] at h; cases h
  | settled result =>
    rw [cacheOp?_of_settled hx hv] at h
    unfold Client.cacheOp? at h
    split at h
    · rename_i resource stamp k answer hp
      split at h
      · cases h
        exact ⟨resource, id, arrival, x, stamp, answer, rfl, hx, hp, hv, rfl⟩
      · cases h
    · cases h
    · cases h

theorem brings_of_entry (ha : a.isClient = true) {e : Cache.Entry}
    (h : (r.step a).session.cache.entries.get? key = some e) :
    (∃ resource, r.Brings a resource key e.value) ∨
      (∀ subject, a ≠ .switch subject) ∧ r.session.cache.entries.get? key = some e := by
  rw [r.step_cache a] at h
  cases hop : r.cacheOp? a with
  | none =>
    rw [hop] at h
    refine .inr ⟨?_, h⟩
    rintro subject rfl
    cases hop
  | some op =>
    rw [hop] at h
    rcases CacheOp.entry_of_run h with rfl | ⟨hkeep, hentry⟩
    · exact .inl (brings_of_set ha hop)
    · refine .inr ⟨?_, hentry⟩
      rintro subject rfl
      cases hop
      exact hkeep rfl

/-- Every entry of the cache was fetched in the present context and has a key of its scope. -/
def CacheFetched (r : Run) (acts : List Action) : Prop :=
  ∀ key e, (r.after acts).session.cache.entries.get? key = some e →
    ∃ resource, key = Client.listKey (r.after acts).session resource ∧ r.Fetched acts resource e.value

theorem CacheFetched.concat (hnew : r.ongoing = .empty) (h : r.CacheFetched acts) (ha : a.isClient = true) :
    r.CacheFetched (acts ++ [a]) := by
  intro key e hentry
  rw [after_concat] at hentry
  rcases brings_of_entry ha hentry with ⟨resource, hbrings⟩ | ⟨hs, hbefore⟩
  · exact ⟨resource, fetched_of_brings hnew hbrings⟩
  · obtain ⟨resource, hkey, hfetched⟩ := h key e hbefore
    refine ⟨resource, ?_, hfetched.concat ha hs⟩
    rw [hkey, after_concat]
    exact Client.listKey_congr (context_step ha hs).1.symm resource

theorem CacheFetched.append (hnew : r.ongoing = .empty) : ∀ {since acts : List Action}, r.CacheFetched acts →
    (∀ a ∈ since, a.isClient = true) → r.CacheFetched (acts ++ since)
  | [], acts, h, _ => by rwa [List.append_nil]
  | a :: since, acts, h, hc => by
    obtain ⟨ha, hsince⟩ := List.forall_mem_cons.1 hc
    have hnext := CacheFetched.append hnew (h.concat hnew ha) hsince
    rwa [List.append_assoc] at hnext

/-- **A listing is what was fetched for the present subject**, whether a call finds it in the cache or is
answered with it. -/
theorem fetched_of_listed (hnew : r.ongoing = .empty) (h : r.CacheFetched acts) (ha : a.isClient = true)
    {id : Nat} {reply : Reply}
    (hreply : ((r.after acts).act a).1 = .progressed id (.returned reply)) (hl : reply.listed? = some resource) :
    ∃ body, reply.Lists body resource ∧ r.Fetched (acts ++ [a]) resource body := by
  have hturn := act_turn (r.after acts) ha
  rw [hreply] at hturn
  generalize (r.after acts).step a = r' at hturn
  cases hturn with
  | begun call p s ho =>
    rw [act_begin] at hreply
    injection hreply with hid hstart
    obtain ⟨rfl, e, hentry, hlists⟩ := Client.lists_of_start hstart hl
    obtain ⟨resource', hkey, hfetched⟩ := h _ e hentry
    obtain rfl := Client.listKey_injective _ hkey
    exact ⟨e.value, hlists, hfetched.concat ha (fun _ e => by cases e)⟩
  | settled id arrival x result hx hv =>
    obtain ⟨stamp, key, answer, hp, rfl, hlists⟩ := Client.lists_of_settle hl
    exact ⟨answer.body, hlists, (fetched_of_brings hnew ⟨id, arrival, x, stamp, answer, rfl, hx, hp, hv, rfl⟩).2⟩

/-- **Listings stay in their context.**  In every run of the client each entry of the cache was fetched for the
tenant, the store and the context version that the session has now, and has a key of that scope; and a listing
that a call returns, from the cache or from the wire, is the decoding of a body with which a request for that
same resource was answered, asked for under the tenant, the store and the context version of now. -/
theorem listings_isolated (config : Config) (subject : Subject) (mint : Mint) {acts : List Action}
    (hc : ∀ a ∈ acts, a.isClient = true) :
    let r := start config subject mint
    (∀ key e, (r.after acts).session.cache.entries.get? key = some e →
      ∃ resource, key = Client.listKey (r.after acts).session resource ∧ r.Fetched acts resource e.value) ∧
    ∀ a id reply, a.isClient = true → ((r.after acts).act a).1 = .progressed id (.returned reply) →
      ∀ resource, reply.listed? = some resource →
        ∃ body, reply.Lists body resource ∧ r.Fetched (acts ++ [a]) resource body := by
  intro r
  have hempty : r.CacheFetched [] := fun key e h => (by cases h)
  have hall : r.CacheFetched acts := by
    have happend := hempty.append rfl hc
    rwa [List.nil_append] at happend
  exact ⟨hall, fun a id reply ha hreply resource hl => fetched_of_listed rfl hall ha hreply hl⟩

/-- A listing of the stores, and an answer to it that holds none. -/
def noStores : List Action := [.begin (.list .stores), .answer 0 (.ok (.make 200 "[]"))]

/-- The listing returns what was fetched for its subject, and so does the cache from then on. -/
theorem listing_kept_for_its_subject :
    let r := start .standard (.ofUser ⟨.ofNat 1⟩ ⟨.ofNat 2⟩ ⟨"clerk"⟩) (.ofMillis 0)
    ((r.after [.begin (.list .stores)]).act (.answer 0 (.ok (.make 200 "[]")))).1 =
      .progressed 0 (.returned (.stores (.ok []))) ∧
    (∃ body, (Reply.stores (.ok [])).Lists body .stores ∧ r.Fetched noStores .stores body) ∧
    ∃ e, (r.after noStores).session.cache.entries.get? (Client.listKey r.session .stores) = some e ∧
      r.Fetched noStores .stores e.value := by
  intro r
  have hreply : ((r.after [.begin (.list .stores)]).act (.answer 0 (.ok (.make 200 "[]")))).1 =
      .progressed 0 (.returned (.stores (.ok []))) := rfl
  have hasked : ∀ a ∈ [Action.begin (.list .stores)], a.isClient = true := by simp [Action.isClient]
  have hanswered : ∀ a ∈ noStores, a.isClient = true := by simp [noStores, Action.isClient]
  obtain ⟨-, hlisted⟩ := listings_isolated .standard (.ofUser ⟨.ofNat 1⟩ ⟨.ofNat 2⟩ ⟨"clerk"⟩) (.ofMillis 0) hasked
  obtain ⟨hcached, -⟩ := listings_isolated .standard (.ofUser ⟨.ofNat 1⟩ ⟨.ofNat 2⟩ ⟨"clerk"⟩) (.ofMillis 0) hanswered
  have hthere : (r.after noStores).session.cache.entries.contains (Client.listKey r.session .stores) = true := by
    decide +kernel
  refine ⟨hreply, hlisted _ 0 _ rfl hreply .stores rfl, ?_⟩
  obtain ⟨e, hentry⟩ := Option.isSome_iff_exists.1 hthere
  obtain ⟨resource, hkey, hfetched⟩ := hcached _ e hentry
  rw [Client.listKey_congr (subject_after (by simp [noStores]))] at hkey
  obtain rfl := Client.listKey_injective r.session hkey
  exact ⟨e, hentry, hfetched⟩

end Run
end BackOffice
