import BackOffice.Proofs.Invalidation
/-!
# Listings that fail

The answer to a listing goes into the cache before it is read as a listing.  So of the listings that fail there is one
kind that leaves something behind: the server answers with a success whose body is JSON and no listing.  The body is
kept, and until its time is up the listing fails again without being asked for (`failed_listing_kept_iff`).
-/
namespace BackOffice

theorem Arrival.Yields.unique {arrival : Arrival} {body body' : Json} (h : arrival.Yields body)
    (h' : arrival.Yields body') : body = body' := by
  obtain ⟨raw, rfl, -, hbody⟩ := h
  obtain ⟨_, ⟨rfl⟩, -, hbody'⟩ := h'
  exact Option.some.inj (hbody.symm.trans hbody')

/-- A cache holds something that another does not, or holds it until another moment. -/
def Cache.Gains (c c' : Cache) : Prop :=
  ∃ key e, c'.entries.get? key = some e ∧ c.entries.get? key ≠ some e

namespace Cache

theorem not_gains_self (c : Cache) : ¬ c.Gains c := by
  rintro ⟨key, e, hthere, hnot⟩
  exact hnot hthere

/-- To look something up adds nothing. -/
theorem not_gains_get (c : Cache) (key : String) : ¬ c.Gains (c.get key).2 := by
  cases hup : c.isUp key with
  | false =>
    rw [get_of_not_isUp hup]
    exact c.not_gains_self
  | true =>
    rw [get_of_isUp hup]
    rintro ⟨k, e, hthere, hnot⟩
    exact hnot (Table.get?_of_erase hthere)

theorem gains_set_iff (c : Cache) (key : String) (body : Json) :
    c.Gains (c.set key body) ↔ c.entries.get? key ≠ some ⟨body, c.expiry⟩ := by
  constructor
  · rintro ⟨k, e, hthere, hnot⟩ hheld
    rcases Table.get?_insert_cases hthere with ⟨rfl, rfl⟩ | hbefore
    · exact hnot hheld
    · exact hnot hbefore
  · intro hnot
    exact ⟨key, _, (Table.get?_insert _ _ _ _).trans (if_pos rfl), hnot⟩

end Cache

/-! ## Bodies and replies -/

/-- A body reads as a listing. -/
def Resource.Reads (resource : Resource) (body : Json) : Prop := ∃ reply : Reply, reply.Lists body resource

theorem Reply.Lists.error? {body : Json} {reply : Reply} {resource : Resource} (h : reply.Lists body resource) :
    reply.error? = none := by
  cases h <;> rfl

namespace Client

theorem decodeListing_cases {α : Type} (d : Decoder α) (resource : Resource) (trace : TraceId) (body : Json) :
    (∃ l, (Decoder.list d).value body = some l ∧ decodeListing d resource trace (.ok body) = .ok l) ∨
      (Decoder.list d).value body = none ∧ ∃ err, decodeListing d resource trace (.ok body) = .error err := by
  cases hl : (Decoder.list d).value body with
  | some l => exact .inl ⟨l, rfl, by simp only [decodeListing, hl]⟩
  | none =>
    refine .inr ⟨rfl, ?_⟩
    simp only [decodeListing, hl]
    exact ⟨_, rfl⟩

/-- A listing answered with a body lists it, or fails where the body reads as no listing. -/
theorem listingReply_cases (trace : TraceId) (resource : Resource) (body : Json) :
    (listingReply trace resource (.ok body)).Lists body resource ∨
      ¬ resource.Reads body ∧ ∃ err, (listingReply trace resource (.ok body)).error? = some err := by
  cases resource with
  | stores =>
    rcases decodeListing_cases Store.decoder .stores trace body with ⟨l, hl, hd⟩ | ⟨hnone, err, hd⟩
    · rw [listingReply, hd]
      exact .inl (.stores l hl)
    · rw [listingReply, hd]
      refine .inr ⟨?_, err, rfl⟩
      rintro ⟨reply, hlists⟩
      cases hlists with
      | stores l hl => rw [hnone] at hl; cases hl
  | users =>
    rcases decodeListing_cases User.decoder .users trace body with ⟨l, hl, hd⟩ | ⟨hnone, err, hd⟩
    · rw [listingReply, hd]
      exact .inl (.users l hl)
    · rw [listingReply, hd]
      refine .inr ⟨?_, err, rfl⟩
      rintro ⟨reply, hlists⟩
      cases hlists with
      | users l hl => rw [hnone] at hl; cases hl

theorem error?_listingReply_iff (trace : TraceId) (resource : Resource) (body : Json) :
    (∃ err, (listingReply trace resource (.ok body)).error? = some err) ↔ ¬ resource.Reads body := by
  rcases listingReply_cases trace resource body with hlists | ⟨hunread, herror⟩
  · refine iff_of_false ?_ (fun h => h ⟨_, hlists⟩)
    rintro ⟨err, herr⟩
    rw [hlists.error?] at herr; cases herr
  · exact iff_of_true herror hunread

end Client

namespace Run

variable {r : Run} {resource : Resource} {mid : List Action} {y : Exchange} {arrival : Arrival}

/-- A turn after which a call waits adds nothing to the cache. -/
theorem not_gains_of_waiting {a : Action} {id : Nat} {w : Waiting} (ha : a.isClient = true)
    (hevent : (r.act a).1 = .progressed id (.waiting w)) :
    ¬ r.session.cache.Gains (r.step a).session.cache := by
  have hturn := act_turn r ha
  rw [hevent] at hturn
  generalize r.step a = r' at hturn ⊢
  cases hturn with
  | begun call p s hopening =>
    cases hopening with
    | listed resource hc miss => exact Cache.not_gains_get _ _
    | asked purpose hc => exact Cache.not_gains_self _
    | sent request hc => exact Cache.not_gains_self _
    | submitted m a n hm hp hf hb => exact Cache.not_gains_self _
  | again id arrival x ms hx hv => exact Cache.not_gains_self _
  | resumed id ms x hx => exact Cache.not_gains_self _

/-- A listing asks where nothing is held for it that has time yet. -/
theorem asks_iff_absent : r.Asks resource ↔
    ¬ ∃ e, r.session.cache.entries.get? (Client.listKey r.session resource) = some e ∧
      r.session.cache.clock < e.expires := by
  rw [asks_iff, Option.eq_none_iff_forall_ne_some]
  simp only [ne_eq, Cache.get_eq_some_iff, not_exists, not_and]
  exact ⟨fun h e hentry hlive => h e.value e hentry hlive rfl, fun h body e hentry hlive _ => h e hentry hlive⟩

/-- A listing begun when the clock shows a moment asks where nothing is held for it beyond that moment. -/
theorem asks_tick_iff {t : Moment} : (r.tick t).Asks resource ↔
    ¬ ∃ e, r.session.cache.entries.get? (Client.listKey r.session resource) = some e ∧ t < e.expires := by
  rw [asks_iff_absent, show Client.listKey (r.tick t).session resource = Client.listKey r.session resource from rfl]
  rfl

theorem serves_tick {t : Moment} {e : Cache.Entry}
    (hentry : r.session.cache.entries.get? (Client.listKey r.session resource) = some e) (hlive : t < e.expires) :
    (r.tick t).Serves resource e.value := by
  refine serves_of_hit ((Cache.get_eq_some_iff _ _ _).2 ⟨e, ?_, hlive, rfl⟩)
  rw [show Client.listKey (r.tick t).session resource = Client.listKey r.session resource from rfl]
  exact hentry

/-- A listing begun in `r` has asked, and after these actions it waits for its answer. -/
structure AwaitsListing (r : Run) (resource : Resource) (mid : List Action) (y : Exchange) : Prop where
  asks : r.Asks resource
  waiting : ((r.step (.begin (.list resource))).after mid).ongoing.get? r.started = some (.answer y)

namespace AwaitsListing

/-- Whatever has been done meanwhile, it waits for what it has asked for. -/
theorem exchange (h : r.AwaitsListing resource mid y) :
    y.purpose = .list resource r.session.stamp (Client.listKey r.session resource) ∧
      y.request.context = some r.session.stamp := by
  obtain ⟨⟨x, hsent⟩, hy⟩ := h
  obtain ⟨hrequest, hpurpose, -⟩ := continues_of_sent hsent hy
  have hstart : (Client.start r.session (.list resource)).1 = .waiting (.answer x) := by
    rw [act_begin] at hsent
    injection hsent
  rw [Client.start, Client.list_of_miss (asks_iff.1 ⟨x, hsent⟩)] at hstart
  cases hstart
  exact ⟨hpurpose, congrArg Request.context hrequest⟩

theorem inContext_iff (h : r.AwaitsListing resource mid y) :
    ((r.step (.begin (.list resource))).after mid).session.isInContext y.request = true ↔
      ((r.step (.begin (.list resource))).after mid).version = r.version := by
  unfold Session.isInContext
  rw [h.exchange.2]
  exact isCurrent_iff _ _

/-- An answer that is read in the context of the listing goes into the cache, and ends the call. -/
theorem answered (h : r.AwaitsListing resource mid y)
    (hversion : ((r.step (.begin (.list resource))).after mid).version = r.version) {body : Json}
    (hbody : arrival.Yields body) :
    let now := (r.step (.begin (.list resource))).after mid
    ∃ trace, (now.act (.answer r.started arrival)).1 =
        .progressed r.started (.returned (Client.listingReply trace resource (.ok body))) ∧
      (now.step (.answer r.started arrival)).session.cache =
        now.session.cache.set (Client.listKey r.session resource) body := by
  intro now
  obtain ⟨answer, hread, rfl⟩ := Arrival.read_of_yields hbody now.session.mint.peek
  have hv : Client.verdict now.config now.session y arrival = .settled (.ok answer) := by
    rw [Client.verdict_of_current now.config arrival (h.inContext_iff.2 hversion), hread]
  have hact := act_of_settled h.waiting hv
  have hcurrent : now.session.isCurrent r.session.stamp = true := (isCurrent_iff _ _).2 hversion
  refine ⟨.minted (now.session.skip 1).mint.peek, ?_, ?_⟩
  · rw [hact, h.exchange.1]; rfl
  · show (now.act (.answer r.started arrival)).2.session.cache = _
    rw [hact]
    show (Client.concluded now.session y.purpose (.ok answer)).cache = _
    rw [h.exchange.1, Client.concluded_cache]
    simp only [Client.cacheOp?, hcurrent, if_true]
    rfl

/-- An answer that is not read, or comes too late, leaves the cache as it is; and the call, if it ends, fails. -/
theorem unread (h : r.AwaitsListing resource mid y)
    (hnot : ¬ (((r.step (.begin (.list resource))).after mid).version = r.version ∧ ∃ body, arrival.Yields body)) :
    let now := (r.step (.begin (.list resource))).after mid
    (now.step (.answer r.started arrival)).session.cache = now.session.cache ∧
      ∀ reply, (now.act (.answer r.started arrival)).1 = .progressed r.started (.returned reply) →
        ∃ err, reply.error? = some err := by
  intro now
  show (now.act (.answer r.started arrival)).2.session.cache = _ ∧ _
  cases hv : Client.verdict now.config now.session y arrival with
  | again ms =>
    rw [act_of_again h.waiting hv]
    exact ⟨rfl, fun reply hreply => by cases hreply⟩
  | settled result =>
    rw [act_of_settled h.waiting hv]
    cases result with
    | ok answer =>
      -- a success counts only where it is read, and in the context of the listing
      have hversion := h.inContext_iff.1 (Client.inContext_of_success hv)
      exact absurd ⟨hversion, _, Arrival.yields_of_read (Client.read_of_success hv)⟩ hnot
    | error err =>
      refine ⟨?_, fun reply hreply => ?_⟩
      · rw [h.exchange.1]; rfl
      · cases hreply
        exact ⟨err, Client.settle_error _ _ _⟩

end AwaitsListing

/-- In the context of the listing, the next one looks where its answer has gone. -/
theorem listKey_answered (hversion : ((r.step (.begin (.list resource))).after mid).version = r.version) :
    Client.listKey (((r.step (.begin (.list resource))).after mid).step (.answer r.started arrival)).session resource =
      Client.listKey r.session resource := by
  have hsubject : ((r.step (.begin (.list resource))).after mid).session.subject = r.session.subject := by
    rw [← after_cons] at hversion ⊢
    exact (context_of_version hversion).1
  have hstep := (context_step (r := (r.step (.begin (.list resource))).after mid) (a := .answer r.started arrival) rfl
    (fun _ e => by cases e)).1
  exact Client.listKey_congr (hstep.trans hsubject) resource

theorem asks_answered_iff (h : r.AwaitsListing resource mid y)
    (hversion : ((r.step (.begin (.list resource))).after mid).version = r.version) (t : Moment) :
    let now := (r.step (.begin (.list resource))).after mid
    ((now.step (.answer r.started arrival)).tick t).Asks resource ↔
      ¬ ((∃ body, arrival.Yields body) ∧ t < now.session.cache.expiry ∨ (∀ body, ¬ arrival.Yields body) ∧
        ∃ e, now.session.cache.entries.get? (Client.listKey r.session resource) = some e ∧ t < e.expires) := by
  intro now
  rw [asks_tick_iff, listKey_answered hversion]
  refine not_congr ?_
  -- an answer that is read leaves an entry, and otherwise what was there decides
  by_cases hread : ∃ body, arrival.Yields body
  · obtain ⟨body, hbody⟩ := hread
    obtain ⟨trace, -, hcache⟩ := h.answered hversion hbody
    have hentry : (now.session.cache.set (Client.listKey r.session resource) body).entries.get?
        (Client.listKey r.session resource) = some ⟨body, now.session.cache.expiry⟩ :=
      (Table.get?_insert _ _ _ _).trans (if_pos rfl)
    rw [hcache, hentry]
    constructor
    · rintro ⟨e, ⟨rfl⟩, hlive⟩
      exact .inl ⟨⟨body, hbody⟩, hlive⟩
    · rintro (⟨-, hlive⟩ | ⟨hnone, -⟩)
      · exact ⟨_, rfl, hlive⟩
      · exact absurd hbody (hnone body)
  · have hcache : (now.step (.answer r.started arrival)).session.cache = now.session.cache :=
      (h.unread fun ⟨_, hbody⟩ => hread hbody).1
    rw [hcache]
    exact ⟨fun hheld => .inr ⟨fun body hbody => hread ⟨body, hbody⟩, hheld⟩,
      fun hor => (hor.resolve_left fun hyields => hread hyields.1).2⟩

/-- A listing that fails at once has found in the cache what reads as no listing, and it stays there. -/
theorem held_of_failed_at_once {reply : Reply} {err : ApiError}
    (hreply : (r.act (.begin (.list resource))).1 = .progressed r.started (.returned reply))
    (herr : reply.error? = some err) :
    (r.step (.begin (.list resource))).session.cache = r.session.cache ∧
      ∃ e, r.session.cache.entries.get? (Client.listKey r.session resource) = some e ∧ ¬ resource.Reads e.value := by
  rw [act_begin] at hreply
  injection hreply with _ hstart
  rw [Client.start] at hstart
  cases hit : (r.session.cache.get (Client.listKey r.session resource)).1 with
  | none => rw [Client.list_of_miss hit] at hstart; cases hstart
  | some body =>
    rw [Client.list_of_hit hit] at hstart
    cases hstart
    obtain ⟨e, hentry, hlive, rfl⟩ := (Cache.get_eq_some_iff _ _ _).1 hit
    refine ⟨?_, e, hentry, (Client.error?_listingReply_iff _ _ _).1 ⟨err, herr⟩⟩
    rw [step_begin_session, Client.start, Client.list_of_hit hit]
    exact congrArg Prod.snd (Cache.get_of_live hentry hlive)

/-- **What a listing that fails leaves behind.**  No turn after which it waits adds anything to the cache.  If it fails
at once it adds nothing either, and what it has found is served to the next one as well, until its time is up.  If it has
asked and fails, it adds something exactly where it was answered in its context with a success whose body is read as
JSON, and that body was not there already until the same moment; and the next one in the same context, whenever it is
begun, asks for itself exactly unless the body was read and has time yet, or was not read and what was there when the
answer came has time yet.  A listing that has asked and is answered in its context with a body that is read returns,
with an error exactly where the body reads as no listing, and otherwise with the listing. -/
theorem failed_listing_kept_iff (r : Run) (resource : Resource) :
    (∀ (now : Run) a w, a.isClient = true → (now.act a).1 = .progressed r.started (.waiting w) →
      ¬ now.session.cache.Gains (now.step a).session.cache) ∧
    (∀ reply err, (r.act (.begin (.list resource))).1 = .progressed r.started (.returned reply) →
      reply.error? = some err → ¬ r.session.cache.Gains (r.step (.begin (.list resource))).session.cache ∧
        ∃ e : Cache.Entry, ¬ resource.Reads e.value ∧
          ∀ t, (t < e.expires → ((r.step (.begin (.list resource))).tick t).Serves resource e.value) ∧
            (((r.step (.begin (.list resource))).tick t).Asks resource ↔ ¬ t < e.expires)) ∧
    ∀ mid y, r.AwaitsListing resource mid y →
      let now := (r.step (.begin (.list resource))).after mid
      let key := Client.listKey r.session resource
      (∀ arrival reply err, (now.act (.answer r.started arrival)).1 = .progressed r.started (.returned reply) →
        reply.error? = some err →
        (now.session.cache.Gains (now.step (.answer r.started arrival)).session.cache ↔ now.version = r.version ∧
          ∃ body, arrival.Yields body ∧ ¬ resource.Reads body ∧
            now.session.cache.entries.get? key ≠ some ⟨body, now.session.cache.expiry⟩) ∧
        (now.version = r.version → ∀ t, ((now.step (.answer r.started arrival)).tick t).Asks resource ↔
          ¬ ((∃ body, arrival.Yields body) ∧ t < now.session.cache.expiry ∨ (∀ body, ¬ arrival.Yields body) ∧
            ∃ e, now.session.cache.entries.get? key = some e ∧ t < e.expires))) ∧
      ∀ arrival body, now.version = r.version → arrival.Yields body →
        ∃ reply, (now.act (.answer r.started arrival)).1 = .progressed r.started (.returned reply) ∧
          ((∃ err, reply.error? = some err) ↔ ¬ resource.Reads body) ∧
          (resource.Reads body → reply.Lists body resource) := by
  refine ⟨fun now a w ha hwaiting => not_gains_of_waiting ha hwaiting, fun reply err hreply herr => ?_,
    fun mid y h => ?_⟩
  · obtain ⟨hcache, e, hentry, hunread⟩ := held_of_failed_at_once hreply herr
    have hsubject := (context_step (r := r) (a := .begin (.list resource)) rfl (fun _ e => by cases e)).1
    rw [← hcache, ← Client.listKey_congr hsubject] at hentry
    refine ⟨hcache ▸ Cache.not_gains_self _, e, hunread, fun t => ⟨fun hlive => serves_tick hentry hlive, ?_⟩⟩
    rw [asks_tick_iff, hentry]
    simp
  intro now key
  refine ⟨fun arrival reply err hreply herr => ⟨?_, fun hversion t => asks_answered_iff h hversion t⟩,
    fun arrival body hversion hbody => ?_⟩
  · by_cases hread : now.version = r.version ∧ ∃ body, arrival.Yields body
    · obtain ⟨hversion, body, hbody⟩ := hread
      obtain ⟨trace, hreturned, hcache⟩ := h.answered hversion hbody
      rw [hreturned] at hreply
      cases hreply
      have hunread := (Client.error?_listingReply_iff trace resource body).1 ⟨err, herr⟩
      rw [hcache, Cache.gains_set_iff]
      constructor
      · exact fun hnew => ⟨hversion, body, hbody, hunread, hnew⟩
      · rintro ⟨-, body', hbody', -, hnew⟩
        rwa [hbody.unique hbody']
    · rw [(h.unread hread).1]
      refine iff_of_false (Cache.not_gains_self _) ?_
      rintro ⟨hversion, body, hbody, -⟩
      exact hread ⟨hversion, body, hbody⟩
  · obtain ⟨trace, hreturned, -⟩ := h.answered hversion hbody
    refine ⟨_, hreturned, Client.error?_listingReply_iff trace resource body, fun hreads => ?_⟩
    exact (Client.listingReply_cases trace resource body).resolve_right (fun hunread => hunread.1 hreads)

/-- A listing of stores that is answered that there is nothing of the kind. -/
def listingMissed : Run := (storeKeeping.step (.begin (.list .stores))).step (.answer 0 (.ok (.make 404 "")))

/-- It leaves nothing behind, and the next one asks again and lists what it is answered. -/
theorem missed_listing_asked_again :
    ¬ (storeKeeping.step (.begin (.list .stores))).session.cache.Gains listingMissed.session.cache ∧
    listingMissed.Asks .stores ∧
    ∃ reply, ((listingMissed.step (.begin (.list .stores))).act (.answer 1 (.ok (.make 200 "[]")))).1 =
        .progressed 1 (.returned reply) ∧ reply.Lists (.array []) .stores := by
  have hawaits : storeKeeping.AwaitsListing .stores [] _ := ⟨⟨_, rfl⟩, rfl⟩
  have hunread : ∀ body, ¬ Arrival.Yields (.ok (.make 404 "")) body := by
    rintro body ⟨raw, hraw, hsuccess, -⟩
    cases hraw
    cases hsuccess
  obtain ⟨hgains, hasks⟩ := ((failed_listing_kept_iff storeKeeping .stores).2.2 [] _ hawaits).1
    (.ok (.make 404 "")) _ _ rfl rfl
  have hasked : listingMissed.Asks .stores := by
    rw [← tick_clock listingMissed]
    refine (hasks (version_step_of_begin _ _) _).2 ?_
    rintro (⟨⟨body, hbody⟩, -⟩ | ⟨-, e, hentry, -⟩)
    · exact hunread body hbody
    · cases hentry
  refine ⟨?_, hasked, ?_⟩
  · intro hgained
    obtain ⟨-, body, hbody, -⟩ := hgains.1 hgained
    exact hunread body hbody
  · have hagain : listingMissed.AwaitsListing .stores [] _ := ⟨hasked, rfl⟩
    obtain ⟨reply, hreturned, -, hlists⟩ := ((failed_listing_kept_iff listingMissed .stores).2.2 [] _ hagain).2
      (.ok (.make 200 "[]")) (.array []) rfl ⟨_, rfl, rfl, rfl⟩
    exact ⟨reply, hreturned, hlists ⟨_, .stores [] rfl⟩⟩

/-- **A listing that failed is remembered**: the server answers with an empty object, the listing fails, and the next
one in the same context fails without having asked. -/
theorem unread_listing_remembered :
    let asked := storeKeeping.step (.begin (.list .stores))
    let ended := asked.step (.answer 0 (.ok (.make 200 "\x7b\x7d")))
    storeKeeping.Asks .stores ∧
    (∃ reply err, (asked.act (.answer 0 (.ok (.make 200 "\x7b\x7d")))).1 = .progressed 0 (.returned reply) ∧
      reply.error? = some err) ∧
    asked.session.cache.Gains ended.session.cache ∧ ended.version = storeKeeping.version ∧ ¬ ended.Asks .stores ∧
    ∃ reply err, (ended.act (.begin (.list .stores))).1 = .progressed 1 (.returned reply) ∧
      reply.error? = some err := by
  intro asked ended
  have hawaits : storeKeeping.AwaitsListing .stores [] _ := ⟨⟨_, rfl⟩, rfl⟩
  have hversion : asked.version = storeKeeping.version := version_step_of_begin _ _
  have hbody : Arrival.Yields (.ok (.make 200 "\x7b\x7d")) (.object []) := ⟨_, rfl, rfl, rfl⟩
  have hunread : ¬ Resource.Reads .stores (.object []) := by
    rintro ⟨reply, ⟨l, hl⟩⟩
    cases hl
  obtain ⟨trace, hreturned, hset⟩ := hawaits.answered hversion hbody
  have hcache : ended.session.cache =
      asked.session.cache.set (Client.listKey storeKeeping.session .stores) (.object []) := hset
  obtain ⟨err, herr⟩ := (Client.error?_listingReply_iff trace .stores (.object [])).2 hunread
  have hkept : ended.session.cache.entries.get? (Client.listKey ended.session .stores) =
      some ⟨.object [], asked.session.cache.expiry⟩ := by
    have hkey := Client.listKey_congr (@subject_after [.begin (.list .stores), .answer 0 (.ok (.make 200 "\x7b\x7d"))]
      storeKeeping (by simp)) .stores
    rw [hcache, show Client.listKey ended.session .stores = _ from hkey]
    exact (Table.get?_insert _ _ _ _).trans (if_pos rfl)
  have hlive : ended.session.cache.clock < asked.session.cache.expiry := by decide +kernel
  obtain ⟨trace', hserved⟩ : ended.Serves .stores (.object []) :=
    serves_of_hit ((Cache.get_eq_some_iff _ _ _).2 ⟨_, hkept, hlive, rfl⟩)
  obtain ⟨err', herr'⟩ := (Client.error?_listingReply_iff trace' .stores (.object [])).2 hunread
  refine ⟨hawaits.asks, ⟨_, err, hreturned, herr⟩, ?_, ?_, fun hasks => ?_, ⟨_, err', hserved, herr'⟩⟩
  · rw [hcache, Cache.gains_set_iff]
    exact fun h => by cases h
  · exact ((act_turn asked rfl).version_eq (fun _ h => by cases h)).trans hversion
  · exact asks_iff_absent.1 hasks ⟨_, hkept, hlive⟩

end Run
end BackOffice
