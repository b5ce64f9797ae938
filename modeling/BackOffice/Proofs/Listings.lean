import BackOffice.Proofs.History
/-!
# Cached listings

What an action does to the cache is one operation on it, or nothing (`step_cache`).  So an entry has
been there all along or was left by the last action that touched its key (`entry_after_iff`).

A mutation that completes drops the tenant's listings of its resource.  The answer of a listing that
was in the transport at that moment is kept nevertheless when it comes, as long as the context is the
same, and until its time is up it is served as if it had been asked for since (`listing_coherent_iff`).
-/
namespace BackOffice

/-! ## What is written last -/

section Writing

variable {σ α β : Type} (step : σ → α → σ) (writes : σ → α → Option (Option β))

/-- None of these actions writes, in the state that it comes to. -/
def Unwritten : σ → List α → Prop
  | _, []        => True
  | s, a :: acts => writes s a = none ∧ Unwritten (step s a) acts

/-- Of these actions the last that writes, writes this. -/
def WrittenLast (s : σ) (acts : List α) (e : β) : Prop :=
  ∃ pre a post, acts = pre ++ a :: post ∧ writes (pre.foldl step s) a = some (some e) ∧
    Unwritten step writes (step (pre.foldl step s) a) post

variable {step writes}

theorem writtenLast_cons {s : σ} {a : α} {acts : List α} {e : β} : WrittenLast step writes s (a :: acts) e ↔
    WrittenLast step writes (step s a) acts e ∨ writes s a = some (some e) ∧ Unwritten step writes (step s a) acts := by
  constructor
  · rintro ⟨pre, b, post, he, hb, hpost⟩
    cases pre with
    | nil => cases he; exact .inr ⟨hb, hpost⟩
    | cons c pre => cases he; exact .inl ⟨pre, b, post, rfl, hb, hpost⟩
  · rintro (⟨pre, b, post, rfl, hb, hpost⟩ | ⟨ha, hacts⟩)
    · exact ⟨a :: pre, b, post, rfl, hb, hpost⟩
    · exact ⟨[], a, acts, rfl, ha, hacts⟩

/-- **What is in a place was written there last**, or was there and nothing has been written. -/
theorem view_foldl_iff (view : σ → Option β) (hstep : ∀ s a, view (step s a) = (writes s a).getD (view s)) (e : β) :
    ∀ (acts : List α) (s : σ), view (acts.foldl step s) = some e ↔
      WrittenLast step writes s acts e ∨ Unwritten step writes s acts ∧ view s = some e
  | [], s => by simp [WrittenLast, Unwritten]
  | a :: acts, s => by
    rw [List.foldl_cons, view_foldl_iff view hstep e acts (step s a), writtenLast_cons, hstep]
    constructor
    · rintro (hlast | ⟨hacts, hview⟩)
      · exact .inl (.inl hlast)
      · cases hwrites : writes s a with
        | none => rw [hwrites] at hview; exact .inr ⟨⟨hwrites, hacts⟩, hview⟩
        | some left => rw [hwrites] at hview; exact .inl (.inr ⟨congrArg some hview, hacts⟩)
    · rintro ((hlast | ⟨hwrites, hacts⟩) | ⟨⟨hwrites, hacts⟩, hview⟩)
      · exact .inl hlast
      · rw [hwrites]; exact .inr ⟨hacts, rfl⟩
      · rw [hwrites]; exact .inr ⟨hacts, hview⟩

theorem writes_of_unwritten {a : α} {post : List α} (pre : List α) {s : σ}
    (h : Unwritten step writes s (pre ++ a :: post)) : writes (pre.foldl step s) a = none := by
  induction pre generalizing s with
  | nil => exact h.1
  | cons b pre ih => exact ih h.2

/-- There is one last action that writes. -/
theorem last_unique {a b : α} {post post' : List α} (pre pre' : List α) {s : σ}
    (he : pre ++ a :: post = pre' ++ b :: post') (ha : writes (pre.foldl step s) a ≠ none)
    (hb : writes (pre'.foldl step s) b ≠ none) (hpost : Unwritten step writes (step (pre.foldl step s) a) post)
    (hpost' : Unwritten step writes (step (pre'.foldl step s) b) post') : pre = pre' ∧ a = b := by
  induction pre generalizing s pre' with
  | nil =>
    cases pre' with
    | nil => cases he; exact ⟨rfl, rfl⟩
    | cons c pre' =>
      cases he
      exact absurd (writes_of_unwritten pre' hpost) hb
  | cons c pre ih =>
    cases pre' with
    | nil =>
      cases he
      exact absurd (writes_of_unwritten pre hpost') ha
    | cons c' pre' =>
      obtain ⟨rfl, he'⟩ := List.cons.inj he
      obtain ⟨rfl, hab⟩ := ih pre' he' ha hb hpost hpost'
      exact ⟨rfl, hab⟩

end Writing

/-! ## Operations on one key -/

namespace Cache

/-- What is held under a key has had its time. -/
def isUp (c : Cache) (key : String) : Bool := (c.entries.get? key).any (fun e => !decide (c.clock < e.expires))

theorem get_of_live {c : Cache} {key : String} {e : Entry} (hentry : c.entries.get? key = some e)
    (hlive : c.clock < e.expires) : c.get key = (some e.value, c) := by
  unfold get
  rw [hentry]
  exact if_pos hlive

theorem get_of_isUp {c : Cache} {key : String} (h : c.isUp key = true) :
    c.get key = (none, { c with entries := c.entries.erase key }) := by
  unfold isUp at h
  unfold get
  cases hentry : c.entries.get? key with
  | none => rw [hentry] at h; cases h
  | some e =>
    rw [hentry] at h
    exact if_neg (by simpa using h)

theorem get_of_not_isUp {c : Cache} {key : String} (h : c.isUp key = false) :
    c.get key = ((c.entries.get? key).map Entry.value, c) := by
  unfold isUp at h
  cases hentry : c.entries.get? key with
  | none => unfold get; rw [hentry]; rfl
  | some e =>
    rw [hentry] at h
    exact get_of_live hentry (by simpa using h)

/-- Look-up finds what is held and has its time yet. -/
theorem get_eq_some_iff (c : Cache) (key : String) (body : Json) :
    (c.get key).1 = some body ↔ ∃ e, c.entries.get? key = some e ∧ c.clock < e.expires ∧ e.value = body := by
  unfold get
  cases hentry : c.entries.get? key with
  | none => simp
  | some e =>
    simp only
    split
    · rename_i hlive; simp [hlive]
    · rename_i hup; simp [hup]

end Cache

/-- What an operation leaves under a key: nothing said, nothing there, or an entry. -/
def CacheOp.leaves? (c : Cache) (key : String) : CacheOp → Option (Option Cache.Entry)
  | .get k            => if k = key ∧ c.isUp key then some none else none
  | .set k body       => if k = key then some (some ⟨body, c.expiry⟩) else none
  | .invalidate front => if Text.startsWith key front then some none else none
  | .clear            => some none
  | .isEmpty | .tick _ => none

/-- **An operation changes what is under a key as it says**, and nothing else does. -/
theorem CacheOp.entry_run (c : Cache) (op : CacheOp) (key : String) :
    (op.run c).2.entries.get? key = (op.leaves? c key).getD (c.entries.get? key) := by
  cases op with
  | get k =>
    show (c.get k).2.entries.get? key = _
    cases hup : c.isUp k with
    | false =>
      have hnot : ¬ (k = key ∧ c.isUp key = true) := by
        rintro ⟨rfl, hkey⟩
        rw [hup] at hkey; cases hkey
      simp only [Cache.get_of_not_isUp hup, leaves?, if_neg hnot, Option.getD_none]
    | true =>
      rw [Cache.get_of_isUp hup]
      show (c.entries.erase k).get? key = _
      rw [Table.get?_erase]
      by_cases hkey : k = key
      · subst hkey
        simp [leaves?, hup]
      · simp [leaves?, hkey, Ne.symm hkey]
  | set k body =>
    show (c.entries.insert k _).get? key = _
    rw [Table.get?_insert]
    simp only [leaves?]
    split <;> rfl
  | invalidate front =>
    show (c.entries.filterKeys _).get? key = _
    rw [Table.get?_filterKeys]
    simp only [leaves?]
    cases Text.startsWith key front <;> rfl
  | clear => rfl
  | isEmpty => rfl
  | tick now => rfl

theorem CacheOp.leaves?_eq_entry {c : Cache} {op : CacheOp} {key : String} {e : Cache.Entry} :
    op.leaves? c key = some (some e) ↔ ∃ body, op = .set key body ∧ e = ⟨body, c.expiry⟩ := by
  cases op with
  | get k => simp [leaves?]
  | set k body =>
    constructor
    · intro h
      simp only [leaves?] at h
      split at h
      · rename_i hkey
        subst hkey
        exact ⟨body, rfl, (Option.some.inj (Option.some.inj h)).symm⟩
      · cases h
    · rintro ⟨v, hset, rfl⟩
      cases hset
      exact if_pos rfl
  | invalidate front => simp [leaves?]
  | clear => simp [leaves?]
  | isEmpty => simp [leaves?]
  | tick now => simp [leaves?]

theorem Cache.get_keeps_time (c : Cache) (key : String) :
    (c.get key).2.lifetime = c.lifetime ∧ (c.get key).2.clock = c.clock := by
  cases hup : c.isUp key with
  | false => rw [get_of_not_isUp hup]; exact ⟨rfl, rfl⟩
  | true => rw [get_of_isUp hup]; exact ⟨rfl, rfl⟩

theorem CacheOp.run_lifetime (c : Cache) (op : CacheOp) : (op.run c).2.lifetime = c.lifetime := by
  cases op with
  | get key => exact (c.get_keeps_time key).1
  | _ => rfl

theorem CacheOp.run_clock (c : Cache) (op : CacheOp) (h : ∀ now, op ≠ .tick now) : (op.run c).2.clock = c.clock := by
  cases op with
  | get key => exact (c.get_keeps_time key).2
  | tick now => exact absurd rfl (h now)
  | _ => rfl

/-- The key of a tenant's read begins with what all keys of that resource and tenant begin with. -/
theorem Cache.startsWith_key (resource : Resource) (subject : Subject) (path : String)
    (query : List (String × String)) : Text.startsWith (key resource.name subject.scope path query)
      (resourceFront resource.name subject.tenant.text) = true := by
  rw [Text.startsWith_iff]
  unfold key resourceFront Subject.scope
  simp only [String.toList_append, List.append_assoc]
  exact ⟨_, rfl⟩

theorem Client.startsWith_listKey (s : Session) (resource : Resource) :
    Text.startsWith (listKey s resource) (Cache.resourceFront resource.name s.subject.tenant.text) = true :=
  Cache.startsWith_key resource s.subject _ _

namespace Client

theorem listKey_congr {s s' : Session} (h : s.subject = s'.subject) (resource : Resource) :
    listKey s resource = listKey s' resource := by
  unfold listKey listRequest
  rw [h]

/-- What the end of an exchange does to the cache. -/
def cacheOp? (s : Session) : Purpose → Except ApiError Answer → Option CacheOp
  | .list _ stamp key, .ok a => if s.isCurrent stamp then some (.set key a.body) else none
  | .submit m tenant, .ok _  => some (.invalidate (Cache.resourceFront m.resource.name tenant.text))
  | _, _ => none

theorem concluded_cache (s : Session) (p : Purpose) (result : Except ApiError Answer) :
    (concluded s p result).cache = match cacheOp? s p result with
      | some op => (op.run s.cache).2
      | none    => s.cache := by
  unfold concluded cacheOp?
  rcases p with _ | stamp | ⟨resource, stamp, key⟩ | ⟨m, tenant⟩ | _ <;> rcases result with err | a <;> try rfl
  · simp only
    split
    · split <;> rfl
    · rfl
  · simp only
    split <;> rfl

end Client

namespace Run

/-- What an action does to the cache. -/
def cacheOp? (r : Run) : Action → Option CacheOp
  | .begin (.list resource) => some (.get (Client.listKey r.session resource))
  | .answer id arrival =>
    match r.ongoing.get? id with
    | some (.answer x) =>
      match Client.verdict r.config r.session x arrival with
      | .settled result => Client.cacheOp? r.session x.purpose result
      | .again _ => none
    | _ => none
  | .switch _ => some .clear
  | .cache op => some op
  | _ => none

theorem cacheOp?_of_settled {r : Run} {id : Nat} {arrival : Arrival} {x : Exchange} {result : Except ApiError Answer}
    (hx : r.ongoing.get? id = some (.answer x)) (hv : Client.verdict r.config r.session x arrival = .settled result) :
    r.cacheOp? (.answer id arrival) = Client.cacheOp? r.session x.purpose result := by
  simp only [cacheOp?, hx, hv]

/-- **The cache changes by single operations.** -/
theorem step_cache (r : Run) (a : Action) :
    (r.step a).session.cache = match r.cacheOp? a with
      | some op => (op.run r.session.cache).2
      | none    => r.session.cache := by
  cases a with
  | begin call =>
    have ho := Client.start_opening r.session call
    show (Client.start r.session call).2.cache = _
    cases call with
    | list resource =>
      simp only [Client.start, cacheOp?]
      cases hit : (r.session.cache.get (Client.listKey r.session resource)).1 with
      | some body => rw [Client.list_of_hit hit]; rfl
      | none => rw [Client.list_of_miss hit]; rfl
    | _ =>
      generalize (Client.start r.session _).1 = p, (Client.start r.session _).2 = s' at ho ⊢
      cases ho with
      | declined reply n => rfl
      | served resource body hc hit => cases hc
      | listed resource hc miss => cases hc
      | asked purpose hc => rfl
      | sent request hc => rfl
      | submitted m a n hm hp hf hb => rfl
  | answer id arrival =>
    rcases hw : r.ongoing.get? id with _ | x | ⟨ms, x⟩
    · simp only [step, act, cacheOp?, hw]
    · simp only [step, act, cacheOp?, hw, note, Client.arrive_eq]
      cases hv : Client.verdict r.config r.session x arrival with
      | again ms => rfl
      | settled result =>
        simp only [Client.settle_session, Client.concluded_skip]
        exact Client.concluded_cache r.session x.purpose result
    · simp only [step, act, cacheOp?, hw]
  | resume id =>
    rcases hw : r.ongoing.get? id with _ | x | ⟨ms, x⟩ <;> simp only [step, act, cacheOp?, hw, note]
  | abandon id =>
    have hdrop : ∀ x, (Client.abandon r.session x).cache = r.session.cache := by
      intro x
      unfold Client.abandon
      split <;> rfl
    rcases hw : r.ongoing.get? id with _ | x | ⟨ms, x⟩ <;> simp only [step, act, cacheOp?, hw, hdrop]
  | context op =>
    simp only [step, act, cacheOp?]
    cases op.run r.session.contexts r.stamps with
    | none => rfl
    | some result => rfl
  | _ => rfl

theorem step_lifetime (r : Run) (a : Action) :
    (r.step a).session.cache.lifetime = r.session.cache.lifetime := by
  rw [r.step_cache a]
  cases r.cacheOp? a with
  | none => rfl
  | some op => exact op.run_lifetime _

theorem after_lifetime : ∀ (acts : List Action) (r : Run),
    (r.after acts).session.cache.lifetime = r.session.cache.lifetime
  | [], _ => rfl
  | a :: acts, r => (after_lifetime acts (r.step a)).trans (r.step_lifetime a)

/-- What an action leaves under a key. -/
def leaves? (key : String) (r : Run) (a : Action) : Option (Option Cache.Entry) :=
  (r.cacheOp? a).bind (·.leaves? r.session.cache key)

/-- No action of a run touches a key. -/
def Untouched (r : Run) (key : String) (acts : List Action) : Prop := Unwritten step (leaves? key) r acts

theorem entry_step (key : String) (r : Run) (a : Action) :
    (r.step a).session.cache.entries.get? key = (leaves? key r a).getD (r.session.cache.entries.get? key) := by
  rw [r.step_cache a]
  unfold leaves?
  cases r.cacheOp? a with
  | none => rfl
  | some op => exact op.entry_run _ key

/-- **An entry was left by the last action that touched its key**, or is there because none did. -/
theorem entry_after_iff (key : String) (e : Cache.Entry) (acts : List Action) (r : Run) :
    (r.after acts).session.cache.entries.get? key = some e ↔
      WrittenLast step (leaves? key) r acts e ∨ r.Untouched key acts ∧ r.session.cache.entries.get? key = some e :=
  view_foldl_iff (fun r => r.session.cache.entries.get? key) (entry_step key) e acts r

/-! ## After a mutation -/

/-- The last that these actions do to a key is to keep, at a moment, the answer to what call `id` has asked. -/
def Keeps (r : Run) (acts : List Action) (key : String) (id : Nat) (x : Exchange) (body : Json) (t : Moment) : Prop :=
  ∃ pre arrival post, acts = pre ++ .answer id arrival :: post ∧
    (r.after pre).ongoing.get? id = some (.answer x) ∧ (r.after pre).session.cache.clock = t ∧
    (r.after pre).cacheOp? (.answer id arrival) = some (.set key body) ∧
    ((r.after pre).step (.answer id arrival)).Untouched key post

theorem leaves?_of_set {r : Run} {a : Action} {key : String} {body : Json} (h : r.cacheOp? a = some (.set key body)) :
    leaves? key r a = some (some ⟨body, r.session.cache.expiry⟩) := by
  unfold leaves?
  rw [h]
  exact CacheOp.leaves?_eq_entry.2 ⟨body, rfl, rfl⟩

theorem Keeps.unique {r : Run} {acts : List Action} {key : String} {id id' : Nat} {x x' : Exchange} {body body' : Json}
    {t t' : Moment} (h : r.Keeps acts key id x body t) (h' : r.Keeps acts key id' x' body' t') : id = id' ∧ x = x' := by
  obtain ⟨pre, arrival, post, rfl, hx, -, hset, hpost⟩ := h
  obtain ⟨pre', arrival', post', he, hx', -, hset', hpost'⟩ := h'
  have hne : leaves? key (r.after pre) (.answer id arrival) ≠ none := by
    rw [leaves?_of_set hset]; exact Option.some_ne_none _
  have hne' : leaves? key (r.after pre') (.answer id' arrival') ≠ none := by
    rw [leaves?_of_set hset']; exact Option.some_ne_none _
  obtain ⟨rfl, ha⟩ := last_unique pre pre' he hne hne' hpost hpost'
  cases ha
  rw [hx] at hx'
  cases hx'
  exact ⟨rfl, rfl⟩

theorem Keeps.source {r : Run} {acts : List Action} {key : String} {id : Nat} {x : Exchange} {body : Json} {t : Moment}
    (hc : ∀ a ∈ acts, a.isClient = true) (h : r.Keeps acts key id x body t) :
    r.ongoing.get? id = some (.answer x) ∨ r.Sent acts id x := by
  obtain ⟨pre, arrival, post, rfl, hx, -⟩ := h
  have hpre : ∀ b ∈ pre, b.isClient = true := fun b hb => hc b (List.mem_append_left _ hb)
  exact (sent_of_waiting hpre hx).imp_right (fun hsent => hsent.append _)

theorem answer_of_set {r : Run} {key : String} {a : Action} (ha : a.isClient = true) {body : Json}
    (h : r.cacheOp? a = some (.set key body)) :
    ∃ id arrival x, a = .answer id arrival ∧ r.ongoing.get? id = some (.answer x) := by
  unfold cacheOp? at h
  split at h
  · cases h
  · rename_i id arrival
    split at h
    · rename_i x hx
      exact ⟨id, arrival, x, rfl, hx⟩
    · cases h
  · cases h
  · cases h; cases ha
  · cases h

/-- Where nothing was held, what is held was kept since, and lives from that moment. -/
theorem entry_of_absent {r : Run} {acts : List Action} {key : String} (hc : ∀ a ∈ acts, a.isClient = true)
    (habsent : r.session.cache.entries.get? key = none) (e : Cache.Entry) :
    (r.after acts).session.cache.entries.get? key = some e ↔
      ∃ id x t, r.Keeps acts key id x e.value t ∧ e.expires = t.later r.session.cache.lifetime := by
  rw [entry_after_iff]
  constructor
  · rintro (⟨pre, a, post, rfl, hleft, hpost⟩ | ⟨-, hentry⟩)
    · obtain ⟨op, hop, hleaves⟩ := Option.bind_eq_some_iff.1 hleft
      obtain ⟨body, rfl, rfl⟩ := CacheOp.leaves?_eq_entry.1 hleaves
      obtain ⟨id, arrival, x, rfl, hx⟩ := answer_of_set (hc a (by simp)) hop
      refine ⟨id, x, _, ⟨pre, arrival, post, rfl, hx, rfl, hop, hpost⟩, ?_⟩
      rw [← after_lifetime pre r]
      rfl
    · rw [habsent] at hentry; cases hentry
  · rintro ⟨id, x, t, ⟨pre, arrival, post, rfl, -, rfl, hset, hpost⟩, hexpires⟩
    refine .inl ⟨pre, _, post, rfl, (leaves?_of_set hset).trans ?_, hpost⟩
    unfold Cache.expiry
    rw [after_lifetime pre r, ← hexpires]

/-- A listing begun here sends a request of its own. -/
def Asks (r : Run) (resource : Resource) : Prop :=
  ∃ x, (r.act (.begin (.list resource))).1 = .progressed r.started (.waiting (.answer x))

/-- A listing begun here is answered with a body at once. -/
def Serves (r : Run) (resource : Resource) (body : Json) : Prop :=
  ∃ trace, (r.act (.begin (.list resource))).1 =
    .progressed r.started (.returned (Client.listingReply trace resource (.ok body)))

theorem serves_of_hit {r : Run} {resource : Resource} {body : Json}
    (hit : (r.session.cache.get (Client.listKey r.session resource)).1 = some body) : r.Serves resource body := by
  refine ⟨.minted r.session.mint.peek, ?_⟩
  simp only [act, note, Client.start, Client.list_of_hit hit]

theorem asks_iff {r : Run} {resource : Resource} :
    r.Asks resource ↔ (r.session.cache.get (Client.listKey r.session resource)).1 = none := by
  constructor
  · rintro ⟨x, hx⟩
    cases hit : (r.session.cache.get (Client.listKey r.session resource)).1 with
    | none => rfl
    | some body =>
      simp only [act, note, Client.start, Client.list_of_hit hit] at hx
      cases hx
  · intro miss
    refine ⟨⟨(Client.listRequest r.session resource).withContext r.session.stamp,
      .list resource r.session.stamp (Client.listKey r.session resource), 1⟩, ?_⟩
    simp only [act, note, Client.start, Client.list_of_miss miss]

/-- The key under which the cache would keep a listing that begins after these actions. -/
def keyAfter (r : Run) (acts : List Action) (resource : Resource) : String :=
  Client.listKey (r.after acts).session resource

/-- What was kept at a moment has time yet after these actions. -/
def Lives (r : Run) (acts : List Action) (t : Moment) : Prop :=
  (r.after acts).session.cache.clock < t.later r.session.cache.lifetime

/-- A listing that begins after these actions is asked for, or served what was asked for since. -/
def Coherent (r : Run) (acts : List Action) (resource : Resource) : Prop :=
  (r.after acts).Asks resource ∨
    ∃ id x body t, r.Keeps acts (r.keyAfter acts resource) id x body t ∧ r.Sent acts id x ∧
      (r.after acts).Serves resource body

theorem Completes.isClient {r : Run} {a : Action} {m : Mutation} {tenant : TenantId} (h : r.Completes a m tenant) :
    a.isClient = true := by
  obtain ⟨id, arrival, x, answer, rfl, -⟩ := h
  rfl

theorem Completes.cacheOp? {r : Run} {a : Action} {m : Mutation} {tenant : TenantId} (h : r.Completes a m tenant) :
    r.cacheOp? a = some (.invalidate (Cache.resourceFront m.resource.name tenant.text)) := by
  obtain ⟨id, arrival, x, answer, rfl, hx, hp, hv⟩ := h
  rw [cacheOp?_of_settled hx hv, hp]
  rfl

theorem Completes.absent {r : Run} {a : Action} {m : Mutation} {tenant : TenantId} (h : r.Completes a m tenant)
    {key : String} (hkey : Text.startsWith key (Cache.resourceFront m.resource.name tenant.text) = true) :
    (r.step a).session.cache.entries.get? key = none := by
  rw [r.step_cache a, h.cacheOp?]
  show (r.session.cache.entries.filterKeys _).get? key = none
  rw [Table.get?_filterKeys, hkey]
  rfl

section After

variable {r : Run} {a : Action} {m : Mutation} {tenant : TenantId} {acts : List Action}

/-- After a mutation the cache answers with what was kept since and has time yet, and with nothing else. -/
theorem hit_after_iff (ha : r.Completes a m tenant) (hc : ∀ b ∈ acts, b.isClient = true)
    (ht : ((r.step a).after acts).session.subject.tenant = tenant) (body : Json) :
    (((r.step a).after acts).session.cache.get ((r.step a).keyAfter acts m.resource)).1 = some body ↔
      ∃ id x t, (r.step a).Keeps acts ((r.step a).keyAfter acts m.resource) id x body t ∧ (r.step a).Lives acts t := by
  have hkey := Client.startsWith_listKey ((r.step a).after acts).session m.resource
  rw [ht] at hkey
  rw [Cache.get_eq_some_iff]
  constructor
  · rintro ⟨e, hentry, hlive, rfl⟩
    obtain ⟨id, x, t, hkeeps, hexpires⟩ := (entry_of_absent hc (ha.absent hkey) e).1 hentry
    rw [hexpires] at hlive
    exact ⟨id, x, t, hkeeps, hlive⟩
  · rintro ⟨id, x, t, hkeeps, hlives⟩
    exact ⟨⟨body, _⟩, (entry_of_absent hc (ha.absent hkey) _).2 ⟨id, x, t, hkeeps, rfl⟩, hlives, rfl⟩

theorem asks_after_iff (ha : r.Completes a m tenant) (hc : ∀ b ∈ acts, b.isClient = true)
    (ht : ((r.step a).after acts).session.subject.tenant = tenant) :
    ((r.step a).after acts).Asks m.resource ↔ ¬ ∃ id x body t,
      (r.step a).Keeps acts ((r.step a).keyAfter acts m.resource) id x body t ∧ (r.step a).Lives acts t := by
  rw [asks_iff, Option.eq_none_iff_forall_ne_some]
  constructor
  · rintro hmiss ⟨id, x, body, t, hkept⟩
    exact hmiss body ((hit_after_iff ha hc ht body).2 ⟨id, x, t, hkept⟩)
  · rintro hnot body hbody
    obtain ⟨id, x, t, hkept⟩ := (hit_after_iff ha hc ht body).1 hbody
    exact hnot ⟨id, x, body, t, hkept⟩

/-- An answer that was overtaken by the mutation and kept is served as long as it lives. -/
theorem not_coherent_of_kept (hr : r.Reached) (ha : r.Completes a m tenant) (hc : ∀ b ∈ acts, b.isClient = true)
    (ht : ((r.step a).after acts).session.subject.tenant = tenant) {id : Nat} {x : Exchange} {body : Json} {t : Moment}
    (hkeeps : (r.step a).Keeps acts ((r.step a).keyAfter acts m.resource) id x body t) (hlives : (r.step a).Lives acts t)
    (hx : (r.step a).ongoing.get? id = some (.answer x)) : ¬ (r.step a).Coherent acts m.resource := by
  rintro (hask | ⟨id', x', body', t', hkeeps', hsent, -⟩)
  · exact (asks_after_iff ha hc ht).1 hask ⟨id, x, body, t, hkeeps, hlives⟩
  · obtain ⟨rfl, rfl⟩ := hkeeps.unique hkeeps'
    exact not_sent_of_waiting (hr.step ha.isClient).orderly hc hx hsent

/-- **After a mutation** a listing of its resource and tenant sends a request of its own exactly where
no answer was kept since, or its time is up; and it is coherent exactly where no answer was kept, and has
time yet, of a request that was in the transport when the mutation completed. -/
theorem listing_coherent_iff (hr : r.Reached) (ha : r.Completes a m tenant) (hc : ∀ b ∈ acts, b.isClient = true)
    (ht : ((r.step a).after acts).session.subject.tenant = tenant) :
    (((r.step a).after acts).Asks m.resource ↔ ¬ ∃ id x body t,
      (r.step a).Keeps acts ((r.step a).keyAfter acts m.resource) id x body t ∧ (r.step a).Lives acts t) ∧
    ((r.step a).Coherent acts m.resource ↔ ¬ ∃ id x body t,
      (r.step a).Keeps acts ((r.step a).keyAfter acts m.resource) id x body t ∧ (r.step a).Lives acts t ∧
        (r.step a).ongoing.get? id = some (.answer x)) := by
  refine ⟨asks_after_iff ha hc ht, ?_, ?_⟩
  · rintro hcoherent ⟨id, x, body, t, hkeeps, hlives, hx⟩
    exact not_coherent_of_kept hr ha hc ht hkeeps hlives hx hcoherent
  · intro hfresh
    by_cases hask : ((r.step a).after acts).Asks m.resource
    · exact .inl hask
    · obtain ⟨id, x, body, t, hkeeps, hlives⟩ := Classical.not_not.1 (fun h => hask ((asks_after_iff ha hc ht).2 h))
      have hserved := serves_of_hit ((hit_after_iff ha hc ht body).2 ⟨id, x, t, hkeeps, hlives⟩)
      refine .inr ⟨id, x, body, t, hkeeps, ?_, hserved⟩
      exact (hkeeps.source hc).resolve_left (fun hx => hfresh ⟨id, x, body, t, hkeeps, hlives, hx⟩)

end After

/-- A listing of stores has been asked for, and then a store is to be opened. -/
def storeOpening : Run :=
  (start .standard (.ofUser ⟨.ofNat 1⟩ ⟨.ofNat 2⟩ ⟨"manager"⟩) (.ofMillis 0)).after
    [.grant (.ofPairs [(Permission.createStores, true)]), .begin (.list .stores), .begin (.createStore ⟨"North", none⟩)]

theorem storeOpening_reached : storeOpening.Reached := ⟨_, _, _, _, by simp [Action.isClient], rfl⟩

theorem storeOpening_completes :
    storeOpening.Completes (.answer 1 (.ok (.make 201 ""))) (Client.storeMutation storeOpening.session ⟨"North", none⟩)
      ⟨.ofNat 2⟩ := ⟨_, _, _, _, rfl, rfl, rfl, rfl⟩

theorem coherent_at_completion :
    (storeOpening.step (.answer 1 (.ok (.make 201 "")))).Coherent [] .stores := by
  refine (listing_coherent_iff storeOpening_reached storeOpening_completes (by simp) rfl).2.2 ?_
  rintro ⟨id, x, body, t, ⟨pre, arrival, post, he, -⟩, -⟩
  exact absurd he (by simp)

/-- **An overtaken listing is served**: it was answered with no store after the store had been opened. -/
theorem overtaken_listing_served :
    storeOpening.Completes (.answer 1 (.ok (.make 201 ""))) (Client.storeMutation storeOpening.session ⟨"North", none⟩)
      ⟨.ofNat 2⟩ ∧
    ¬ (storeOpening.step (.answer 1 (.ok (.make 201 "")))).Coherent [.answer 0 (.ok (.make 200 "[]"))] .stores := by
  have hkey : (storeOpening.step (.answer 1 (.ok (.make 201 "")))).keyAfter [.answer 0 (.ok (.make 200 "[]"))] .stores =
      Client.listKey storeOpening.session .stores := by
    unfold keyAfter
    rw [← after_cons]
    exact Client.listKey_congr (subject_after (by simp)) .stores
  have hset : (storeOpening.step (.answer 1 (.ok (.make 201 "")))).cacheOp? (.answer 0 (.ok (.make 200 "[]"))) =
      some (.set (Client.listKey storeOpening.session .stores) (.array [])) := rfl
  rw [← hkey] at hset
  obtain ⟨x, hx⟩ : ∃ x, (storeOpening.step (.answer 1 (.ok (.make 201 "")))).ongoing.get? 0 = some (.answer x) :=
    ⟨_, rfl⟩
  have ht : ((storeOpening.step (.answer 1 (.ok (.make 201 "")))).after
      [.answer 0 (.ok (.make 200 "[]"))]).session.subject.tenant = ⟨.ofNat 2⟩ := rfl
  have hlives : (storeOpening.step (.answer 1 (.ok (.make 201 "")))).Lives [.answer 0 (.ok (.make 200 "[]"))] 0 := by
    show (0 : Int) < Moment.later 0 _
    decide +kernel
  have hstale := not_coherent_of_kept storeOpening_reached storeOpening_completes (by simp [Action.isClient]) ht
    ⟨[], _, [], rfl, hx, rfl, hset, trivial⟩ hlives hx
  exact ⟨storeOpening_completes, hstale⟩

end Run
end BackOffice
