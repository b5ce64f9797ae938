import BackOffice.Proofs.Courses
import BackOffice.Proofs.Resubmission
/-!
# What a success leaves in the cache

The answer to a mutation is a success by its status.  Where its body reads as JSON the tenant's listings of the
resource are dropped, whatever the value is; where it does not, the call fails and the cache stays as it was, so a
listing that the mutation has outdated goes on being served (`applied_invalidates_iff`).
-/
namespace BackOffice

/-- An entry is what some subject of the tenant read of the resource, at whatever store. -/
def Cache.Holds (c : Cache) (resource : Resource) (tenant : TenantId) : Prop :=
  ∃ (subject : Subject) (path : String) (query : List (String × String)) (e : Entry), subject.tenant = tenant ∧
    c.entries.get? (key resource.name subject.scope path query) = some e

namespace Run

variable {r : Run}

theorem started_le (r : Run) : ∀ acts : List Action, r.started ≤ (r.after acts).started
  | [] => Nat.le_refl _
  | a :: acts => Nat.le_trans (r.started_le_step a) (started_le (r.step a) acts)

/-- What waits under a number that has been given waited under it before, whatever is done meanwhile. -/
theorem continues_of_waiting {acts : List Action} {id : Nat} (hid : id < r.started) {w' : Waiting}
    (hw' : (r.after acts).ongoing.get? id = some w') :
    ∃ w, r.ongoing.get? id = some w ∧ Continues w.exchange w'.exchange := by
  rcases begun_of_waiting hw' with hw | ⟨pre, call, post, x, -, rfl, -⟩
  · exact hw
  · exact absurd hid (Nat.not_lt.2 (r.started_le pre))

/-- What a call waits for is what it has sent, gone on. -/
theorem continues_of_sent {call : Call} {x : Exchange}
    (hsent : (r.act (.begin call)).1 = .progressed r.started (.waiting (.answer x))) {mid : List Action} {w : Waiting}
    (hw : ((r.step (.begin call)).after mid).ongoing.get? r.started = some w) : Continues x w.exchange := by
  have hturn := act_turn r (show (Action.begin call).isClient = true from rfl)
  rw [hsent] at hturn
  obtain ⟨w₀, hw₀, hcontinues⟩ := continues_of_waiting (Nat.lt_succ_self r.started) hw
  rw [hturn.waiting_of_event] at hw₀
  cases hw₀
  exact hcontinues

/-- In its context a success ends the call: with the answer, or where the body is no JSON with an error. -/
theorem ends_of_success {id : Nat} {y : Exchange} (hy : r.ongoing.get? id = some (.answer y))
    (hcontext : r.session.isInContext y.request = true) {raw : RawResponse} (hsuccess : raw.isSuccess = true) :
    Client.verdict r.config r.session y (.ok raw) = .settled (Arrival.read r.session.mint.peek (.ok raw)) ∧
    r.act (.answer id (.ok raw)) =
      (.progressed id (.returned
        (Client.settle (r.session.skip 1) y.purpose (Arrival.read r.session.mint.peek (.ok raw))).1),
      { r with
        session := (Client.concluded r.session y.purpose (Arrival.read r.session.mint.peek (.ok raw))).skip 2
        ongoing := r.ongoing.erase id }) := by
  have hv : Client.verdict r.config r.session y (.ok raw) = .settled (Arrival.read r.session.mint.peek (.ok raw)) := by
    rw [Client.verdict_eq, Arrival.mayPass_of_isSuccess hsuccess, Session.receive_of_inContext hcontext]
    simp
  exact ⟨hv, act_of_settled hy hv⟩

/-- As long as the context stands, what was sent for a mutation is in its context, and is for the mutation. -/
theorem submission_in_context {call : Call} {m : Mutation} {x : Exchange}
    (hm : Client.mutation? r.session call = some m)
    (hsent : (r.act (.begin call)).1 = .progressed r.started (.waiting (.answer x))) {mid : List Action}
    (hcontext : ((r.step (.begin call)).after mid).session.stamp = r.session.stamp) {y : Exchange}
    (hy : ((r.step (.begin call)).after mid).ongoing.get? r.started = some (.answer y)) :
    y.purpose = .submit m r.session.subject.tenant ∧
      ((r.step (.begin call)).after mid).session.isInContext y.request = true := by
  obtain ⟨-, hp, -, att, -, hrequest, -⟩ := kept_of_sent hm hsent
  obtain ⟨hsame, hpurpose, -⟩ := continues_of_sent hsent hy
  refine ⟨hpurpose.trans hp, ?_⟩
  unfold Session.isInContext
  rw [show y.request = x.request from hsame, hrequest]
  show ((r.step (.begin call)).after mid).session.isCurrent r.session.stamp = true
  rw [← hcontext]
  exact (isCurrent_iff _ ((r.step (.begin call)).after mid).version).2 rfl

/-- **A success drops what it outdates exactly where its body is read.**  A mutation was sent, whatever has been done
meanwhile its context still stands, and it is answered with a status of success.  The call returns; after that turn
nothing of the resource is held for the tenant, at any store, exactly where the body reads as JSON, or nothing was
held before; and where the body does not read the call fails and the cache is what it was. -/
theorem applied_invalidates_iff {call : Call} {m : Mutation} {x : Exchange}
    (hm : Client.mutation? r.session call = some m)
    (hsent : (r.act (.begin call)).1 = .progressed r.started (.waiting (.answer x))) {mid : List Action}
    (hcontext : ((r.step (.begin call)).after mid).session.stamp = r.session.stamp) {y : Exchange}
    (hy : ((r.step (.begin call)).after mid).ongoing.get? r.started = some (.answer y)) {raw : RawResponse}
    (hsuccess : raw.isSuccess = true) :
    let now := (r.step (.begin call)).after mid
    let ended := now.step (.answer r.started (.ok raw))
    ∃ reply, (now.act (.answer r.started (.ok raw))).1 = .progressed r.started (.returned reply) ∧
      (¬ ended.session.cache.Holds m.resource r.session.subject.tenant ↔
        (∃ body, Arrival.Yields (.ok raw) body) ∨ ¬ now.session.cache.Holds m.resource r.session.subject.tenant) ∧
      ((∀ body, ¬ Arrival.Yields (.ok raw) body) →
        (∃ err, reply.error? = some err) ∧ ended.session.cache = now.session.cache) := by
  intro now ended
  obtain ⟨hp, hcurrent⟩ := submission_in_context hm hsent hcontext hy
  obtain ⟨hv, hact⟩ := ends_of_success hy hcurrent hsuccess
  have hended : ended.session.cache =
      (Client.concluded now.session y.purpose (Arrival.read now.session.mint.peek (.ok raw))).cache := by
    show (now.act _).2.session.cache = _
    rw [hact]; rfl
  refine ⟨_, by rw [hact], ?_⟩
  cases hread : Arrival.read now.session.mint.peek (.ok raw) with
  | ok answer =>
    have hyields := Arrival.yields_of_read hread
    refine ⟨iff_of_true ?_ (.inl ⟨_, hyields⟩), fun hnone => absurd hyields (hnone _)⟩
    rintro ⟨subject, path, query, e, htenant, hentry⟩
    have hcompletes : now.Completes (.answer r.started (.ok raw)) m r.session.subject.tenant :=
      ⟨_, _, y, answer, rfl, hy, hp, hv.trans (congrArg _ hread)⟩
    rw [← htenant] at hcompletes
    rw [hcompletes.absent (Cache.startsWith_key m.resource subject path query)] at hentry
    cases hentry
  | error err =>
    have hkept : ended.session.cache = now.session.cache := by
      rw [hended, hread, hp]; rfl
    have hunread : ∀ body, ¬ Arrival.Yields (.ok raw) body := by
      intro body hyields
      obtain ⟨answer, hanswer, -⟩ := Arrival.read_of_yields hyields now.session.mint.peek
      rw [hread] at hanswer; cases hanswer
    refine ⟨?_, fun _ => ⟨⟨err, Client.settle_error _ _ _⟩, hkept⟩⟩
    rw [hkept]
    exact ⟨.inr, fun h => h.resolve_left fun ⟨body, hbody⟩ => hunread body hbody⟩

/-- A session that may open stores and has a listing of them in its cache. -/
def storeListing : Run := storeKeeping.after noStores

theorem storeListing_holds : storeListing.session.cache.Holds .stores ⟨.ofNat 2⟩ := by
  have hthere : (storeListing.session.cache.entries.get? (Client.listKey storeListing.session .stores)).isSome = true := by
    decide +kernel
  obtain ⟨e, hentry⟩ := Option.isSome_iff_exists.1 hthere
  exact ⟨storeListing.session.subject, _, _, e, rfl, hentry⟩

/-- The store has been opened and the server says no more: the listing is dropped. -/
theorem opening_drops_listing :
    ¬ ((storeListing.step openNorth).step (.answer 1 (.ok (.make 201 "")))).session.cache.Holds .stores ⟨.ofNat 2⟩ := by
  obtain ⟨reply, -, hheld, -⟩ :=
    @applied_invalidates_iff storeListing (.createStore ⟨"North", none⟩) _ _ rfl rfl [] rfl _ rfl (.make 201 "") rfl
  exact hheld.2 (.inl ⟨.null, _, rfl, rfl, rfl⟩)

/-- **A success that is not read leaves an outdated listing**: the server says in plain words that the store has been
opened, and the listing without it is still there when the call returns. -/
theorem unread_success_keeps_listing :
    ∃ x reply, (storeListing.act openNorth).1 = .progressed 1 (.waiting (.answer x)) ∧
      (RawResponse.make 201 "created").isSuccess = true ∧
      ((storeListing.step openNorth).act (.answer 1 (.ok (.make 201 "created")))).1 = .progressed 1 (.returned reply) ∧
      (storeListing.step openNorth).version = storeListing.version ∧
      ((storeListing.step openNorth).step (.answer 1 (.ok (.make 201 "created")))).session.cache.Holds
        .stores ⟨.ofNat 2⟩ := by
  refine ⟨_, _, rfl, rfl, rfl, version_step_of_begin _ _, ?_⟩
  exact storeListing_holds

end Run
end BackOffice
