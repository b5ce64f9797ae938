import BackOffice.Proofs.Staleness
/-!
# One submission at a time

While a request of an operation is in the transport (`Carries`) the operation is marked as in flight, and
by that mark another call for it is turned away.  The mark is taken in the turn that hands the request over
and given back in the turn in which the call ends, however it ends, so it is neither held longer nor given
back before (`submissions_exclusive`).
-/
namespace BackOffice

/-- Whether a reply tells that the operation was in flight already. -/
def Reply.isAlreadyInFlight : Reply → Bool
  | .storeCreated (.ok .alreadyInFlight) | .userCreated (.ok .alreadyInFlight) | .policySaved (.ok .alreadyInFlight) => true
  | _ => false

namespace Client

theorem submissionReply_alreadyInFlight (trace : TraceId) (intent : Intent) :
    (submissionReply trace intent (.ok .alreadyInFlight)).isAlreadyInFlight = true := by
  cases intent <;> rfl

theorem method_of_mutation {s : Session} {call : Call} {m : Mutation} (hm : mutation? s call = some m) :
    m.method ≠ .get := by
  rcases mutation?_cases hm with ⟨store, rfl, rfl⟩ | ⟨user, rfl, rfl⟩ | ⟨user, before, after, confirmed, rfl, -, rfl⟩
  · exact show Method.post ≠ .get by decide
  · exact show Method.post ≠ .get by decide
  · exact show Method.put ≠ .get by decide

theorem Opening.method_of_submit {s s' : Session} {call : Call} {x : Exchange} {m : Mutation} {tenant : TenantId}
    (h : Opening s call (.waiting (.answer x)) s') (hp : x.purpose = .submit m tenant) : x.request.method ≠ .get := by
  cases h with
  | listed resource hc miss => cases hp
  | asked purpose hc => rcases hc with ⟨-, rfl⟩ | ⟨-, rfl⟩ <;> cases hp
  | sent request hc => cases hp
  | submitted m a n hm hp' hf hb => exact method_of_mutation hm

end Client

namespace Run

variable {r : Run} {id : Nat} {name : String}

/-- Call `id` has a request of this operation in the transport. -/
def Carries (r : Run) (id : Nat) (name : String) : Prop :=
  ∃ x m tenant, r.ongoing.get? id = some (.answer x) ∧ x.purpose = .submit m tenant ∧ m.operation = name

theorem Carries.submitting (h : r.Carries id name) : ∃ q m, r.submitting? id = some (q, m) ∧ m.operation = name := by
  obtain ⟨x, m, tenant, hx, hp, hname⟩ := h
  exact ⟨x.request, m, submitting?_of_waiting hx hp, hname⟩

theorem Reached.method_of_submit (hr : r.Reached) {w : Waiting} (hw : r.ongoing.get? id = some w) {m : Mutation}
    {tenant : TenantId} (hp : w.exchange.purpose = .submit m tenant) : w.exchange.request.method ≠ .get := by
  obtain ⟨config, subject, mint, acts, -, rfl⟩ := hr
  rcases begun_of_waiting hw with ⟨w₀, hw₀, -⟩ | ⟨pre, call, post, x, -, -, hstart, hrequest, hpurpose, -⟩
  · cases hw₀
  · have ho := Client.start_opening ((start config subject mint).after pre).session call
    rw [hstart] at ho
    rw [hrequest]
    exact ho.method_of_submit (hpurpose.symm.trans hp)

/-- What is being submitted is in the transport: only a call that reads ever pauses. -/
theorem Reached.carries (hr : r.Reached) {q : Request} {m : Mutation} (h : r.submitting? id = some (q, m)) :
    r.Carries id m.operation := by
  unfold submitting? at h
  obtain ⟨w, hw, hs⟩ := Option.bind_eq_some_iff.1 h
  unfold Exchange.submits? at hs
  split at hs
  · rename_i m' tenant hp
    cases hs
    cases w with
    | answer x => exact ⟨x, m, tenant, hw, hp, rfl⟩
    | pause ms x => exact absurd (hr.orderly.paused id ms x hw) (hr.method_of_submit hw hp)
  · cases hs

theorem Reached.isInFlight_iff (hr : r.Reached) (name : String) :
    r.session.issuer.isInFlight name = true ↔ ∃ id, r.Carries id name := by
  rw [hr.owned.marked]
  constructor
  · rintro ⟨id, q, m, hq, rfl⟩
    exact ⟨id, hr.carries hq⟩
  · rintro ⟨id, h⟩
    exact ⟨id, h.submitting⟩

/-- **No two calls submit under one name.** -/
theorem Reached.carries_unique (hr : r.Reached) {id' : Nat} (h : r.Carries id name) (h' : r.Carries id' name) :
    id = id' := by
  obtain ⟨q, m, hq, hname⟩ := h.submitting
  obtain ⟨q', m', hq', hname'⟩ := h'.submitting
  exact hr.owned.sole _ _ _ _ _ _ hq hq' (hname.trans hname'.symm)

/-- **Whatever it is answered, a submission ends with its first answer**: it is sent once. -/
theorem Reached.answered (hr : r.Reached) (h : r.Carries id name) (arrival : Arrival) :
    (∃ reply, (r.act (.answer id arrival)).1 = .progressed id (.returned reply)) ∧
      (r.step (.answer id arrival)).ongoing.get? id = none := by
  obtain ⟨x, m, tenant, hx, hp, -⟩ := h
  cases hv : Client.verdict r.config r.session x arrival with
  | settled result =>
    refine ⟨⟨_, congrArg Prod.fst (act_of_settled hx hv)⟩, ?_⟩
    unfold Run.step
    rw [act_of_settled hx hv]
    exact (Table.get?_erase _ _ _).trans (if_pos rfl)
  | again ms =>
    have hget := Client.method_of_again (hr.orderly.counted id _ hx) hv
    exact absurd hget (hr.method_of_submit hx hp)

theorem Carries.dropped (h : r.Carries id name) : (r.step (.abandon id)).ongoing.get? id = none := by
  obtain ⟨x, m, tenant, hx, -⟩ := h
  unfold step
  simp only [act, hx]
  exact (Table.get?_erase _ _ _).trans (if_pos rfl)

theorem Reached.carries_step (hr : r.Reached) (h : r.Carries id name) {a : Action}
    (hanswer : ∀ arrival, a ≠ .answer id arrival) (habandon : a ≠ .abandon id) : (r.step a).Carries id name := by
  obtain ⟨x, m, tenant, hx, hp, hname⟩ := h
  refine ⟨x, m, tenant, ?_, hp, hname⟩
  by_cases hown : a.call? = some id
  · cases a with
    | answer i arrival => cases hown; exact absurd rfl (hanswer arrival)
    | abandon i => cases hown; exact absurd rfl habandon
    | resume i =>
      -- it does not pause, so there is nothing to resume
      cases hown
      unfold Run.step
      simp only [act, hx]
    | _ => cases hown
  · exact (r.ongoing_step_of_other (hr.orderly.numbered id _ hx) hown).trans hx

/-- **A call that is gone has given its mark back.** -/
theorem Reached.freed (hr : r.Reached) (h : r.Carries id name) {a : Action} (ha : a.isClient = true)
    (hown : a.call? = some id) (hgone : (r.step a).ongoing.get? id = none) :
    (r.step a).session.issuer.isInFlight name = false := by
  refine Bool.eq_false_iff.2 fun hmark => ?_
  obtain ⟨other, hother⟩ := ((hr.step ha).isInFlight_iff name).1 hmark
  have hne : other ≠ id := by
    rintro rfl
    obtain ⟨x, m, tenant, hx, -⟩ := hother
    rw [hgone] at hx; cases hx
  obtain ⟨x, m, tenant, hx, hp, hname⟩ := hother
  -- a turn of one call begins no other, so the other has carried the name before
  rcases r.waiting_step hx with ⟨call, y, rfl, -⟩ | ⟨w, hw, hc⟩
  · cases hown
  · have hbefore : r.ongoing.get? other = some (.answer x) := by
      rw [← hx]
      refine (r.ongoing_step_of_other (hr.orderly.numbered other w hw) ?_).symm
      rw [hown]
      exact fun e => hne (Option.some.inj e).symm
    exact hne (hr.carries_unique ⟨x, m, tenant, hbefore, hp, hname⟩ h)

theorem Reached.turned_away (hr : r.Reached) {call : Call} {m : Mutation}
    (hm : Client.mutation? r.session call = some m) (hp : r.session.isAllowed m.permission = true)
    (h : r.Carries id m.operation) :
    (∃ reply, (r.act (.begin call)).1 = .progressed r.started (.returned reply) ∧ reply.isAlreadyInFlight = true) ∧
      ∃ n, r.step (.begin call) = { r with session := r.session.skip n, started := r.started + 1 } := by
  have hmark := (hr.isInFlight_iff m.operation).2 ⟨id, h⟩
  obtain ⟨n, hstart⟩ := Client.start_of_mutation hm hp
  rw [Client.mutate_of_inFlight (r.session.skip n) m hp hmark, Session.skip_skip] at hstart
  exact ⟨⟨_, by rw [act_begin, hstart], Client.submissionReply_alreadyInFlight _ m.intent⟩, n + 1,
    step_of_declined hr.orderly hstart⟩

theorem Reached.admitted (hr : r.Reached) {call : Call} {m : Mutation}
    (hm : Client.mutation? r.session call = some m) (hp : r.session.isAllowed m.permission = true)
    (hfree : ∀ id, ¬ r.Carries id m.operation) :
    (r.step (.begin call)).Carries r.started m.operation ∨
      (∃ reply err, (r.act (.begin call)).1 = .progressed r.started (.returned reply) ∧
        reply.error? = some err ∧ err.category = .conflict) ∧
      ∃ n, r.step (.begin call) = { r with session := r.session.skip n, started := r.started + 1 } := by
  have hunmarked : r.session.issuer.isInFlight m.operation = false := by
    refine Bool.eq_false_iff.2 fun hmark => ?_
    obtain ⟨id, h⟩ := (hr.isInFlight_iff m.operation).1 hmark
    exact hfree id h
  obtain ⟨n, hstart⟩ := Client.start_of_gated hm hp hunmarked
  cases hb : r.session.issuer.binding? (r.session.skip n).nextKeys m.operation m.payload with
  | some a =>
    rw [hb] at hstart
    have hturn := act_turn r (show (Action.begin call).isClient = true from rfl)
    rw [act_begin, hstart] at hturn
    exact .inl ⟨_, m, _, hturn.waiting_of_event, rfl, rfl⟩
  | none =>
    rw [hb] at hstart
    exact .inr ⟨⟨_, .conflict _ _, by rw [act_begin, hstart], Client.submissionReply_error _ m.intent _, rfl⟩, n + 3,
      step_of_declined hr.orderly hstart⟩

/-- **Submissions exclude each other.**  No two requests of one operation are in the transport, and the
operation is in flight exactly while one is.  A call that passes its gates meanwhile tells so, sends nothing,
and leaves the run as it was but for its number and the identifiers it drew; where the operation is free, it
is sent or is a conflict that leaves the run as it was likewise.  What has been sent is in the transport until
it is answered or dropped, and either of the two, whatever the answer, ends the call and frees the operation. -/
theorem submissions_exclusive (hr : r.Reached) :
    (∀ name id id', r.Carries id name → r.Carries id' name → id = id') ∧
    (∀ name, r.session.issuer.isInFlight name = true ↔ ∃ id, r.Carries id name) ∧
    (∀ call m, Client.mutation? r.session call = some m → r.session.isAllowed m.permission = true →
      (∀ id, r.Carries id m.operation →
        (∃ reply, (r.act (.begin call)).1 = .progressed r.started (.returned reply) ∧
          reply.isAlreadyInFlight = true) ∧
        ∃ n, r.step (.begin call) = { r with session := r.session.skip n, started := r.started + 1 }) ∧
      ((∀ id, ¬ r.Carries id m.operation) →
        (r.step (.begin call)).Carries r.started m.operation ∨
        (∃ reply err, (r.act (.begin call)).1 = .progressed r.started (.returned reply) ∧
          reply.error? = some err ∧ err.category = .conflict) ∧
        ∃ n, r.step (.begin call) = { r with session := r.session.skip n, started := r.started + 1 })) ∧
    ∀ id name, r.Carries id name →
      (∀ arrival, (∃ reply, (r.act (.answer id arrival)).1 = .progressed id (.returned reply)) ∧
        (r.step (.answer id arrival)).session.issuer.isInFlight name = false) ∧
      (r.step (.abandon id)).session.issuer.isInFlight name = false ∧
      ∀ a, a.isClient = true → (∀ arrival, a ≠ .answer id arrival) → a ≠ .abandon id →
        (r.step a).Carries id name ∧ (r.step a).session.issuer.isInFlight name = true := by
  refine ⟨fun name id id' h h' => hr.carries_unique h h', hr.isInFlight_iff, fun call m hm hp => ?_,
    fun id name h => ⟨fun arrival => ?_, ?_, fun a ha hanswer habandon => ?_⟩⟩
  · exact ⟨fun id h => hr.turned_away hm hp h, fun hfree => hr.admitted hm hp hfree⟩
  · obtain ⟨hreply, hgone⟩ := hr.answered h arrival
    exact ⟨hreply, hr.freed h rfl rfl hgone⟩
  · exact hr.freed h rfl rfl h.dropped
  · have hcarries := hr.carries_step h hanswer habandon
    exact ⟨hcarries, ((hr.step ha).isInFlight_iff name).2 ⟨id, hcarries⟩⟩

def opening : Run := storeKeeping.step (.begin (.createStore ⟨"North", none⟩))

theorem opening_excludes_opening :
    opening.session.issuer.isInFlight "store-create" = true ∧
    (∃ reply, (opening.act (.begin (.createStore ⟨"South", none⟩))).1 = .progressed 1 (.returned reply) ∧
      reply.isAlreadyInFlight = true) ∧
    (opening.step (.answer 0 (.error .timeout))).session.issuer.isInFlight "store-create" = false ∧
    (opening.step (.abandon 0)).session.issuer.isInFlight "store-create" = false := by
  have hcarries : opening.Carries 0 "store-create" := ⟨_, _, _, rfl, rfl, rfl⟩
  obtain ⟨-, hmarked, hgates, hends⟩ := submissions_exclusive (storeKeeping_reached.step (a := .begin _) rfl)
  obtain ⟨hanswered, hdropped, -⟩ := hends 0 _ hcarries
  exact ⟨(hmarked _).2 ⟨0, hcarries⟩, ((hgates (.createStore ⟨"South", none⟩) _ rfl rfl).1 0 hcarries).1,
    (hanswered _).2, hdropped⟩

end Run
end BackOffice
