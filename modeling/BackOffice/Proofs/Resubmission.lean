import BackOffice.Proofs.Exclusion
import BackOffice.Proofs.Isolation
import BackOffice.Proofs.Keys
/-!
# Errors after a request was sent

A submission that was sent may end with an error in one of two ways.  Where no success was read the attempt
is kept, and the same call made again sends the same request.  Where a success was read and its body is not
the record that was to be created, the attempt has been completed before the body is decoded: the call fails
and its keys are gone (`error_keeps_key_iff`).

What comes between the sending and the answer, and between the error and the next call, leaves the attempt
alone: nothing touches it but a switch, its cancellation, and submissions under its name
(`Turn.attempt_eq`), and of those there is one before the answer and none after it.
-/
namespace BackOffice

/-- A body that reads as the record that was to be created; the answer to a policy edit is not decoded. -/
def Intent.Reads : Intent → Json → Prop
  | .createStore, body => ∃ store, Store.decoder.value body = some store
  | .createUser, body  => ∃ user, User.decoder.value body = some user
  | .savePolicy _, _   => True

/-- An answer that is a success with a body in JSON, which is not the record that was to be created. -/
def Mutation.Misreads (m : Mutation) (arrival : Arrival) : Prop := ∃ body, arrival.Yields body ∧ ¬ m.intent.Reads body

namespace Client

theorem reads_of_completed {trace : TraceId} {intent : Intent} {body : Json} :
    (submissionReply trace intent (.ok (.completed body))).error? = none ↔ intent.Reads body := by
  cases intent with
  | createStore =>
    simp only [submissionReply, decodeSubmission, Intent.Reads]
    cases Store.decoder.value body <;> simp [Reply.error?]
  | createUser =>
    simp only [submissionReply, decodeSubmission, Intent.Reads]
    cases User.decoder.value body <;> simp [Reply.error?]
  | savePolicy preview => exact iff_of_true rfl trivial

theorem Opening.of_mutation {s s' : Session} {call : Call} {m : Mutation} {x : Exchange}
    (hm : mutation? s call = some m) (h : Opening s call (.waiting (.answer x)) s') :
    ∃ att n, x = submission s m att.keys ∧ s' = (holding s m att).skip n ∧
      att.fingerprint = some (fingerprint m.payload) := by
  cases h with
  | listed resource hc miss => subst hc; cases hm
  | asked purpose hc => rcases hc with ⟨rfl, -⟩ | ⟨rfl, -⟩ <;> cases hm
  | sent request hc => subst hc; cases hm
  | submitted m' att n hm' hp hf hb =>
    rw [hm] at hm'
    cases hm'
    exact ⟨att, n + 3, rfl, rfl, (Issuer.binding?_cases hb).1⟩

end Client

namespace Run

variable {r r' : Run} {a : Action} {e : Event} {name : String}

/-! ## What leaves an attempt alone -/

/-- Where the submissions under a name are the same before and after, and its attempt is not cancelled, the
attempt is the same. -/
theorem Turn.attempt_eq (h : Turn r a e r') (hr : r.Orderly) (hswitch : ∀ subject, a ≠ .switch subject)
    (hcancel : a ≠ .cancel name)
    (hsame : ∀ id q m, m.operation = name → (r'.submitting? id = some (q, m) ↔ r.submitting? id = some (q, m))) :
    r'.session.issuer.attempt? name = r.session.issuer.attempt? name ∧ r'.session.stamp = r.session.stamp := by
  -- a submission that ends here is not one under the name
  have hends : ∀ {id : Nat} {q : Request} {m : Mutation}, r.submitting? id = some (q, m) →
      (∀ i, r'.submitting? i = if i = id then none else r.submitting? i) → name ≠ m.operation := by
    rintro id q m hq hs rfl
    have hstill := (hsame id q m rfl).2 hq
    rw [hs, if_pos rfl] at hstill; cases hstill
  cases h.deals hr with
  | quiet a r' hi hst hs => exact ⟨by rw [hi], hst⟩
  | opened call m att n r' hm hp hf hb hn hs =>
    have hne : m.operation ≠ name := by
      rintro rfl
      have hbefore := (hsame r.started _ m rfl).1 ((hs r.started).trans (if_pos rfl))
      unfold submitting? at hbefore
      rw [hr.fresh] at hbefore; cases hbefore
    rw [hn, Client.attempt?_holding, if_neg hne]
    exact ⟨rfl, rfl⟩
  | completed a id q m tenant r' hq hc hi hst hs =>
    rw [hi, Issuer.attempt?_finish, Issuer.attempt?_complete, if_neg (hends hq hs)]
    exact ⟨rfl, hst⟩
  | failed id arrival q m r' hq hi hst hs =>
    rw [hi, Issuer.attempt?_finish, Issuer.attempt?_markFailed, if_neg (hends hq hs)]
    exact ⟨rfl, hst⟩
  | dropped id q m r' hq hi hst hs =>
    rw [hi, Issuer.attempt?_finish]
    exact ⟨rfl, hst⟩
  | switched subject r' hi hs => exact absurd rfl (hswitch subject)
  | cancelled operation r' hi hst hs =>
    have hne : name ≠ operation := by
      rintro rfl
      exact hcancel rfl
    rw [hi, Issuer.attempt?_cancel, if_neg hne]
    exact ⟨rfl, hst⟩

/-- All through these actions the submissions under a name are those that there were at first. -/
def SubmitsTheSame (r : Run) (name : String) (acts : List Action) : Prop :=
  ∀ pre post, acts = pre ++ post → ∀ id q m, m.operation = name →
    ((r.after pre).submitting? id = some (q, m) ↔ r.submitting? id = some (q, m))

theorem attempt_after : ∀ {acts : List Action} {r : Run}, (∀ a ∈ acts, a.isClient = true) → r.Orderly →
    (∀ subject, .switch subject ∉ acts) → .cancel name ∉ acts → r.SubmitsTheSame name acts →
    (r.after acts).session.issuer.attempt? name = r.session.issuer.attempt? name ∧
      (r.after acts).session.stamp = r.session.stamp
  | [], _, _, _, _, _, _ => ⟨rfl, rfl⟩
  | a :: acts, r, hc, hr, hswitch, hcancel, hsame => by
    obtain ⟨ha, hacts⟩ := List.forall_mem_cons.1 hc
    have hturn := act_turn r ha
    have hfirst : ∀ id q m, m.operation = name →
        ((r.step a).submitting? id = some (q, m) ↔ r.submitting? id = some (q, m)) := hsame [a] acts rfl
    obtain ⟨hatt, hst⟩ := hturn.attempt_eq hr (fun subject h => hswitch subject (h ▸ List.mem_cons_self))
      (fun h => hcancel (h ▸ List.mem_cons_self)) hfirst
    have hlater : (r.step a).SubmitsTheSame name acts := by
      rintro pre post rfl id q m hname
      exact (hsame (a :: pre) post rfl id q m hname).trans (hfirst id q m hname).symm
    obtain ⟨hatt', hst'⟩ := attempt_after hacts (hturn.orderly hr)
      (fun subject h => hswitch subject (List.mem_cons_of_mem _ h)) (fun h => hcancel (List.mem_cons_of_mem _ h)) hlater
    exact ⟨hatt'.trans hatt, hst'.trans hst⟩

theorem Owned.submitting_iff (ho : r.Owned) {id id' : Nat} {q q' : Request} {m m' : Mutation}
    (h : r.submitting? id = some (q, m)) (hname : m'.operation = m.operation) :
    r.submitting? id' = some (q', m') ↔ id' = id ∧ q' = q ∧ m' = m := by
  constructor
  · intro h'
    obtain rfl := ho.sole _ _ _ _ _ _ h' h hname
    rw [h] at h'
    cases h'
    exact ⟨rfl, rfl, rfl⟩
  · rintro ⟨rfl, rfl, rfl⟩
    exact h

/-- What is in the transport at last was there all the time, and so no other was submitted under its name. -/
theorem submitsTheSame_of_waiting (hr : r.Reached) {id : Nat} {x : Exchange} {m : Mutation} {tenant : TenantId}
    (hx : r.ongoing.get? id = some (.answer x)) (hp : x.purpose = .submit m tenant) {acts : List Action}
    (hc : ∀ a ∈ acts, a.isClient = true) {w : Waiting} (hw : (r.after acts).ongoing.get? id = some w) :
    r.SubmitsTheSame m.operation acts := by
  rintro pre post rfl id' q' m' hname
  obtain ⟨hpre, hpost⟩ := List.forall_mem_append.1 hc
  have hid := hr.orderly.numbered id _ hx
  rw [after_append] at hw
  obtain ⟨w₁, hw₁, -⟩ := continues_after hpost (Nat.lt_of_lt_of_le hid (started_le_after hpre r)) hw
  obtain ⟨w₀, hw₀, hrequest, hpurpose, -⟩ := continues_after hpre hid hw₁
  rw [hx] at hw₀
  cases hw₀
  have hsubmit : w₁.exchange.purpose = .submit m tenant := hpurpose.trans hp
  have hthen : (r.after pre).submitting? id = some (w₁.exchange.request, m) := by
    unfold submitting?
    rw [hw₁]
    simp only [Option.bind_some, Exchange.submits?, hsubmit]
  rw [show w₁.exchange.request = x.request from hrequest] at hthen
  rw [(hr.after hpre).owned.submitting_iff hthen hname,
    hr.owned.submitting_iff (submitting?_of_waiting hx hp) hname]

/-- No request for an operation is handed to the transport in these actions. -/
def Spares (r : Run) (name : String) (acts : List Action) : Prop :=
  ∀ id y, r.Sent acts id y → y.operation? ≠ some name

theorem Spares.unmarked (hr : r.Reached) (hfree : r.session.issuer.isInFlight name = false) {pre post : List Action}
    (hc : ∀ a ∈ pre, a.isClient = true) (h : r.Spares name (pre ++ post)) :
    (r.after pre).session.issuer.isInFlight name = false := by
  refine Bool.eq_false_iff.2 fun hmark => ?_
  obtain ⟨id, y, m, tenant, hy, hp, hname⟩ := ((hr.after hc).isInFlight_iff name).1 hmark
  rcases sent_of_waiting hc hy with hold | hsent
  · rw [(hr.isInFlight_iff name).2 ⟨id, y, m, tenant, hold, hp, hname⟩] at hfree
    cases hfree
  · refine h id y (hsent.append post) ?_
    unfold Exchange.operation? Exchange.submits?
    rw [hp]
    exact congrArg some hname

theorem Spares.submitsTheSame (hr : r.Reached) (hfree : r.session.issuer.isInFlight name = false) {acts : List Action}
    (hc : ∀ a ∈ acts, a.isClient = true) (h : r.Spares name acts) : r.SubmitsTheSame name acts := by
  rintro pre post rfl id q m hname
  obtain ⟨hpre, -⟩ := List.forall_mem_append.1 hc
  have hnone : ∀ {r : Run}, r.Owned → r.session.issuer.isInFlight name = false → r.submitting? id ≠ some (q, m) := by
    intro r ho hf hq
    rw [(ho.marked name).2 ⟨id, q, m, hq, hname⟩] at hf
    cases hf
  exact iff_of_false (hnone (hr.after hpre).owned (h.unmarked hr hfree hpre)) (hnone hr.owned hfree)

theorem Spares.leaves_alone (hr : r.Reached) (hfree : r.session.issuer.isInFlight name = false) {acts : List Action}
    (h : r.Spares name acts) (hc : ∀ a ∈ acts, a.isClient = true) (hswitch : ∀ subject, .switch subject ∉ acts)
    (hcancel : .cancel name ∉ acts) :
    (r.after acts).session.issuer.attempt? name = r.session.issuer.attempt? name ∧
      (r.after acts).session.stamp = r.session.stamp ∧ (r.after acts).session.issuer.isInFlight name = false := by
  obtain ⟨hattempt, hstamp⟩ := attempt_after hc hr.orderly hswitch hcancel (h.submitsTheSame hr hfree hc)
  have hall : r.Spares name (acts ++ []) := by rwa [List.append_nil]
  exact ⟨hattempt, hstamp, hall.unmarked hr hfree hc⟩

/-! ## The request, its error, and the next request -/

theorem kept_of_sent {call : Call} {m : Mutation} {x : Exchange} (hm : Client.mutation? r.session call = some m)
    (hsent : (r.act (.begin call)).1 = .progressed r.started (.waiting (.answer x))) :
    (r.step (.begin call)).ongoing.get? r.started = some (.answer x) ∧ x.purpose = .submit m r.session.subject.tenant ∧
    (r.step (.begin call)).session.stamp = r.session.stamp ∧
    ∃ att, (r.step (.begin call)).session.issuer.attempt? m.operation = some att ∧
      x.request = Client.mutationRequest m att.keys r.session.stamp ∧
      att.fingerprint = some (fingerprint m.payload) := by
  have hturn := act_turn r (show (Action.begin call).isClient = true from rfl)
  rw [hsent] at hturn
  have hopening := Client.start_opening r.session call
  rw [act_begin] at hsent
  injection hsent with _ hstart
  rw [hstart] at hopening
  obtain ⟨att, n, rfl, hsession, hprint⟩ := Client.Opening.of_mutation hm hopening
  refine ⟨hturn.waiting_of_event, rfl, ?_, att, ?_, rfl, hprint⟩
  · rw [step_begin_session, hsession, Client.stamp_holding]
  · rw [step_begin_session, hsession, Client.attempt?_holding, if_pos rfl]

theorem sent_of_gone {call : Call} {m : Mutation} (hm : Client.mutation? r.session call = some m)
    (hp : r.session.isAllowed m.permission = true) (hf : r.session.issuer.isInFlight m.operation = false)
    (hnone : r.session.issuer.attempt? m.operation = none) :
    ∃ y, (r.act (.begin call)).1 = .progressed r.started (.waiting (.answer y)) := by
  obtain ⟨n, hstart⟩ := Client.start_of_gated hm hp hf
  have hbind : ∀ fresh payload, ∃ att, r.session.issuer.binding? fresh m.operation payload = some att := by
    intro fresh payload
    unfold Issuer.binding?
    rw [hnone]
    exact ⟨_, rfl⟩
  obtain ⟨att, hatt⟩ := hbind (r.session.skip n).nextKeys m.payload
  rw [hatt] at hstart
  exact ⟨Client.submission r.session m att.keys, by rw [act_begin, hstart]⟩

/-- **How a submission that was sent can end**, as long as its context stands: with a success, which completes
its attempt, and with an error otherwise, which keeps it. -/
theorem ended_cases {id : Nat} {y : Exchange} {m : Mutation} {tenant : TenantId}
    (hy : r.ongoing.get? id = some (.answer y)) (hp : y.purpose = .submit m tenant)
    (hcontext : y.request.context = some r.session.stamp) {arrival : Arrival} {reply : Reply}
    (hreply : (r.act (.answer id arrival)).1 = .progressed id (.returned reply)) :
    (∃ body, arrival.Yields body ∧ (reply.error? = none ↔ m.intent.Reads body) ∧
      (r.step (.answer id arrival)).session.issuer.attempt? m.operation = none) ∨
    (∀ body, ¬ arrival.Yields body) ∧ ∀ att, r.session.issuer.attempt? m.operation = some att →
      (r.step (.answer id arrival)).session.issuer.attempt? m.operation = some { att with state := .failed } := by
  have hcurrent : r.session.isInContext y.request = true := by
    unfold Session.isInContext
    rw [hcontext]
    exact (isCurrent_iff r r.version).2 rfl
  have hverdict := Client.verdict_of_current r.config arrival hcurrent
  cases hv : Client.verdict r.config r.session y arrival with
  | again ms =>
    rw [act_of_again hy hv] at hreply
    cases hreply
  | settled result =>
    rw [act_of_settled hy hv] at hreply
    cases hreply
    rw [hv] at hverdict
    cases result with
    | ok answer =>
      have hread := Client.read_of_success hv
      refine .inl ⟨answer.body, Arrival.yields_of_read hread, ?_, ?_⟩
      · rw [hp]
        exact Client.reads_of_completed
      · exact Completes.attempt? ⟨id, arrival, y, answer, rfl, hy, hp, hv⟩
    | error err =>
      refine .inr ⟨fun body hyields => ?_, fun att hatt => ?_⟩
      · obtain ⟨answer, hread, -⟩ := Arrival.read_of_yields hyields r.session.mint.peek
        rw [hread] at hverdict
        cases hverdict
      · have hissuer : (r.step (.answer id arrival)).session.issuer =
            (r.session.issuer.markFailed m.operation).finish m.operation := by
          unfold step
          rw [act_of_settled hy hv]
          exact (Client.concluded_issuer r.session y.purpose (.error err)).trans (by rw [hp])
        rw [hissuer, Issuer.attempt?_finish, Issuer.attempt?_markFailed, if_pos rfl, hatt]
        rfl

/-- Where the attempt of a submission is gone, nothing that is sent has its key. -/
theorem fresh_of_gone (hr : r.Reached) {keys : AttemptKeys} (hminted : r.session.Minted name keys)
    (hgone : r.session.issuer.attempt? name = none) {since : List Action} (hc : ∀ a ∈ since, a.isClient = true)
    {call : Call} {m : Mutation} (hm : Client.mutation? (r.after since).session call = some m)
    (hd : ((r.after since).step (.begin call)).session.mint.Distinct) {y : Exchange}
    (hy : ((r.after since).act (.begin call)).1 = .progressed (r.after since).started (.waiting (.answer y))) :
    y.request.header? Request.idempotencyHeader ≠ some keys.idempotencyKey := by
  intro hkey
  obtain ⟨hplain, hmethod⟩ : (Action.begin call).isPlain = true ∧ m.method.isMutating = true := by
    rcases Client.mutation?_cases hm with ⟨store, rfl, rfl⟩ | ⟨user, rfl, rfl⟩ | ⟨user, before, after, confirmed, rfl, -, rfl⟩
    · exact ⟨rfl, rfl⟩
    · exact ⟨rfl, rfl⟩
    · exact ⟨rfl, rfl⟩
  obtain ⟨-, -, -, att, -, hrequest, -⟩ := kept_of_sent hm hy
  have hmutating : y.request.isMutation = true := by
    rw [hrequest]
    exact hmethod
  have htied : r.Tied name keys (fun _ => False) := by
    intro att hatt _
    rw [hgone] at hatt; cases hatt
  obtain ⟨-, -, -, -, -, -, hfalse⟩ := SendsUnder.later hr hminted htied hc hplain hd
    ⟨congrArg Event.sent? hy, hmutating, hkey⟩
  exact hfalse

/-- The answer to a submission finds its attempt as it was when it was sent, if the context has not been left
and the attempt not been cancelled. -/
theorem held_at_answer (hr : r.Reached) {call : Call} {m : Mutation} {x : Exchange}
    (hm : Client.mutation? r.session call = some m)
    (hsent : (r.act (.begin call)).1 = .progressed r.started (.waiting (.answer x))) {mid : List Action}
    (hc : ∀ a ∈ mid, a.isClient = true) (hswitch : ∀ subject, .switch subject ∉ mid) (hcancel : .cancel m.operation ∉ mid)
    {arrival : Arrival} {reply : Reply}
    (hreply : (((r.step (.begin call)).after mid).act (.answer r.started arrival)).1 =
      .progressed r.started (.returned reply)) :
    let now := (r.step (.begin call)).after mid
    now.session.stamp = r.session.stamp ∧
    (∃ y tenant, now.ongoing.get? r.started = some (.answer y) ∧ y.purpose = .submit m tenant ∧
      y.request.context = some now.session.stamp) ∧
    ∃ att, now.session.issuer.attempt? m.operation = some att ∧
      x.request = Client.mutationRequest m att.keys r.session.stamp ∧ att.fingerprint = some (fingerprint m.payload) := by
  intro now
  have hr₁ := hr.step (a := .begin call) rfl
  obtain ⟨hx, hp, hstamp, att, hatt, hrequest, hprint⟩ := kept_of_sent hm hsent
  have hid : r.started < (r.step (.begin call)).started := Nat.lt_succ_self _
  have hturn := act_turn now (a := .answer r.started arrival) rfl
  rw [hreply] at hturn
  obtain ⟨y, hy⟩ : ∃ y, now.ongoing.get? r.started = some (.answer y) := by
    rcases hturn.returned with hnew | ⟨arrival', y, result, he, hy, -⟩
    · have hle : (r.step (.begin call)).started ≤ now.started := started_le_after hc _
      omega
    · exact ⟨y, hy⟩
  obtain ⟨w, hw, hsame, hpurpose, -⟩ := continues_after hc hid hy
  rw [hx] at hw
  cases hw
  -- the call was waiting all the while, so no other submission came or went under its name
  obtain ⟨hattempt, hcontext⟩ := attempt_after hc hr₁.orderly hswitch hcancel
    (submitsTheSame_of_waiting hr₁ hx hp hc hy)
  refine ⟨hcontext.trans hstamp, ⟨y, _, hy, hpurpose.trans hp, ?_⟩, att, hattempt.trans hatt, hrequest, hprint⟩
  rw [show y.request = x.request from hsame, hrequest, hcontext, hstamp]
  rfl

/-- **An error costs the key exactly where a success was misread.**  A mutation was sent, and its call returns
an error; in between the context was not left and the attempt not cancelled.  The attempt is then kept, under
the keys that were sent, unless the answer was a success in JSON that is not the record to be created.  And as
long as the context is not left, the attempt not cancelled and nothing sent for the operation, the next call
that is permitted and asks for the same sends the request as it was, in the first case, and in the second
under another key. -/
theorem error_keeps_key_iff (hr : r.Reached) {call : Call} {m : Mutation} {x : Exchange}
    (hm : Client.mutation? r.session call = some m)
    (hsent : (r.act (.begin call)).1 = .progressed r.started (.waiting (.answer x))) {mid : List Action}
    (hc : ∀ a ∈ mid, a.isClient = true) (hswitch : ∀ subject, .switch subject ∉ mid) (hcancel : .cancel m.operation ∉ mid)
    {arrival : Arrival} {reply : Reply} {err : ApiError}
    (hreply : (((r.step (.begin call)).after mid).act (.answer r.started arrival)).1 =
      .progressed r.started (.returned reply))
    (herr : reply.error? = some err) :
    let failed := ((r.step (.begin call)).after mid).step (.answer r.started arrival)
    ((∃ att, failed.session.issuer.attempt? m.operation = some att ∧
      x.request = Client.mutationRequest m att.keys r.session.stamp) ↔ ¬ m.Misreads arrival) ∧
    ∀ since call' m', (∀ a ∈ since, a.isClient = true) → (∀ subject, .switch subject ∉ since) →
      .cancel m.operation ∉ since → failed.Spares m.operation since →
      let now := failed.after since
      Client.mutation? now.session call' = some m' → m'.operation = m.operation → m.SameRequest m' →
      now.session.isAllowed m'.permission = true →
      ∃ y, (now.act (.begin call')).1 = .progressed now.started (.waiting (.answer y)) ∧
        (¬ m.Misreads arrival → y.request = x.request) ∧
        (m.Misreads arrival → (now.step (.begin call')).session.mint.Distinct →
          y.request.header? Request.idempotencyHeader ≠ x.request.header? Request.idempotencyHeader) := by
  intro failed
  obtain ⟨hstamp, ⟨y, tenant, hy, hp, hcontext⟩, att, hatt, hrequest, hprint⟩ :=
    held_at_answer hr hm hsent hc hswitch hcancel hreply
  have hr₂ := (hr.step (a := .begin call) rfl).after hc
  have hr₃ : failed.Reached := hr₂.step (a := .answer r.started arrival) rfl
  have hcarries : ((r.step (.begin call)).after mid).Carries r.started m.operation := ⟨y, m, tenant, hy, hp, rfl⟩
  have hfree : failed.session.issuer.isInFlight m.operation = false :=
    hr₂.freed hcarries rfl rfl (hr₂.answered hcarries arrival).2
  rcases ended_cases hy hp hcontext hreply with ⟨body, hyields, hreads, hgone⟩ | ⟨hnone, hkept⟩
  · have hmisreads : m.Misreads arrival := by
      refine ⟨body, hyields, fun h => ?_⟩
      rw [hreads.2 h] at herr; cases herr
    constructor
    · refine iff_of_false ?_ (fun h => h hmisreads)
      rintro ⟨att', hatt', -⟩
      exact Option.some_ne_none att' (hatt'.symm.trans hgone)
    · intro since call' m' hsince hswitch' hcancel' hspares now hm' hname hsame hallowed
      obtain ⟨hattempt, -, hfree'⟩ := hspares.leaves_alone hr₃ hfree hsince hswitch' hcancel'
      obtain ⟨z, hz⟩ := sent_of_gone hm' hallowed (hname ▸ hfree') (by rw [hname]; exact hattempt.trans hgone)
      refine ⟨z, hz, fun h => absurd hmisreads h, fun _ hd => ?_⟩
      have hmint := (act_turn ((r.step (.begin call)).after mid) (a := .answer r.started arrival) rfl).mint
      rw [hrequest, Client.header?_mutationRequest]
      exact fresh_of_gone hr₃ ((hr₂.attemptsMinted _ _ hatt).mono hmint.1 hmint.2) hgone hsince hm' hd hz
  · have hnot : ¬ m.Misreads arrival := fun ⟨body, hyields, _⟩ => hnone body hyields
    have hatt' := hkept att hatt
    constructor
    · exact iff_of_true ⟨_, hatt', hrequest⟩ hnot
    · intro since call' m' hsince hswitch' hcancel' hspares now hm' hname hsame hallowed
      obtain ⟨hattempt, hstamp', hfree'⟩ := hspares.leaves_alone hr₃ hfree hsince hswitch' hcancel'
      obtain ⟨z, hz, hagain⟩ := sent_of_kept (m := m) (hattempt.trans hatt') hprint hm' hname hsame hallowed hfree'
      refine ⟨z, hz, fun _ => ?_, fun h => absurd h hnot⟩
      have hfailed := (context_step (r := (r.step (.begin call)).after mid) (a := .answer r.started arrival) rfl
        (fun _ e => by cases e)).2
      rw [hagain, hrequest, show now.session.stamp = r.session.stamp from hstamp'.trans (hfailed.trans hstamp)]

def openNorth : Action := .begin (.createStore ⟨"North", none⟩)

/-- The server refuses, and the store is asked for again as it was. -/
theorem refused_opening_repeated :
    ∃ x y, (storeKeeping.act openNorth).1 = .progressed 0 (.waiting (.answer x)) ∧
      ((storeKeeping.after [openNorth, .answer 0 (.ok (.make 503 ""))]).act openNorth).1 =
        .progressed 1 (.waiting (.answer y)) ∧ y.request = x.request := by
  have hm : Client.mutation? storeKeeping.session (.createStore ⟨"North", none⟩) = some _ := rfl
  have hnot : ¬ (Client.storeMutation storeKeeping.session ⟨"North", none⟩).Misreads (.ok (.make 503 "")) := by
    rintro ⟨body, ⟨raw, hraw, hsuccess, -⟩, -⟩
    cases hraw
    cases hsuccess
  have hnone : ∀ a ∈ ([] : List Action), a.isClient = true := fun a ha => absurd ha List.not_mem_nil
  have hreply : (((storeKeeping.step openNorth).after []).act (.answer 0 (.ok (.make 503 "")))).1 =
      .progressed 0 (.returned _) := rfl
  have hspares : (storeKeeping.after [openNorth, .answer 0 (.ok (.make 503 ""))]).Spares "store-create" [] := by
    rintro id y ⟨pre, a, post, he, -⟩
    exact absurd he (by simp)
  obtain ⟨-, hnext⟩ := error_keeps_key_iff storeKeeping_reached hm rfl hnone (by simp) (by simp) hreply rfl
  obtain ⟨y, hy, hsame, -⟩ := hnext [] (.createStore ⟨"North", none⟩) _ (by simp) (by simp) (by simp) hspares rfl rfl
    ⟨rfl, rfl, rfl⟩ rfl
  exact ⟨_, y, rfl, hy, hsame hnot⟩

/-- **A misread success costs the key**: the server says that the store is there, what it sends is no store,
and the store is asked for once more under another key. -/
theorem misread_success_costs_key :
    ∃ x reply err y, (storeKeeping.act openNorth).1 = .progressed 0 (.waiting (.answer x)) ∧
      ((storeKeeping.step openNorth).act (.answer 0 (.ok (.make 201 "{}")))).1 = .progressed 0 (.returned reply) ∧
      reply.error? = some err ∧
      let failed := storeKeeping.after [openNorth, .answer 0 (.ok (.make 201 "{}"))]
      failed.session.issuer.attempt? "store-create" = none ∧
      (failed.act openNorth).1 = .progressed 1 (.waiting (.answer y)) ∧
      y.request.header? Request.idempotencyHeader ≠ x.request.header? Request.idempotencyHeader := by
  refine ⟨_, _, _, _, rfl, rfl, rfl, rfl, rfl, ?_⟩
  decide +kernel

end Run
end BackOffice
