import BackOffice.Proofs.Marks
/-!
# Answers that come too late

A call remembers the context it was begun in.  Once the session has moved to another, the next end of
an exchange is the last for that call: it is cancelled, whatever the answer was, and what the session
has come to hold in the new context is left as it is (`Turn.sameHoldings_of_stale`).
-/
namespace BackOffice

/-- The error that a reply brings, if it brings one. -/
def Reply.error? : Reply → Option ApiError
  | .report (.error e) | .installed (.error e) | .stores (.error e) | .users (.error e)
  | .storeCreated (.error e) | .userCreated (.error e) | .policySaved (.error e) | .answered (.error e) => some e
  | _ => none

namespace Client

theorem submissionReply_error (trace : TraceId) (intent : Intent) (err : ApiError) :
    (submissionReply trace intent (.error err)).error? = some err := by
  cases intent <;> rfl

theorem settle_error (s : Session) (p : Purpose) (err : ApiError) : (settle s p (.error err)).1.error? = some err := by
  rcases p with _ | stamp | ⟨resource, stamp, key⟩ | ⟨m, tenant⟩ | _
  · rfl
  · rfl
  · cases resource <;> rfl
  · exact submissionReply_error _ m.intent err
  · rfl

/-- A failure leaves the permissions and the cache as they are, and where no attempt is kept under the
name of what failed, the attempts too. -/
theorem concluded_error (s : Session) (p : Purpose) (err : ApiError)
    (h : ∀ m tenant, p = .submit m tenant → s.issuer.attempt? m.operation = none) :
    (concluded s p (.error err)).permissions = s.permissions ∧ (concluded s p (.error err)).cache = s.cache ∧
      (concluded s p (.error err)).issuer.attempts = s.issuer.attempts := by
  rcases p with _ | stamp | ⟨resource, stamp, key⟩ | ⟨m, tenant⟩ | _
  · exact ⟨rfl, rfl, rfl⟩
  · exact ⟨rfl, rfl, rfl⟩
  · exact ⟨rfl, rfl, rfl⟩
  · have hadjust := Table.adjust_of_absent (h m tenant rfl) (fun a => { a with state := .failed })
    exact ⟨rfl, rfl, hadjust⟩
  · exact ⟨rfl, rfl, rfl⟩

end Client

namespace Run

variable {r : Run}

/-- What a call waits for carries the stamp of the moment the call began. -/
theorem stamped_after {call : Call} (hcall : ∀ request, call ≠ .send request) {acts : List Action}
    (hc : ∀ a ∈ acts, a.isClient = true) (hr : r.Orderly) {w : Waiting}
    (hw : ((r.step (.begin call)).after acts).ongoing.get? r.started = some w) :
    w.exchange.request.context = some ⟨Contexts.tenantKey, r.version⟩ := by
  have ht := act_turn r (show (Action.begin call).isClient = true from rfl)
  have hid : r.started < (r.step (.begin call)).started := Nat.lt_succ_self _
  obtain ⟨w₀, hw₀, hcont⟩ := continues_after hc hid hw
  rcases ht.waiting hw₀ with ⟨-, -, he, x, rfl, -⟩ | ⟨w₁, hw₁, -⟩
  · rw [he] at ht
    rcases ht.sent with ⟨-, call', ha, ho⟩ | ⟨ms, y, ha, -⟩
    · cases ha
      exact (congrArg Request.context hcont.1).trans (ho.stamped hcall)
    · cases ha
  · exact absurd (hr.numbered _ _ hw₁) (Nat.lt_irrefl _)

theorem not_sent_of_gone {acts : List Action} (hc : ∀ a ∈ acts, a.isClient = true) {id : Nat} (hid : id < r.started)
    (hgone : r.ongoing.get? id = none) (x : Exchange) : ¬ r.Sent acts id x := by
  rintro ⟨pre, a, post, rfl, he⟩
  have hpre : ∀ b ∈ pre, b.isClient = true := fun b hb => hc b (List.mem_append_left _ hb)
  have ht := act_turn (r.after pre) (hc a (List.mem_append_right _ List.mem_cons_self))
  rw [he] at ht
  rcases ht.sent with ⟨hnew, -⟩ | ⟨ms, y, -, hy, -⟩
  · have hle := started_le_after hpre r
    omega
  · rw [gone_after hpre hid hgone] at hy; cases hy

theorem Owned.attempt?_of_stale (ho : r.Owned) {id : Nat} {q : Request} {m : Mutation} {stamp : Stamp}
    (hq : r.submitting? id = some (q, m)) (hstamp : q.context = some stamp) (hne : stamp ≠ r.session.stamp) :
    r.session.issuer.attempt? m.operation = none := by
  cases hatt : r.session.issuer.attempt? m.operation with
  | none => rfl
  | some att =>
    obtain ⟨rfl, -⟩ := ho.own id q m att hq hatt
    exact absurd (Option.some.inj hstamp).symm hne

/-- What the session holds for its context: permissions, cached answers and attempts. -/
def SameHoldings (r r' : Run) : Prop :=
  r'.session.permissions = r.session.permissions ∧ r'.session.cache = r.session.cache ∧
    r'.session.issuer.attempts = r.session.issuer.attempts

/-- A turn of a call that waits in a context left behind. -/
theorem Turn.sameHoldings_of_stale {r' : Run} {a : Action} {e : Event} (h : Turn r a e r') (ho : r.Owned) {id : Nat}
    (ha : a.call? = some id) {stamp : Stamp} (hstale : r.session.isCurrent stamp = false)
    (hne : stamp ≠ r.session.stamp)
    (hstamp : ∀ w, r.ongoing.get? id = some w → w.exchange.request.context = some stamp) : r.SameHoldings r' := by
  cases h with
  | again i arrival x ms hx hv => exact ⟨rfl, rfl, rfl⟩
  | settled i arrival x result hx hv =>
    cases ha
    have hcancelled := hv.symm.trans (Client.verdict_of_stale r.config arrival (hstamp _ hx) hstale)
    cases hcancelled
    refine Client.concluded_error r.session x.purpose _ (fun m tenant hp => ?_)
    exact ho.attempt?_of_stale (submitting?_of_waiting hx hp) (hstamp _ hx) hne
  | resumed i ms x hx => exact ⟨rfl, rfl, rfl⟩
  | dropped i w hw =>
    unfold SameHoldings Client.abandon
    split <;> exact ⟨rfl, rfl, rfl⟩
  | ignored a i hi => exact ⟨rfl, rfl, rfl⟩
  | _ => cases ha

/-- **A call whose context has changed has no effect any more**: whatever turns it takes, what the
session holds stays as it is; and the first answer that comes, whatever it is, cancels the call, which
sends nothing from then on. -/
theorem stale_call_without_effect (hr : r.Reached) {call : Call} (hcall : ∀ request, call ≠ .send request)
    {acts : List Action} (hc : ∀ a ∈ acts, a.isClient = true) {subject : Subject} (hs : .switch subject ∈ acts) :
    let now := (r.step (.begin call)).after acts
    (∀ a, a.call? = some r.started → now.SameHoldings (now.step a)) ∧
    ∀ x arrival, now.ongoing.get? r.started = some (.answer x) →
      (∃ reply trace, (now.act (.answer r.started arrival)).1 = .progressed r.started (.returned reply) ∧
        reply.error? = some (.cancelled trace Contexts.tenantKey)) ∧
      ∀ since, (∀ a ∈ since, a.isClient = true) →
        ∀ y, ¬ (now.step (.answer r.started arrival)).Sent since r.started y := by
  intro now
  have hnow : now.Reached := hr.after (List.forall_mem_cons.2 ⟨show (Action.begin call).isClient = true from rfl, hc⟩)
  have hstamp : ∀ w, now.ongoing.get? r.started = some w →
      w.exchange.request.context = some ⟨Contexts.tenantKey, r.version⟩ :=
    fun w hw => stamped_after hcall hc hr.orderly hw
  have hbegun : r.version ≤ (r.step (.begin call)).version :=
    (act_turn r (show (Action.begin call).isClient = true from rfl)).version_le
  have hversion : r.version < now.version := Nat.lt_of_le_of_lt hbegun (version_lt_after hc hs)
  have hstale : now.session.isCurrent ⟨Contexts.tenantKey, r.version⟩ = false := by
    rw [Bool.eq_false_iff]
    exact fun h => absurd ((isCurrent_iff _ _).1 h) (Nat.ne_of_gt hversion)
  constructor
  · intro a ha
    have hclient : a.isClient = true := by cases a <;> first | rfl | cases ha
    refine (act_turn now hclient).sameHoldings_of_stale hnow.owned ha hstale (fun h => ?_) hstamp
    exact absurd (congrArg Stamp.version h) (Nat.ne_of_lt hversion)
  · intro x arrival hx
    have hact := act_of_settled hx (Client.verdict_of_stale now.config arrival (hstamp _ hx) hstale)
    have hid : r.started < now.started :=
      Nat.lt_of_lt_of_le (Nat.lt_succ_self _) (started_le_after hc (r.step (.begin call)))
    have hlater : now.step (.answer r.started arrival) = (now.act (.answer r.started arrival)).2 := rfl
    rw [hlater, hact]
    refine ⟨⟨_, _, rfl, Client.settle_error _ _ _⟩, fun since hsince y => ?_⟩
    refine not_sent_of_gone hsince ?_ ?_ y
    · exact hid
    · exact (Table.get?_erase _ _ _).trans (if_pos rfl)

/-- A session that may open stores. -/
def storeKeeping : Run :=
  (start .standard (.ofUser ⟨.ofNat 1⟩ ⟨.ofNat 2⟩ ⟨"manager"⟩) (.ofMillis 0)).after
    [.grant (.ofPairs [(Permission.createStores, true)])]

theorem storeKeeping_reached : storeKeeping.Reached := ⟨_, _, _, _, by simp [Action.isClient], rfl⟩

theorem opening_cancelled_after_switch :
    ∃ reply trace, (((storeKeeping.step (.begin (.createStore ⟨"North", none⟩))).after
        [.switch (.ofUser ⟨.ofNat 1⟩ ⟨.ofNat 3⟩ ⟨"manager"⟩)]).act (.answer 0 (.ok (.make 201 "")))).1 =
      .progressed 0 (.returned reply) ∧ reply.error? = some (.cancelled trace Contexts.tenantKey) := by
  have hcall : ∀ request, Call.createStore ⟨"North", none⟩ ≠ .send request := fun _ h => by cases h
  have hclient : ∀ a ∈ [Action.switch (.ofUser ⟨.ofNat 1⟩ ⟨.ofNat 3⟩ ⟨"manager"⟩)], a.isClient = true := by
    simp [Action.isClient]
  have hlate := (stale_call_without_effect storeKeeping_reached hcall hclient List.mem_cons_self).2
  exact (hlate _ (.ok (.make 201 "")) rfl).1

end Run
end BackOffice
