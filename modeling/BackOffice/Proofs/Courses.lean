import BackOffice.Proofs.Plays
/-!
# The course of a call

What a request comes to with an arrival is told by how the exchange ended alone (`Client.verdict_eq`): a
failure on the wire may pass (`Arrival.mayPass`), and then a read is sent again after a pause, while attempts
are left and its context still stands.  So a call in a rehearsal returns in its first turn, or it runs its
course (`Course`) whatever other calls do meanwhile, unless a deadline around it cuts it off (`ran`).  It
follows that no step, however deep others are nested in it, touches what it has not begun itself
(`Keeps.takeStep`).
-/
namespace BackOffice

/-! ## Failures that may pass -/

/-- What may be different another time: a failure on the wire, a timeout, or a status of 500 or more. -/
def Arrival.mayPass : Arrival → Bool
  | .error _ => true
  | .ok raw  => decide (500 ≤ raw.status)

theorem Category.mem_of_ofWords {rules : List (List String × Category)} {text : String} {c : Category} :
    ofWords rules text = some c → c ∈ rules.map Prod.snd := by
  induction rules with
  | nil => intro h; cases h
  | cons rule rules ih =>
    intro h
    unfold ofWords at h
    split at h
    · cases h; exact List.mem_cons_self
    · exact List.mem_cons_of_mem _ (ih h)

theorem Category.classify_ne_cancelled (status : Option Nat) (code : Option String) (message : String) :
    classify status code message ≠ .cancelled := by
  have hstatus : ∀ n, ofStatus n ≠ some .cancelled := by
    intro n
    unfold ofStatus
    (repeat' split) <;> simp
  have hcode : ∀ text, ofWords codeRules text ≠ some .cancelled := fun text h =>
    absurd (mem_of_ofWords h) (by decide)
  have hmessage : ∀ text, ofWords messageRules text ≠ some .cancelled := fun text h =>
    absurd (mem_of_ofWords h) (by decide)
  intro h
  unfold classify at h
  have hfiled := (Option.getD_eq_iff.1 h).resolve_right fun hnone => by cases hnone.2
  rcases Option.or_eq_some_iff.1 hfiled with hs | ⟨-, hrest⟩
  · obtain ⟨n, -, hn⟩ := Option.bind_eq_some_iff.1 hs
    exact hstatus n hn
  · rcases Option.or_eq_some_iff.1 hrest with hc | ⟨-, hm⟩
    · obtain ⟨text, -, htext⟩ := Option.bind_eq_some_iff.1 hc
      exact hcode text htext
    · exact hmessage message hm

theorem ApiError.isRetryable_of_status {err : ApiError} {n : Nat} (hc : err.category ≠ .cancelled)
    (hn : err.status = some n) : err.isRetryable = decide (500 ≤ n) := by
  unfold isRetryable failureKind
  rw [hn]
  cases hcategory : err.category <;> first | exact absurd hcategory hc | skip
  all_goals
    simp only
    by_cases h : 500 ≤ n
    · simp [h]
    · simp [h]

theorem ApiError.ofResponse_filed (fresh : Uuid) (raw : RawResponse) :
    (ofResponse fresh raw).category ≠ .cancelled ∧ (ofResponse fresh raw).status = some raw.status := by
  unfold ofResponse
  split <;> exact ⟨Category.classify_ne_cancelled _ _ _, rfl⟩

namespace Arrival

theorem mayPass_of_isSuccess {raw : RawResponse} (h : raw.isSuccess = true) : mayPass (.ok raw) = false := by
  simp only [RawResponse.isSuccess, Bool.and_eq_true, decide_eq_true_eq] at h
  simp only [mayPass, decide_eq_false_iff_not]
  omega

/-- **Whether an error may be retried is told by how the exchange ended alone.** -/
theorem isRetryable_of_read {fresh : Uuid} {arrival : Arrival} {err : ApiError} (h : arrival.read fresh = .error err) :
    err.isRetryable = arrival.mayPass := by
  unfold read at h
  cases arrival with
  | error failure =>
    cases h
    cases failure <;> rfl
  | ok raw =>
    simp only at h
    split at h
    · rename_i hsuccess
      rw [mayPass_of_isSuccess hsuccess]
      -- what was answered was a success, but no JSON
      unfold Answer.ofRaw at h
      simp only at h
      split at h
      · cases h; rfl
      · cases h
    · cases h
      obtain ⟨hcategory, hstatus⟩ := ApiError.ofResponse_filed fresh raw
      exact ApiError.isRetryable_of_status hcategory hstatus

theorem mayPass_of_success {fresh : Uuid} {arrival : Arrival} {a : Answer} (h : arrival.read fresh = .ok a) :
    arrival.mayPass = false := by
  unfold read at h
  cases arrival with
  | error failure => cases h
  | ok raw =>
    simp only at h
    split at h
    · rename_i hsuccess; exact mayPass_of_isSuccess hsuccess
    · cases h

end Arrival

/-- What a request comes to with this arrival: it is cancelled if its context has been left, and otherwise the
arrival is read. -/
def Session.receive (s : Session) (request : Request) (arrival : Arrival) : Except ApiError Answer :=
  match request.context with
  | some stamp =>
    if s.isCurrent stamp then arrival.read s.mint.peek else .error (.cancelled (.minted s.mint.peek) stamp.key)
  | none => arrival.read s.mint.peek

theorem Session.receive_of_inContext {s : Session} {request : Request} (h : s.isInContext request = true)
    (arrival : Arrival) : s.receive request arrival = arrival.read s.mint.peek := by
  unfold isInContext at h
  unfold receive
  split
  · rename_i stamp hstamp
    rw [hstamp] at h
    exact if_pos h
  · rfl

theorem Config.attemptsFor_le (c : Config) (request : Request) : c.attemptsFor request ≤ max c.maxAttempts 1 := by
  unfold attemptsFor
  split
  · exact Nat.le_refl _
  · exact Nat.le_max_right _ _

theorem Config.one_le_attemptsFor (c : Config) (request : Request) : 1 ≤ c.attemptsFor request := by
  unfold attemptsFor
  split
  · exact Nat.le_max_right _ _
  · exact Nat.le_refl _

/-- **When a request is sent again, and what it comes to otherwise.** -/
theorem Client.verdict_eq (c : Config) (s : Session) (x : Exchange) (arrival : Arrival) :
    verdict c s x arrival =
      if (s.isInContext x.request && arrival.mayPass && decide (x.attempt < c.attemptsFor x.request)) = true then
        .again (c.backoffFor x.attempt)
      else .settled (s.receive x.request arrival) := by
  cases hcontext : s.isInContext x.request with
  | false =>
    cases hstamp : x.request.context with
    | none =>
      unfold Session.isInContext at hcontext
      rw [hstamp] at hcontext
      cases hcontext
    | some stamp =>
      have hstale : s.isCurrent stamp = false := by
        unfold Session.isInContext at hcontext
        rw [hstamp] at hcontext
        exact hcontext
      rw [verdict_of_stale c arrival hstamp hstale, if_neg (by simp)]
      unfold Session.receive
      rw [hstamp]
      simp only [hstale, Bool.false_eq_true, if_false]
  | true =>
    rw [verdict_of_current c arrival hcontext, Session.receive_of_inContext hcontext]
    cases hread : arrival.read s.mint.peek with
    | ok a => rw [Arrival.mayPass_of_success hread, if_neg (by simp)]
    | error err => rw [← Arrival.isRetryable_of_read hread, Bool.true_and]

theorem Client.attempt_of_again {c : Config} {s : Session} {x : Exchange} {arrival : Arrival} {ms : Nat}
    (h : verdict c s x arrival = .again ms) :
    s.isInContext x.request = true ∧ arrival.mayPass = true ∧ x.attempt < c.attemptsFor x.request ∧
      ms = c.backoffFor x.attempt := by
  rw [verdict_eq] at h
  split at h
  · rename_i hmay
    simp only [Bool.and_eq_true, decide_eq_true_eq] at hmay
    cases h
    exact ⟨hmay.1.1, hmay.1.2, hmay.2, rfl⟩
  · cases h

theorem Client.Opening.first {s s' : Session} {call : Call} {w : Waiting} (h : Opening s call (.waiting w) s') :
    ∃ x, w = .answer x ∧ x.attempt = 1 := by
  cases h <;> exact ⟨_, rfl, rfl⟩

namespace Rehearsal

variable {ε : Type} {take : List Nat → Step ε → Play ε (Result ε)} {deadlines : List Nat}

/-! ## The course of a call -/

/-- One sending of a request: the stage at which it is handed over, what comes of it, and the stage at which
that comes. -/
structure Sending (ε : Type) where
  before  : Stage ε
  arrival : Arrival
  after   : Stage ε

theorem conduct_returned (take : List Nat → Step ε → Play ε (Result ε)) (deadlines : List Nat) (turns id : Nat)
    (reply : Reply) : conduct take deadlines turns (.progressed id (.returned reply)) = pure reply := by
  cases turns <;> rfl

theorem conduct_answer (take : List Nat → Step ε → Play ε (Result ε)) (deadlines : List Nat) (turns id : Nat)
    (x : Exchange) : conduct take deadlines (turns + 1) (.progressed id (.waiting (.answer x))) = (do
      let arrival ← exchange take deadlines x.request
      conduct take deadlines turns (← act (.answer id arrival))) := rfl

theorem conduct_pause (take : List Nat → Step ε → Play ε (Result ε)) (deadlines : List Nat) (turns id ms : Nat)
    (x : Exchange) : conduct take deadlines (turns + 1) (.progressed id (.waiting (.pause ms x))) = (do
      wait deadlines (some (moment (← get).nowMs ms))
      conduct take deadlines turns (← act (.resume id))) := rfl

/-- The course of call `id` from the stage at which its exchange is in the transport: it is sent, and either that
settles it, or after a pause it is sent again. -/
inductive Course (take : List Nat → Step ε → Play ε (Result ε)) (deadlines : List Nat) (id : Nat) :
    Exchange → Stage ε → List (Sending ε) → Reply → Stage ε → Prop where
  | last {x : Exchange} {s t : Stage ε} {arrival : Arrival} {result : Except ApiError Answer}
      (hsent : (exchange take deadlines x.request).run s = (.ok arrival, t))
      (hv : Client.verdict t.run.config t.run.session x arrival = .settled result) :
      Course take deadlines id x s [⟨s, arrival, t⟩] (Client.settle (t.run.session.skip 1) x.purpose result).1
        { t with run := t.run.step (.answer id arrival) }
  | again {x : Exchange} {s t u : Stage ε} {arrival : Arrival} {ms : Nat} {rest : List (Sending ε)} {reply : Reply}
      (hsent : (exchange take deadlines x.request).run s = (.ok arrival, t))
      (hv : Client.verdict t.run.config t.run.session x arrival = .again ms)
      (hrest : Course take deadlines id { x with attempt := x.attempt + 1 }
        { t with run := (t.run.step (.answer id arrival)).step (.resume id), nowMs := moment t.nowMs ms } rest reply u) :
      Course take deadlines id x s (⟨s, arrival, t⟩ :: rest) reply u

theorem conduct_sent (htake : ∀ n deadlines step, Keeps True n deadlines (take deadlines step)) {id turns : Nat}
    {x : Exchange} {s t : Stage ε} {r : Except (Halt ε) Reply} (hid : id < s.run.started)
    (hx : s.run.ongoing.get? id = some (.answer x))
    (h : (conduct take deadlines (turns + 1) (.progressed id (.waiting (.answer x)))).run s = (r, t)) :
    (∃ halt, r = .error halt ∧ Stays (id + 1) deadlines s t ∧ halt.Lapsed False deadlines t) ∨
      ∃ arrival u, (exchange take deadlines x.request).run s = (.ok arrival, u) ∧ Stays (id + 1) deadlines s u ∧
        let answered : Stage ε := { u with run := u.run.step (.answer id arrival) }
        match Client.verdict u.run.config u.run.session x arrival with
        | .settled result => r = .ok (Client.settle (u.run.session.skip 1) x.purpose result).1 ∧ t = answered
        | .again ms => answered.run.ongoing.get? id = some (.pause ms x) ∧
            (conduct take deadlines turns (.progressed id (.waiting (.pause ms x)))).run answered = (r, t) := by
  have hkeeps := Keeps.exchange (n := id + 1) (htake (id + 1)) deadlines x.request
  rw [conduct_answer] at h
  rcases Play.cases_of_bind h with ⟨halt, hrun, rfl⟩ | ⟨arrival, u, hrun, h⟩
  · exact .inl ⟨halt, rfl, hkeeps.stays hid hrun, hkeeps.lapsed hid hrun⟩
  have hstays := hkeeps.stays hid hrun
  have hx' : u.run.ongoing.get? id = some (.answer x) := (hstays.kept id (Nat.lt_succ_self id)).trans hx
  refine .inr ⟨arrival, u, hrun, hstays, ?_⟩
  rw [Play.run_bind, run_act] at h
  simp only at h
  cases hv : Client.verdict u.run.config u.run.session x arrival with
  | settled result =>
    rw [Run.act_of_settled hx' hv, conduct_returned] at h
    cases h
    exact ⟨rfl, rfl⟩
  | again ms =>
    rw [Run.act_of_again hx' hv] at h
    refine ⟨?_, h⟩
    unfold Run.step
    rw [Run.act_of_again hx' hv]
    exact (Table.get?_insert _ _ _ _).trans (if_pos rfl)

theorem conduct_paused {id turns ms : Nat} {x : Exchange} {s t : Stage ε} {r : Except (Halt ε) Reply}
    (hid : id < s.run.started) (hx : s.run.ongoing.get? id = some (.pause ms x))
    (h : (conduct take deadlines (turns + 1) (.progressed id (.waiting (.pause ms x)))).run s = (r, t)) :
    (∃ halt, r = .error halt ∧ Stays (id + 1) deadlines s t ∧ halt.Lapsed False deadlines t) ∨
      let again : Exchange := { x with attempt := x.attempt + 1 }
      let resumed : Stage ε := { s with run := s.run.step (.resume id), nowMs := moment s.nowMs ms }
      Stays id deadlines s resumed ∧ resumed.run.ongoing.get? id = some (.answer again) ∧
        (conduct take deadlines turns (.progressed id (.waiting (.answer again)))).run resumed = (r, t) := by
  have hkeeps := Keeps.wait (ε := ε) (n := id + 1) deadlines (some (moment s.nowMs ms))
  rw [conduct_pause, Play.run_bind, Play.run_get] at h
  rcases Play.cases_of_bind h with ⟨halt, hrun, rfl⟩ | ⟨⟨⟩, u, hrun, h⟩
  · exact .inl ⟨halt, rfl, hkeeps.stays hid hrun, hkeeps.lapsed hid hrun⟩
  right
  have hw := waited hrun
  have hthen : u.nowMs = moment s.nowMs ms := (hw.reached rfl).trans (Nat.max_eq_right (Nat.le_add_right _ _))
  have honly := hw.only
  rw [hthen] at honly
  have hstays := (hkeeps.stays hid hrun).mono (Nat.le_succ id)
  subst honly
  rw [Play.run_bind, run_act] at h
  simp only [Run.act_of_paused hx] at h
  refine ⟨hstays.trans (Stays.acted _ (fun i hi => ?_) (Nat.le_of_lt hid)), ?_, h⟩
  · cases hi; exact Nat.le_refl _
  · show (s.run.step (.resume id)).ongoing.get? id = _
    unfold Run.step
    rw [Run.act_of_paused hx]
    exact (Table.get?_insert _ _ _ _).trans (if_pos rfl)

/-- **A call under way runs its course**, or a deadline around it cuts it off; the turns it is given suffice as
long as there are two for each attempt that is left. -/
theorem conducted (htake : ∀ n deadlines step, Keeps True n deadlines (take deadlines step)) {id : Nat} :
    ∀ (left : Nat) {turns : Nat} {x : Exchange} {s t : Stage ε} {r : Except (Halt ε) Reply},
      s.run.config.attemptsFor x.request - x.attempt ≤ left → 2 * left + 1 ≤ turns → id < s.run.started →
      s.run.ongoing.get? id = some (.answer x) →
      (conduct take deadlines turns (.progressed id (.waiting (.answer x)))).run s = (r, t) →
      Stays id deadlines s t ∧ match r with
        | .ok reply => ∃ sendings, Course take deadlines id x s sendings reply t
        | .error halt => halt.Lapsed False deadlines t := by
  intro left
  induction left using Nat.strongRecOn with
  | ind left ih =>
    intro turns x s t r hleft hturns hid hx h
    obtain ⟨turns, rfl⟩ : ∃ k, turns = k + 1 := ⟨turns - 1, by omega⟩
    rcases conduct_sent htake hid hx h with ⟨halt, rfl, hstays, hlapsed⟩ | ⟨arrival, u, hrun, hstays, hafter⟩
    · exact ⟨hstays.mono (Nat.le_succ id), hlapsed⟩
    have hid' : id < u.run.started := Nat.lt_of_lt_of_le hid hstays.started
    have hanswered := (hstays.mono (Nat.le_succ id)).trans (Stays.acted u (a := .answer id arrival)
      (fun i hi => by cases hi; exact Nat.le_refl _) (Nat.le_of_lt hid'))
    cases hv : Client.verdict u.run.config u.run.session x arrival with
    | settled result =>
      simp only [hv] at hafter
      obtain ⟨rfl, rfl⟩ := hafter
      exact ⟨hanswered, _, .last hrun hv⟩
    | again ms =>
      simp only [hv] at hafter
      obtain ⟨hpause, h⟩ := hafter
      -- an attempt is left, so there are two turns more
      obtain ⟨-, -, hlt, -⟩ := Client.attempt_of_again hv
      rw [hstays.config] at hlt
      obtain ⟨turns, rfl⟩ : ∃ k, turns = k + 1 := ⟨turns - 1, by omega⟩
      have hbegun := Nat.lt_of_lt_of_le hid hanswered.started
      rcases conduct_paused hbegun hpause h with ⟨halt, rfl, hstays', hlapsed⟩ | ⟨hresumed, hx', h⟩
      · exact ⟨hanswered.trans (hstays'.mono (Nat.le_succ id)), hlapsed⟩
      have hconfig := (hanswered.trans hresumed).config
      obtain ⟨hrest, hcourse⟩ := ih (left - 1) (by omega)
        (by rw [hconfig]; show s.run.config.attemptsFor x.request - (x.attempt + 1) ≤ left - 1; omega)
        (by omega) (Nat.lt_of_lt_of_le hbegun hresumed.started) hx' h
      refine ⟨(hanswered.trans hresumed).trans hrest, ?_⟩
      cases r with
      | error halt => exact hcourse
      | ok reply =>
        obtain ⟨sendings, hcourse⟩ := hcourse
        exact ⟨_, .again hrun hv hcourse⟩

/-- The stage at which a call has taken its first turn. -/
def Stage.begun (s : Stage ε) (c : Call) : Stage ε := { s with run := s.run.step (.begin c) }

@[simp]
theorem Stage.begun_config (s : Stage ε) (c : Call) : (s.begun c).run.config = s.run.config := s.run.config_step _

/-- **A call returns in its first turn, or runs its course, or is cut off.** -/
theorem ran (htake : ∀ n deadlines step, Keeps True n deadlines (take deadlines step)) {c : Call} {s t : Stage ε}
    {r : Except (Halt ε) Reply} : (runCall take deadlines c).run s = (r, t) →
    Stays s.run.started deadlines s t ∧ match r with
      | .ok reply => (Client.start s.run.session c).1 = .returned reply ∧ t = s.begun c ∨
          ∃ x sendings, (Client.start s.run.session c).1 = .waiting (.answer x) ∧
            Course take deadlines s.run.started x (s.begun c) sendings reply t
      | .error halt => (∃ x, (Client.start s.run.session c).1 = .waiting (.answer x)) ∧ halt.Lapsed False deadlines t := by
  intro h
  have hbegun : Stays s.run.started deadlines s (s.begun c) :=
    Stays.acted s (fun i hi => by cases hi) (Nat.le_refl _)
  unfold runCall at h
  simp only [Play.run_bind, Play.run_get, run_act, Play.run_tryCatch] at h
  cases hp : (Client.start s.run.session c).1 with
  | returned reply =>
    rw [Run.act_begin, hp, conduct_returned, Play.run_pure] at h
    cases h
    exact ⟨hbegun, .inl ⟨rfl, rfl⟩⟩
  | waiting w =>
    have ho := Client.start_opening s.run.session c
    rw [hp] at ho
    obtain ⟨x, rfl, hfirst⟩ := ho.first
    have hturn := Run.act_turn s.run (show (Action.begin c).isClient = true from rfl)
    rw [Run.act_begin, hp] at hturn h
    have hid : s.run.started < (s.begun c).run.started := Nat.lt_succ_self _
    have hleft : (s.begun c).run.config.attemptsFor x.request - x.attempt ≤ max s.run.config.maxAttempts 1 := by
      rw [Stage.begun_config]
      exact Nat.le_trans (Nat.sub_le _ _) (Config.attemptsFor_le _ _)
    have hturns := Nat.le_refl (2 * max s.run.config.maxAttempts 1 + 1)
    split at h
    · rename_i reply u hrun
      cases h
      obtain ⟨hstays, sendings, hcourse⟩ := conducted htake _ hleft hturns hid hturn.waiting_of_event hrun
      exact ⟨hbegun.trans hstays, .inr ⟨x, sendings, rfl, hcourse⟩⟩
    · rename_i halt u hrun
      cases h
      obtain ⟨hstays, hlapsed⟩ := conducted htake _ hleft hturns hid hturn.waiting_of_event hrun
      have hstays := hbegun.trans hstays
      refine ⟨hstays.trans (Stays.acted u (fun i hi => ?_) hstays.started), ⟨x, rfl⟩, hlapsed.mono (Nat.le_refl _)⟩
      cases hi
      exact Nat.le_refl _

theorem Keeps.runCall (htake : ∀ n deadlines step, Keeps True n deadlines (take deadlines step)) {n : Nat} (c : Call) :
    Keeps False n deadlines (runCall take deadlines c) := by
  refine Keeps.intro fun hs h => ?_
  obtain ⟨hstays, hends⟩ := ran htake h
  refine ⟨hstays.mono hs, fun halt he => ?_⟩
  subst he
  exact hends.2

/-- What a sending shows of its reply. -/
def showSent (shape : Option (Except ε Shape)) : Reply → Play ε (Result ε)
  | .answered (.ok a) =>
    match shape with
    | none             => return .sent (.ok a) none
    | some (.ok shape) => return .sent (.ok a) (some (shape.read a))
    | some (.error e)  => throw (.refused (.unreadable e))
  | .answered (.error e) => return .sent (.error e) none
  | _ => return .nothing

theorem Keeps.showSent {n : Nat} (shape : Option (Except ε Shape)) (reply : Reply) :
    Keeps True n deadlines (showSent shape reply) := by
  unfold Rehearsal.showSent
  split
  · split
    · exact Keeps.pure _
    · exact Keeps.pure _
    · exact Keeps.refused _
  · exact Keeps.pure _
  · exact Keeps.pure _

/-- **Any step leaves alone what it has not begun itself**, however deep steps are nested in it. -/
theorem Keeps.takeStep : ∀ (depth n : Nat) (deadlines : List Nat) (step : Step ε),
    Keeps True n deadlines (takeStep depth deadlines step) := by
  intro depth
  induction depth using Nat.strongRecOn with
  | ind depth ih =>
    intro n deadlines step
    -- an action that is no turn of a call, and what is shown of it
    have hshow : ∀ {a : Action} {f : Event → Play ε (Result ε)}, a.call? = none →
        (∀ e, Keeps True n deadlines (f e)) → Keeps True n deadlines (Rehearsal.act a >>= f) := by
      intro a f ha hf
      exact (Keeps.act fun id hid => by rw [ha] at hid; cases hid).bind hf
    cases step with
    | unreadable reason => simp only [Rehearsal.takeStep]; exact Keeps.refused _
    | issuer op => simp only [Rehearsal.takeStep]; exact hshow rfl fun e => by split <;> exact Keeps.pure _
    | cache op => simp only [Rehearsal.takeStep]; exact hshow rfl fun e => by split <;> exact Keeps.pure _
    | context op =>
      simp only [Rehearsal.takeStep]
      refine hshow rfl fun e => ?_
      split
      · exact Keeps.pure _
      · exact Keeps.refused _
    | cancel operation => simp only [Rehearsal.takeStep]; exact hshow rfl fun e => by split <;> exact Keeps.pure _
    | switch subject => simp only [Rehearsal.takeStep]; exact hshow rfl fun e => Keeps.pure _
    | grant set => simp only [Rehearsal.takeStep]; exact hshow rfl fun e => Keeps.pure _
    | isAllowed key => simp only [Rehearsal.takeStep]; exact Keeps.get.bind fun s => Keeps.pure _
    | require key => simp only [Rehearsal.takeStep]; exact hshow rfl fun e => by split <;> exact Keeps.pure _
    | subject => simp only [Rehearsal.takeStep]; exact Keeps.get.bind fun s => Keeps.pure _
    | push script =>
      simp only [Rehearsal.takeStep]
      refine Keeps.intro fun _ h => ?_
      cases h
      exact ⟨⟨rfl, Nat.le_refl _, fun _ _ => rfl, List.prefix_refl _, Nat.le_refl _, fun _ _ h => h⟩,
        fun _ he => by cases he⟩
    | call c =>
      cases depth with
      | zero => exact Keeps.pure _
      | succ depth =>
        simp only [Rehearsal.takeStep]
        exact (Keeps.runCall (ih depth (Nat.lt_succ_self depth)) c).allow.bind fun _ => Keeps.pure _
    | send request stamp shape =>
      cases depth with
      | zero => exact Keeps.pure _
      | succ depth =>
        have hsend : ∀ request, Keeps True n deadlines
            (Rehearsal.runCall (Rehearsal.takeStep depth) deadlines (.send request) >>= Rehearsal.showSent shape) :=
          fun request => (Keeps.runCall (ih depth (Nat.lt_succ_self depth)) _).allow.bind (Keeps.showSent shape)
        simp only [Rehearsal.takeStep]
        split
        · exact (Keeps.pure request).bind hsend
        · refine Keeps.get.bind fun s => ?_
          split
          · exact (Keeps.pure _).bind hsend
          · exact (Keeps.refused _).bind hsend
    | abandon afterMs step =>
      cases depth with
      | zero => exact Keeps.pure _
      | succ depth =>
        simp only [Rehearsal.takeStep]
        exact Keeps.within fun d => (ih depth (Nat.lt_succ_self depth) n _ step).bind fun _ => Keeps.pure _

end Rehearsal
end BackOffice
