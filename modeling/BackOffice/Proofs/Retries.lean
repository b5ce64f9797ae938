import BackOffice.Proofs.Courses
/-!
# How often a request is sent

A request is sent, and sent again after a pause that grows with each attempt, until it must not be, and the
last sending alone decides what it is answered (`Delivered`).  A mutation without an idempotency key is not
sent at all (`sent_exactly`).
-/
namespace BackOffice

theorem Request.refused_of_unkeyed {request : Request} (trace : TraceId) (hmutation : request.isMutation = true)
    (hkey : request.header? idempotencyHeader = none) :
    ∃ err, request.refusal? trace = some err ∧ err.category = .validation := by
  unfold refusal?
  rw [hmutation, hkey]
  exact ⟨_, rfl, rfl⟩

theorem Request.refusal?_of_keyed {request : Request} (trace : TraceId)
    (h : ¬ (request.isMutation = true ∧ request.header? idempotencyHeader = none)) : request.refusal? trace = none := by
  unfold refusal?
  rw [if_neg]
  simpa using h

theorem Client.start_send (s : Session) (request : Request) : (start s (.send request)).1 =
    match request.refusal? (.minted s.mint.peek) with
    | none     => .waiting (.answer ⟨request, .send, 1⟩)
    | some err => .returned (.answered (.error err)) := by
  show (launch s request .send).1 = _
  unfold launch
  rw [Session.draw_eq]
  simp only
  cases request.refusal? (.minted s.mint.peek) with
  | none => rfl
  | some err => rfl

namespace Rehearsal

variable {ε : Type} {take : List Nat → Step ε → Play ε (Result ε)} {deadlines : List Nat}

/-! ## What a course amounts to -/

namespace Course

variable {id : Nat} {x : Exchange} {s t : Stage ε} {sendings : List (Sending ε)} {reply : Reply}

theorem head (h : Course take deadlines id x s sendings reply t) : sendings.head?.map Sending.before = some s := by
  cases h <;> rfl

theorem sent (h : Course take deadlines id x s sendings reply t) :
    ∀ y ∈ sendings, (exchange take deadlines x.request).run y.before = (.ok y.arrival, y.after) := by
  induction h with
  | last hsent hv => exact List.forall_mem_singleton.2 hsent
  | again hsent hv hrest ih => exact List.forall_mem_cons.2 ⟨hsent, ih⟩

theorem config (htake : ∀ n deadlines step, Keeps True n deadlines (take deadlines step))
    (h : Course take deadlines id x s sendings reply t) :
    ∀ y ∈ sendings, y.before.run.config = s.run.config ∧ y.after.run.config = s.run.config := by
  have hone : ∀ {x : Exchange} {s t : Stage ε} {arrival : Arrival},
      (exchange take deadlines x.request).run s = (.ok arrival, t) → t.run.config = s.run.config := fun hsent =>
    ((Keeps.exchange (htake 0) deadlines _).stays (Nat.zero_le _) hsent).config
  induction h with
  | last hsent hv => exact List.forall_mem_singleton.2 ⟨rfl, hone hsent⟩
  | @again x s t u arrival ms rest reply hsent hv hrest ih =>
    have hstep : ((t.run.step (.answer id arrival)).step (.resume id)).config = s.run.config :=
      ((Run.config_step _ _).trans (Run.config_step _ _)).trans (hone hsent)
    refine List.forall_mem_cons.2 ⟨⟨rfl, hone hsent⟩, fun y hy => ?_⟩
    exact ⟨(ih y hy).1.trans hstep, (ih y hy).2.trans hstep⟩

theorem goes_on (h : Course take deadlines id x s sendings reply t) : ∀ i y, sendings[i]? = some y →
    (i + 1 < sendings.length ↔ y.after.run.session.isInContext x.request = true ∧ y.arrival.mayPass = true ∧
      x.attempt + i < y.after.run.config.attemptsFor x.request) := by
  induction h with
  | last hsent hv =>
    rintro (_ | i) y hy
    · cases hy
      rw [Client.verdict_eq] at hv
      split at hv
      · cases hv
      · rename_i hmay
        simp only [Bool.and_eq_true, decide_eq_true_eq] at hmay
        exact ⟨fun h => absurd h (Nat.lt_irrefl 1), fun h => absurd ⟨⟨h.1, h.2.1⟩, h.2.2⟩ hmay⟩
    · cases hy
  | @again x s t u arrival ms rest reply hsent hv hrest ih =>
    rintro (_ | i) y hy
    · cases hy
      obtain ⟨hcontext, hpass, hlt, -⟩ := Client.attempt_of_again hv
      refine ⟨fun _ => ⟨hcontext, hpass, hlt⟩, fun _ => ?_⟩
      have hne : rest ≠ [] := by rintro rfl; cases hrest
      exact Nat.succ_lt_succ (List.length_pos_iff.2 hne)
    · rw [List.getElem?_cons_succ] at hy
      have hnext := ih i y hy
      simp only [List.length_cons]
      rw [show x.attempt + (i + 1) = x.attempt + 1 + i by omega, ← hnext]
      omega

theorem attempt_le (htake : ∀ n deadlines step, Keeps True n deadlines (take deadlines step))
    (h : Course take deadlines id x s sendings reply t) (hx : x.attempt ≤ s.run.config.attemptsFor x.request) :
    ∀ i < sendings.length, x.attempt + i ≤ s.run.config.attemptsFor x.request
  | 0, _ => hx
  | i + 1, hi => by
    have hbefore := List.getElem?_eq_getElem (Nat.lt_of_succ_lt hi)
    have hlt := ((h.goes_on i _ hbefore).1 hi).2.2
    rw [(h.config htake _ (List.mem_of_getElem? hbefore)).2] at hlt
    omega

theorem pauses (h : Course take deadlines id x s sendings reply t) : ∀ i y z, sendings[i]? = some y →
    sendings[i + 1]? = some z → z.before = { y.after with
      run := (y.after.run.step (.answer id y.arrival)).step (.resume id)
      nowMs := moment y.after.nowMs (y.after.run.config.backoffFor (x.attempt + i)) } := by
  induction h with
  | last hsent hv => intro i y z hy hz; cases hz
  | @again x s t u arrival ms rest reply hsent hv hrest ih =>
    rintro (_ | i) y z hy hz
    · cases hy
      obtain ⟨-, -, -, rfl⟩ := Client.attempt_of_again hv
      have hhead := hrest.head
      rw [List.getElem?_cons_succ, ← List.head?_eq_getElem?] at hz
      rw [hz] at hhead
      exact Option.some.inj hhead
    · rw [List.getElem?_cons_succ] at hy hz
      rw [ih i y z hy hz, show x.attempt + (i + 1) = x.attempt + 1 + i by omega]

theorem settled (h : Course take deadlines id x s sendings reply t) : ∃ y, sendings.getLast? = some y ∧
    reply = (Client.settle (y.after.run.session.skip 1) x.purpose
      (y.after.run.session.receive x.request y.arrival)).1 ∧
    t = { y.after with run := y.after.run.step (.answer id y.arrival) } := by
  induction h with
  | last hsent hv =>
    rw [Client.verdict_eq] at hv
    split at hv
    · cases hv
    · cases hv; exact ⟨_, rfl, rfl, rfl⟩
  | again hsent hv hrest ih =>
    obtain ⟨y, hy, hends⟩ := ih
    exact ⟨y, by rw [List.getLast?_cons, hy]; rfl, hends⟩

end Course

/-- What sending a request comes to: the sendings one after the other, and what it is answered in the end.  The
one at place `i` is the attempt with number `i + 1`. -/
structure Delivered (request : Request) (s : Stage ε) (sendings : List (Sending ε)) (result : Except ApiError Answer)
    (t : Stage ε) : Prop where
  first : sendings.head?.map Sending.before = some (s.begun (.send request))
  /-- Each hands over the same request, once, and takes what the transport brings within the timeout. -/
  each : ∀ x ∈ sendings, x.before.run.config = s.run.config ∧ Exchanged request x.before x.arrival x.after
  /-- The last is the first after which the request must not be sent again. -/
  last_iff : ∀ i x, sendings[i]? = some x → (i + 1 = sendings.length ↔
    request.method ≠ .get ∨ x.arrival.mayPass = false ∨ i + 1 = max s.run.config.maxAttempts 1 ∨
      x.after.run.session.isInContext request = false)
  /-- Between two of them nothing happens but that the clock runs on. -/
  pauses : ∀ i x y, sendings[i]? = some x → sendings[i + 1]? = some y → y.before = { x.after with
    run := (x.after.run.step (.answer s.run.started x.arrival)).step (.resume s.run.started)
    nowMs := x.after.nowMs + min (min (s.run.config.backoffMs * (i + 1)) Config.limit64) longestMs }
  settled : ∃ x, sendings.getLast? = some x ∧ result = x.after.run.session.receive request x.arrival ∧
    t = { x.after with run := x.after.run.step (.answer s.run.started x.arrival) }

theorem Course.delivered (htake : ∀ n deadlines step, Keeps True n deadlines (take deadlines step)) {request : Request}
    {s t : Stage ε} {sendings : List (Sending ε)} {reply : Reply}
    (h : Course take deadlines s.run.started ⟨request, .send, 1⟩ (s.begun (.send request)) sendings reply t) :
    ∃ result, reply = .answered result ∧ Delivered request s sendings result t := by
  have hconfig := h.config htake
  simp only [Stage.begun_config] at hconfig
  obtain ⟨y, hlast, hreply, hend⟩ := h.settled
  refine ⟨_, hreply, h.head, fun x hx => ⟨(hconfig x hx).1, exchanged (htake 0) (h.sent x hx)⟩, fun i x hx => ?_,
    fun i x z hx hz => ?_, y, hlast, rfl, hend⟩
  · have hi : i < sendings.length := (List.getElem?_eq_some_iff.1 hx).1
    have hbound := h.attempt_le htake (Config.one_le_attemptsFor _ _) i hi
    have hgoes := h.goes_on i x hx
    rw [(hconfig x (List.mem_of_getElem? hx)).2] at hgoes
    simp only [Stage.begun_config] at hbound hgoes
    have hlen : i + 1 = sendings.length ↔ ¬ i + 1 < sendings.length := by omega
    rw [hlen, hgoes]
    unfold Config.attemptsFor at hbound ⊢
    by_cases hget : request.method = .get
    · rw [if_pos hget] at hbound ⊢
      cases x.after.run.session.isInContext request with
      | false => simp
      | true =>
        cases x.arrival.mayPass with
        | false => simp
        | true =>
          simp only [true_and, hget, ne_eq, not_true_eq_false, false_or, or_false, reduceCtorEq]
          omega
    · rw [if_neg hget]
      exact ⟨fun _ => .inl hget, fun _ hmore => absurd hmore.2.2 (by omega)⟩
  · have hpause := h.pauses i x z hx hz
    rw [(hconfig x (List.mem_of_getElem? hx)).2, Nat.add_comm] at hpause
    exact hpause

/-- **Exactly how often a request is sent, when, and what comes of it**, whatever the transport does and whatever
other steps are taken meanwhile.  A mutation without an idempotency key is not sent at all.  Any other request is
sent again and again, with pauses, until it must not be (`Delivered`), unless a deadline around the call comes
first. -/
theorem sent_exactly (depth : Nat) (deadlines : List Nat) (request : Request) (s : Stage ε) :
    let out := (runCall (takeStep depth) deadlines (.send request)).run s
    let unkeyed := request.isMutation = true ∧ request.header? Request.idempotencyHeader = none
    (unkeyed → ∃ err, out = (.ok (.answered (.error err)), s.begun (.send request)) ∧ err.category = .validation) ∧
    (¬ unkeyed →
      (∃ halt, out.1 = .error halt ∧ halt.Lapsed False deadlines out.2) ∨
      ∃ sendings result, out.1 = .ok (.answered result) ∧ Delivered request s sendings result out.2) := by
  intro out unkeyed
  rcases hrun : (runCall (takeStep depth) deadlines (.send request)).run s with ⟨r, t⟩
  have hout : out = (r, t) := hrun
  obtain ⟨-, hends⟩ := ran (Keeps.takeStep depth) hrun
  rw [Client.start_send] at hends
  rw [hout]
  constructor
  · rintro ⟨hmutation, hkey⟩
    obtain ⟨err, hrefused, hcategory⟩ := Request.refused_of_unkeyed (.minted s.run.session.mint.peek) hmutation hkey
    rw [hrefused] at hends
    cases r with
    | error halt =>
      obtain ⟨⟨x, hx⟩, -⟩ := hends
      cases hx
    | ok reply =>
      rcases hends with ⟨hreply, rfl⟩ | ⟨x, sendings, hx, -⟩
      · cases hreply; exact ⟨err, rfl, hcategory⟩
      · cases hx
  · intro hkeyed
    rw [Request.refusal?_of_keyed _ hkeyed] at hends
    cases r with
    | error halt => exact .inl ⟨halt, rfl, hends.2⟩
    | ok reply =>
      rcases hends with ⟨hreply, -⟩ | ⟨x, sendings, hx, hcourse⟩
      · cases hreply
      · cases hx
        obtain ⟨result, rfl, hdelivered⟩ := hcourse.delivered (Keeps.takeStep depth)
        exact .inr ⟨sendings, result, rfl, hdelivered⟩

/-- A client that is to wait as long as can be asked for, before a script of which the first outcome fails. -/
def patient : Stage Unit :=
  ⟨.start { Config.standard with timeoutSecs := 2, backoffMs := Config.limit64 }
      (.ofUser ⟨.ofNat 1⟩ ⟨.ofNat 2⟩ ⟨"manager"⟩) (.ofMillis 0), 0,
    [.mk (.arrives (.error (.network "connection reset"))) [] 0, .mk (.arrives (.ok (.make 200 "3"))) [] 0], []⟩

theorem longest_pause_cut_short :
    ∃ first second, ((runCall (takeStep 0) [] (.send (.make .get "/a"))).run patient).2.handed.map Handed.atMs =
        [first, second] ∧
      second - first = 946080000000 ∧ second - first ≠ min (patient.run.config.backoffMs * 1) Config.limit64 :=
  ⟨0, 946080000000, by decide +kernel, rfl, by decide⟩

end Rehearsal
end BackOffice
