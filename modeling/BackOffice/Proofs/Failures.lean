import BackOffice.Proofs.Retries
/-!
# What a failure tells of the wire

The kind of an error is told by its category and status, and these are filled in from what the exchange came to
(`Arrival.FailsAs`).  So the kind of a send that failed tells whether a request was handed over at all and how the last
exchange ended, but for two things: a success whose body does not read looks as if nothing had been sent, and every
answer below 500 that is no success counts as one of the four hundreds, every one above as one of the five hundreds
(`failureKind_iff`).
-/
namespace BackOffice

theorem Category.ofStatus_eq_server_iff (n : Nat) : ofStatus n = some .server ↔ 500 ≤ n ∧ n ≤ 599 := by
  unfold ofStatus
  (repeat' split) <;> simp <;> omega

/-- An answer is filed under the server's failures by its status alone. -/
theorem Category.classify_eq_server_iff (n : Nat) (code : Option String) (message : String) :
    classify (some n) code message = .server ↔ 500 ≤ n ∧ n ≤ 599 := by
  have hcode : ∀ text, ofWords codeRules text ≠ some .server := fun text h => absurd (mem_of_ofWords h) (by decide)
  have hmessage : ∀ text, ofWords messageRules text ≠ some .server := fun text h =>
    absurd (mem_of_ofWords h) (by decide)
  rw [← ofStatus_eq_server_iff]
  unfold classify
  rw [Option.bind_some]
  cases hstatus : ofStatus n with
  | some c => simp
  | none =>
    refine iff_of_false (fun h => ?_) (by simp)
    rw [Option.none_or] at h
    have hfiled := (Option.getD_eq_iff.1 h).resolve_right fun hnone => by cases hnone.2
    rcases Option.or_eq_some_iff.1 hfiled with hc | ⟨-, hm⟩
    · obtain ⟨text, -, htext⟩ := Option.bind_eq_some_iff.1 hc
      exact hcode text htext
    · exact hmessage message hm

theorem ApiError.ofResponse_category (fresh : Uuid) (raw : RawResponse) :
    (ofResponse fresh raw).category = .server ↔ 500 ≤ raw.status ∧ raw.status ≤ 599 := by
  unfold ofResponse
  split <;> exact Category.classify_eq_server_iff _ _ _

theorem ApiError.failureKind_of_status {err : ApiError} {n : Nat} (hc : err.category ≠ .cancelled)
    (hn : err.status = some n) : err.failureKind = if 500 ≤ n then .http5xx n else .http4xx n := by
  unfold failureKind
  rw [hn]
  cases hcategory : err.category <;> first | exact absurd hcategory hc | rfl

/-- The kind of failure that the end of an exchange is taken for. -/
inductive Arrival.FailsAs : Arrival → FailureKind → Prop where
  | timeout : FailsAs (.error .timeout) .timeout
  | network (detail : String) : FailsAs (.error (.network detail)) .network
  | refused (raw : RawResponse) (hfail : raw.isSuccess = false) (hlow : raw.status < 500) :
      FailsAs (.ok raw) (.http4xx raw.status)
  | broken (raw : RawResponse) (hhigh : 500 ≤ raw.status) : FailsAs (.ok raw) (.http5xx raw.status)
  | unread (raw : RawResponse) (hsuccess : raw.isSuccess = true) (hbody : ∀ body, ¬ Arrival.Yields (.ok raw) body) :
      FailsAs (.ok raw) .client

namespace Arrival

theorem FailsAs.unique {arrival : Arrival} {kind kind' : FailureKind} (h : arrival.FailsAs kind)
    (h' : arrival.FailsAs kind') : kind = kind' := by
  cases h with
  | timeout => cases h'; rfl
  | network detail => cases h'; rfl
  | refused raw hfail hlow =>
    cases h' with
    | refused => rfl
    | broken _ hhigh => omega
    | unread _ hsuccess => rw [hfail] at hsuccess; cases hsuccess
  | broken raw hhigh =>
    cases h' with
    | refused _ _ hlow => omega
    | broken => rfl
    | unread _ hsuccess => exact absurd hhigh (by simpa [mayPass] using mayPass_of_isSuccess hsuccess)
  | unread raw hsuccess hbody =>
    cases h' with
    | refused _ hfail => rw [hfail] at hsuccess; cases hsuccess
    | broken _ hhigh => exact absurd hhigh (by simpa [mayPass] using mayPass_of_isSuccess hsuccess)
    | unread => rfl

theorem failsAs_of_read {fresh : Uuid} {arrival : Arrival} {err : ApiError} (h : arrival.read fresh = .error err) :
    arrival.FailsAs err.failureKind ∧ err.category ≠ .cancelled ∧
      ∀ n, err.failureKind = .http5xx n → (err.category = .server ↔ n ≤ 599) := by
  cases arrival with
  | error failure =>
    cases h
    cases failure with
    | timeout => exact ⟨.timeout, (fun h => by cases h), fun n h => by cases h⟩
    | network detail => exact ⟨.network detail, (fun h => by cases h), fun n h => by cases h⟩
  | ok raw =>
    cases hsuccess : raw.isSuccess with
    | true =>
      have hbody : ∀ body, ¬ Arrival.Yields (.ok raw) body := by
        intro body hyields
        obtain ⟨answer, hanswer, -⟩ := read_of_yields hyields fresh
        rw [h] at hanswer; cases hanswer
      unfold read at h
      simp only [hsuccess, if_true, Answer.ofRaw] at h
      split at h
      · cases h
        exact ⟨.unread raw hsuccess hbody, (fun h => by cases h), fun n h => by cases h⟩
      · cases h
    | false =>
      unfold read at h
      simp only [hsuccess, Bool.false_eq_true, if_false] at h
      cases h
      obtain ⟨hcategory, hstatus⟩ := ApiError.ofResponse_filed fresh raw
      rw [ApiError.failureKind_of_status hcategory hstatus]
      by_cases hhigh : 500 ≤ raw.status
      · rw [if_pos hhigh]
        refine ⟨.broken raw hhigh, hcategory, fun n hn => ?_⟩
        cases hn
        rw [ApiError.ofResponse_category]
        exact and_iff_right hhigh
      · rw [if_neg hhigh]
        exact ⟨.refused raw hsuccess (Nat.lt_of_not_le hhigh), hcategory, fun n h => by cases h⟩

end Arrival

theorem Session.receive_of_left {s : Session} {request : Request} (h : s.isInContext request = false) (arrival : Arrival) :
    ∃ stamp, s.receive request arrival = .error (.cancelled (.minted s.mint.peek) stamp) := by
  unfold isInContext at h
  unfold receive
  split
  · rename_i stamp hstamp
    rw [hstamp] at h
    exact ⟨stamp.key, if_neg (by simp [h])⟩
  · rename_i hstamp
    rw [hstamp] at h; cases h

theorem Request.refusal?_kind {request : Request} {trace : TraceId} {err : ApiError}
    (h : request.refusal? trace = some err) : err.failureKind = .client := by
  unfold refusal? at h
  split at h <;> cases h
  rfl

namespace Rehearsal

variable {ε : Type} {request : Request} {deadlines : List Nat}

/-- A send that returns was refused without being handed over, or delivered. -/
theorem returned_of_send {depth : Nat} {s t : Stage ε} {reply : Reply}
    (h : (runCall (takeStep depth) deadlines (.send request)).run s = (.ok reply, t)) :
    (∃ err trace, request.refusal? trace = some err ∧ reply = .answered (.error err) ∧ t = s.begun (.send request)) ∨
      ∃ sendings result, reply = .answered result ∧ Delivered request s sendings result t := by
  obtain ⟨-, hends⟩ := ran (Keeps.takeStep depth) h
  rw [Client.start_send] at hends
  rcases hends with ⟨hreply, rfl⟩ | ⟨x, sendings, hx, hcourse⟩
  · cases hrefused : request.refusal? (.minted s.run.session.mint.peek) with
    | none => rw [hrefused] at hreply; cases hreply
    | some err =>
      rw [hrefused] at hreply
      cases hreply
      exact .inl ⟨err, _, hrefused, rfl, rfl⟩
  · split at hx
    · cases hx
      obtain ⟨result, rfl, hdelivered⟩ := hcourse.delivered (Keeps.takeStep depth)
      exact .inr ⟨sendings, result, rfl, hdelivered⟩
    · cases hx

/-- Each sending hands over at least one request more. -/
theorem Delivered.handed {s t : Stage ε} {sendings : List (Sending ε)} {result : Except ApiError Answer}
    (h : Delivered request s sendings result t) : ∀ i x, sendings[i]? = some x →
      s.handed.length + i < x.after.handed.length
  | 0, x, hx => by
    have hfirst := h.first
    rw [List.head?_eq_getElem?, hx] at hfirst
    have hbegun : x.before = s.begun (.send request) := Option.some.inj hfirst
    have hbefore : x.before.handed = s.handed := by rw [hbegun]; rfl
    have hmore := (h.each x (List.mem_of_getElem? hx)).2.handed.length_le
    simp only [Stage.sent, List.length_append, List.length_map, List.length_singleton, hbefore] at hmore
    omega
  | i + 1, y, hy => by
    obtain ⟨x, hx⟩ : ∃ x, sendings[i]? = some x :=
      ⟨_, List.getElem?_eq_getElem (Nat.lt_of_succ_lt (List.getElem?_eq_some_iff.1 hy).1)⟩
    have hlast := Delivered.handed h i x hx
    have hbefore : y.before.handed = x.after.handed := by rw [h.pauses i x y hx hy]
    have hmore := (h.each y (List.mem_of_getElem? hy)).2.handed.length_le
    simp only [Stage.sent, List.length_append, List.length_map, List.length_singleton, hbefore] at hmore
    omega

theorem Delivered.handed_ne {s t : Stage ε} {sendings : List (Sending ε)} {result : Except ApiError Answer}
    (h : Delivered request s sendings result t) : t.handed ≠ s.handed := by
  obtain ⟨x, hlast, -, rfl⟩ := h.settled
  rw [List.getLast?_eq_getElem?] at hlast
  have hmore := h.handed _ x hlast
  intro he
  rw [show x.after.handed = s.handed from he] at hmore
  omega

/-- The last exchange ended so, and the context of its request still stood. -/
def EndsWith (request : Request) (sendings : List (Sending ε)) (P : Arrival → Prop) : Prop :=
  ∃ x, sendings.getLast? = some x ∧ x.after.run.session.isInContext request = true ∧ P x.arrival

/-- **Exactly what the kind of a failed send tells.**  It is the client's own where no request was handed over; it is
cancelled where the context had been left when the last exchange ended; and otherwise it is what that end is taken for
(`Arrival.FailsAs`).  An error with a status from 500 is filed under the server's failures exactly up to 599. -/
theorem failureKind_iff {depth : Nat} {s t : Stage ε} {err : ApiError}
    (h : (runCall (takeStep depth) deadlines (.send request)).run s = (.ok (.answered (.error err)), t)) :
    ∃ sendings : List (Sending ε),
      (t.handed = s.handed ∧ sendings = [] ∨ t.handed ≠ s.handed ∧ Delivered request s sendings (.error err) t) ∧
      (∀ kind, err.failureKind = kind ↔ kind = .client ∧ t.handed = s.handed ∨
        kind = .cancelled ∧ (∃ x, sendings.getLast? = some x ∧ x.after.run.session.isInContext request = false) ∨
        EndsWith request sendings (·.FailsAs kind)) ∧
      ∀ n, err.failureKind = .http5xx n → (err.category = .server ↔ n ≤ 599) := by
  rcases returned_of_send h with ⟨err', trace, hrefused, hreply, rfl⟩ | ⟨sendings, result, hreply, hdelivered⟩
  · cases hreply
    have hkind := Request.refusal?_kind hrefused
    rw [hkind]
    refine ⟨[], .inl ⟨rfl, rfl⟩, fun kind => ⟨fun he => .inl ⟨he.symm, rfl⟩, ?_⟩, nofun⟩
    rintro (⟨rfl, -⟩ | ⟨-, x, hx, -⟩ | ⟨x, hx, -⟩)
    · rfl
    · cases hx
    · cases hx
  · cases hreply
    obtain ⟨x, hlast, hresult, -⟩ := hdelivered.settled
    have hhanded := hdelivered.handed_ne
    cases hcontext : x.after.run.session.isInContext request with
    | false =>
      obtain ⟨stamp, hcancelled⟩ := Session.receive_of_left hcontext x.arrival
      rw [hcancelled] at hresult
      cases hresult
      refine ⟨sendings, .inr ⟨hhanded, hdelivered⟩, fun kind => ⟨fun he => .inr (.inl ⟨he.symm, x, hlast, hcontext⟩), ?_⟩,
        nofun⟩
      rintro (⟨-, hsame⟩ | ⟨rfl, -⟩ | ⟨y, hy, hstands, -⟩)
      · exact absurd hsame hhanded
      · rfl
      · rw [hlast] at hy
        cases hy
        rw [hcontext] at hstands; cases hstands
    | true =>
      rw [Session.receive_of_inContext hcontext] at hresult
      obtain ⟨hfails, -, hserver⟩ := Arrival.failsAs_of_read hresult.symm
      refine ⟨sendings, .inr ⟨hhanded, hdelivered⟩, fun kind => ⟨?_, ?_⟩, hserver⟩
      · rintro rfl
        exact .inr (.inr ⟨x, hlast, hcontext, hfails⟩)
      · rintro (⟨-, hsame⟩ | ⟨-, y, hy, hleft⟩ | ⟨y, hy, -, hy'⟩)
        · exact absurd hsame hhanded
        · rw [hlast] at hy
          cases hy
          rw [hcontext] at hleft; cases hleft
        · rw [hlast] at hy
          cases hy
          exact hfails.unique hy'

/-- A client before a transport that answers once. -/
def answering (raw : RawResponse) : Stage Unit :=
  ⟨.start .standard (.ofUser ⟨.ofNat 1⟩ ⟨.ofNat 2⟩ ⟨"manager"⟩) (.ofMillis 0), 0, [.mk (.arrives (.ok raw)) [] 0], []⟩

theorem missing_page_told :
    ∃ err t, (runCall (takeStep 0) [] (.send (.make .get "/a"))).run (answering (.make 404 "")) =
        (.ok (.answered (.error err)), t) ∧
      ∃ sendings : List (Sending Unit), Delivered (.make .get "/a") (answering (.make 404 "")) sendings (.error err) t ∧
        EndsWith (.make .get "/a") sendings (·.FailsAs (.http4xx 404)) := by
  refine ⟨_, _, rfl, ?_⟩
  obtain ⟨sendings, hhanded, hkind, -⟩ :=
    @failureKind_iff Unit (.make .get "/a") [] 0 (answering (.make 404 "")) _ _ rfl
  rcases hhanded with ⟨hsame, -⟩ | ⟨hmore, hdelivered⟩
  · exact absurd (congrArg List.length hsame) (by decide +kernel)
  refine ⟨sendings, hdelivered, ?_⟩
  rcases (hkind (.http4xx 404)).1 rfl with ⟨he, -⟩ | ⟨he, -⟩ | hends
  · cases he
  · cases he
  · exact hends

/-- **A success that does not read looks as if nothing had been sent**, and a redirection as one of the four hundreds. -/
theorem unread_success_taken_for_unsent :
    (∃ err t, (runCall (takeStep 0) [] (.send (.make .get "/a"))).run (answering (.make 200 "pong")) =
        (.ok (.answered (.error err)), t) ∧
      t.handed.map Handed.request = [.make .get "/a"] ∧ err.failureKind = .client) ∧
    ∃ err t, (runCall (takeStep 0) [] (.send (.make .get "/a"))).run (answering (.make 302 "")) =
        (.ok (.answered (.error err)), t) ∧ err.failureKind = .http4xx 302 := by
  exact ⟨⟨_, _, rfl, rfl, rfl⟩, _, _, rfl, rfl⟩

end Rehearsal
end BackOffice
