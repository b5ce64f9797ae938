import BackOffice.Proofs.Members
import BackOffice.Proofs.Reading
import BackOffice.Proofs.Failures
import BackOffice.Proofs.Staleness
/-!
# What becomes of the server's trace identifiers

A server names an exchange in the body of its answer or in a header, and the header counts only where the body is
silent.  What a call returns carries that name unless its reply is decoded apart from the answer, as that of a listing
or of a mutation is, and does not decode, or unless it is a failure that is not told in the server's own form
(`trace_told_iff`).
-/
namespace BackOffice

/-! ## What was sent -/

/-- The trace identifier that a body names. -/
def bodyTrace? (body : String) : Option String :=
  ((Json.parse body).bind (Json.member? "trace_id")).bind Json.string?

/-- The trace identifier that the last header of its name has, in whatever letter case that is written. -/
def headerTrace? (headers : List (String × String)) : Option String :=
  (headers.reverse.find? (fun h => Text.sameIgnoringCase h.1 "X-Trace-ID")).map Prod.snd

/-- What the server said, if the identifier is the server's. -/
def TraceId.sent? : TraceId → Option String
  | .server text => some text
  | .minted _    => none

theorem TraceId.sent?_choose (fresh : Uuid) : ∀ l : List (Option String), (choose fresh l).sent? = l.findSome? id
  | []          => rfl
  | some _ :: _ => rfl
  | none :: l   => sent?_choose fresh l

theorem RawResponse.header?_foldl (name : String) : ∀ (headers : List (String × String)) (raw : RawResponse),
    (headers.foldl (fun r h => r.withHeader h.1 h.2) raw).header? name =
      ((headers.reverse.find? (fun h => Text.sameIgnoringCase h.1 name)).map Prod.snd).or (raw.header? name)
  | [], raw => rfl
  | h :: headers, raw => by
    rw [List.foldl_cons, header?_foldl name headers, List.reverse_cons, List.find?_append, Option.map_or, Option.or_assoc]
    congr 1
    have hget : (raw.withHeader h.1 h.2).header? name = (raw.headers.insert (Text.lower h.1) h.2).get? (Text.lower name) :=
      rfl
    rw [hget, Table.get?_insert]
    by_cases hname : Text.lower h.1 = Text.lower name
    · simp [Text.sameIgnoringCase, hname]
    · simp [Text.sameIgnoringCase, hname, header?]

/-- A header is found in whatever letter case it was sent. -/
theorem RawResponse.header?_ofParts (status : Nat) (headers : List (String × String)) (body : String) :
    (ofParts status headers body).header? TraceId.header = headerTrace? headers := by
  have hname : Text.lower TraceId.header = Text.lower "X-Trace-ID" := by decide +kernel
  unfold header?
  rw [hname]
  exact (header?_foldl "X-Trace-ID" headers _).trans Option.or_none

theorem RawResponse.ofParts_eq (status : Nat) (headers : List (String × String)) (body : String) :
    (ofParts status headers body).status = status ∧ (ofParts status headers body).body = body := by
  have hkept : ∀ (hs : List (String × String)) (raw : RawResponse),
      (hs.foldl (fun r h => r.withHeader h.1 h.2) raw).status = raw.status ∧
        (hs.foldl (fun r h => r.withHeader h.1 h.2) raw).body = raw.body := by
    intro hs
    induction hs with
    | nil => exact fun raw => ⟨rfl, rfl⟩
    | cons h hs ih => exact fun raw => ih _
  exact hkept headers _

/-! ## Blank bodies -/

namespace Text

theorem isBlank_of_trim {s : String} (h : (trim s).isEmpty = true) : ∀ c ∈ s.toList, isBlank c = true := by
  have hnil : dropEndWhile isBlank (trimStart s.toList) = [] := by
    simpa [trim] using h
  obtain ⟨tail, htail, hblank⟩ := dropEndWhile_append isBlank (trimStart s.toList)
  rw [hnil, List.nil_append] at htail
  rw [← htail] at hblank
  have hstart : trimStart s.toList = [] := by
    refine List.eq_nil_iff_forall_not_mem.2 fun c hc => ?_
    have hne : trimStart s.toList ≠ [] := List.ne_nil_of_mem hc
    have hhead := List.head_dropWhile_not isBlank hne
    exact absurd (hblank _ (List.head_mem hne)) (by simpa [trimStart] using hhead)
  intro c hc
  rw [← List.takeWhile_append_dropWhile (p := isBlank) (l := s.toList), show s.toList.dropWhile isBlank = [] from hstart,
    List.append_nil] at hc
  exact List.all_eq_true.1 List.all_takeWhile c hc

end Text

namespace Written

theorem numberParts_of_blank {c : Char} (h : Text.isBlank c = true) (cs : List Char) : numberParts (c :: cs) = none := by
  refine Option.eq_none_iff_forall_not_mem.2 fun t ht => ?_
  obtain ⟨c', r, hcr, hhead⟩ := head_of_numberParts ht
  cases hcr
  rcases hhead with rfl | hdigit
  · revert h; decide
  · rw [isDigit_of_isBlank h] at hdigit; cases hdigit

/-- A text of blanks alone is no JSON text. -/
theorem read_of_blank {s : String} (h : ∀ c ∈ s.toList, Text.isBlank c = true) : read s = none := by
  have hblank : ∀ c ∈ skipSpace s.toList, Text.isBlank c = true := fun c hc =>
    h c ((List.dropWhile_sublist _).subset hc)
  have hvalue : value (2 * s.length + 1 + 1) s.toList = none := by
    rw [value_eq_number]
    · cases hcs : skipSpace s.toList with
      | nil => rfl
      | cons c cs =>
        rw [numberParts_of_blank (hblank c (hcs ▸ List.mem_cons_self))]
        rfl
    · intro c r hcr hmem
      have hc := hblank c (hcr ▸ List.mem_cons_self)
      simp only [List.mem_cons, List.not_mem_nil, or_false] at hmem
      rcases hmem with rfl | rfl | rfl | rfl | rfl | rfl <;> revert hc <;> decide
  unfold read
  rw [hvalue]

end Written

theorem Json.parse_of_blank {body : String} (h : (Text.trim body).isEmpty = true) : parse body = none := by
  unfold parse
  rw [Written.read_of_blank (Text.isBlank_of_trim h)]

theorem bodyTrace?_of_blank {body : String} (h : (Text.trim body).isEmpty = true) : bodyTrace? body = none := by
  unfold bodyTrace?
  rw [Json.parse_of_blank h]
  rfl

theorem object_of_bodyTrace? {body text : String} (h : bodyTrace? body = some text) :
    ∃ ms, Json.parse body = some (.object ms) := by
  obtain ⟨j, hmember, -⟩ := Option.bind_eq_some_iff.1 h
  obtain ⟨value, hvalue, hj⟩ := Option.bind_eq_some_iff.1 hmember
  cases value with
  | object ms => exact ⟨ms, hvalue⟩
  | _ => cases hj

/-! ## What is told -/

theorem string_of_nullable {room : Nat} {w : Written} {o : Option String} {j : Json}
    (ho : Decoder.nullable Decoder.string room w = some o) (hj : w.json room = some j) : o = j.string? := by
  cases w with
  | null =>
    cases ho; cases hj; rfl
  | string s =>
    obtain ⟨s', hs', rfl⟩ := Option.map_eq_some_iff.1 ho
    cases hs'
    cases hj; rfl
  | _ => cases ho

/-- **An envelope in full form has the trace identifier of its object.** -/
theorem ErrorEnvelope.traceId_of_object {body : String} {e : ErrorEnvelope} {ms : List (String × Json)}
    (he : decoder.text body = some e) (hobject : Json.parse body = some (.object ms)) :
    e.traceId = bodyTrace? body := by
  unfold bodyTrace?
  rw [hobject]
  unfold Json.parse at hobject
  unfold Decoder.text at he
  cases hread : Written.read body with
  | none => rw [hread] at he; cases he
  | some w =>
    rw [hread] at he hobject
    obtain ⟨room, ws, given, hroom, rfl, hgiven, hms⟩ := Written.json_object hobject
    rw [hroom] at he
    simp only [decoder, Decoder.fields, Option.bind_eq_bind, Option.bind_eq_some_iff, Option.map_eq_some_iff] at he
    obtain ⟨f, ⟨known, hknown, rfl⟩, code, hcode, message, hmessage, details, hdetails, trace, htrace, he⟩ := he
    cases he
    have hlookup := Decoder.lookup_knownMembers (k := "trace_id") (by simp) hknown hgiven
    rw [Option.bind_some, ← hms, Json.member?_record]
    cases hw : Table.lookup "trace_id" known with
    | none =>
      simp only [Decoder.Fields.optional, Decoder.Fields.withDefault, hw] at htrace
      rw [hw] at hlookup
      rw [Option.map_eq_none_iff.1 hlookup.symm]
      exact (Option.some.inj htrace).symm
    | some w =>
      simp only [Decoder.Fields.optional, Decoder.Fields.withDefault, hw] at htrace
      rw [hw, Option.map_some] at hlookup
      obtain ⟨j, hj, hjson⟩ := Option.map_eq_some_iff.1 hlookup.symm
      rw [hj]
      exact string_of_nullable htrace hjson.symm

theorem Answer.sent?_of_read {fresh : Uuid} {raw : RawResponse} {a : Answer} (h : ofRaw fresh raw = .ok a) :
    a.traceId.sent? = (bodyTrace? raw.body).or (raw.header? TraceId.header) := by
  unfold ofRaw at h
  simp only at h
  split at h
  · cases h
  · rename_i body hbody
    cases h
    rw [TraceId.sent?_choose]
    split at hbody
    · rename_i hblank
      cases hbody
      rw [bodyTrace?_of_blank hblank]
      cases raw.header? TraceId.header <;> rfl
    · unfold bodyTrace?
      rw [hbody, Option.bind_some]
      cases (body.member? "trace_id").bind Json.string? <;> cases raw.header? TraceId.header <;> rfl

theorem Answer.sent?_of_unread {fresh : Uuid} {raw : RawResponse} {err : ApiError} (h : ofRaw fresh raw = .error err) :
    err.traceId.sent? = (bodyTrace? raw.body).or (raw.header? TraceId.header) := by
  unfold ofRaw at h
  simp only at h
  split at h
  · rename_i hbody
    cases h
    split at hbody
    · cases hbody
    · unfold bodyTrace?
      rw [hbody]
      exact (TraceId.sent?_choose fresh _).trans (by cases raw.header? TraceId.header <;> rfl)
  · cases h

theorem ApiError.sent?_ofResponse (fresh : Uuid) (raw : RawResponse) : (ofResponse fresh raw).traceId.sent? =
    ((ErrorEnvelope.decoder.text raw.body).bind ErrorEnvelope.traceId).or (raw.header? TraceId.header) := by
  unfold ofResponse
  split
  · rename_i e he
    rw [TraceId.sent?_choose, he]
    cases hbody : e.traceId <;> cases raw.header? TraceId.header <;> simp [hbody]
  · rename_i he
    rw [TraceId.sent?_choose, he]
    cases raw.header? TraceId.header <;> rfl

/-- Of an answer with an object in its body the error carries what was sent exactly where the object is a whole envelope,
or names nothing that the header does not name. -/
theorem ApiError.tells_ofResponse_iff (fresh : Uuid) {raw : RawResponse} {ms : List (String × Json)}
    (hobject : Json.parse raw.body = some (.object ms)) :
    (ofResponse fresh raw).traceId.sent? = (bodyTrace? raw.body).or (raw.header? TraceId.header) ↔
      (ErrorEnvelope.decoder.text raw.body).isSome = true ∨ bodyTrace? raw.body = none ∨
        bodyTrace? raw.body = raw.header? TraceId.header := by
  rw [sent?_ofResponse]
  cases he : ErrorEnvelope.decoder.text raw.body with
  | some e =>
    rw [Option.bind_some, ErrorEnvelope.traceId_of_object he hobject]
    exact iff_of_true rfl (.inl rfl)
  | none =>
    show raw.header? TraceId.header = _ ↔ _
    cases bodyTrace? raw.body with
    | none => simp
    | some t => simpa using eq_comm

/-- The trace identifier that a reply carries, if it carries one. -/
def Reply.trace? : Reply → Option TraceId
  | .answered (.ok a) => some a.traceId
  | reply => reply.error?.map ApiError.traceId

theorem Reply.trace?_of_error {reply : Reply} {err : ApiError} (h : reply.error? = some err) :
    reply.trace? = some err.traceId := by
  unfold trace?
  split
  · cases h
  · rw [h]; rfl

/-- The answer is decoded where its trace identifier is no longer at hand. -/
def Purpose.decodesApart : Purpose → Bool
  | .list _ _ _ | .submit _ _ => true
  | .fetch | .refresh _ | .send => false

theorem Answer.traceId_of_decode {α : Type} {d : Decoder α} {a : Answer} {err : ApiError}
    (h : a.decode d = .error err) : err.traceId = a.traceId := by
  unfold decode at h
  split at h
  · cases h
  · cases h; rfl

namespace Client

theorem trace?_install {s : Session} {stamp : Stamp} {fresh : Uuid} {a : Answer} {trace : TraceId}
    (htrace : (Reply.installed (install s stamp (.minted fresh) (a.decode PermissionReport.decoder)).1).trace? = some trace)
    (hnot : ∀ err, (install s stamp (.minted fresh) (a.decode PermissionReport.decoder)).1 = .error err →
      err.category ≠ .cancelled) : trace = a.traceId := by
  cases hread : a.decode PermissionReport.decoder with
  | ok report =>
    rw [hread] at htrace hnot
    unfold install at htrace hnot
    simp only at htrace hnot
    split at htrace
    · cases htrace
    · rename_i hstale
      rw [if_neg hstale] at hnot
      exact absurd rfl (hnot _ rfl)
  | error err =>
    rw [hread] at htrace
    cases htrace
    exact Answer.traceId_of_decode hread

theorem trace?_listingReply {trace told : TraceId} {resource : Resource} {body : Json}
    (h : (listingReply trace resource (.ok body)).trace? = some told) : told = trace := by
  cases resource with
  | stores =>
    simp only [listingReply, decodeListing] at h
    split at h <;> cases h
    rfl
  | users =>
    simp only [listingReply, decodeListing] at h
    split at h <;> cases h
    rfl

theorem trace?_submissionReply {trace told : TraceId} {intent : Intent} {body : Json}
    (h : (submissionReply trace intent (.ok (.completed body))).trace? = some told) : told = trace := by
  cases intent with
  | createStore =>
    simp only [submissionReply, decodeSubmission] at h
    split at h <;> cases h
    rfl
  | createUser =>
    simp only [submissionReply, decodeSubmission] at h
    split at h <;> cases h
    rfl
  | savePolicy preview => cases h

/-- What a reply to an answer that was read carries: a fresh identifier where the reply is decoded apart. -/
theorem trace?_settle {s : Session} {p : Purpose} {a : Answer} {trace : TraceId}
    (htrace : (settle s p (.ok a)).1.trace? = some trace)
    (hnot : ∀ err, (settle s p (.ok a)).1.error? = some err → err.category ≠ .cancelled) :
    trace = if p.decodesApart = true then .minted s.mint.peek else a.traceId := by
  rcases p with _ | stamp | ⟨resource, stamp, key⟩ | ⟨m, tenant⟩ | _
  · have hreply : (settle s .fetch (.ok a)).1 = .report (a.decode PermissionReport.decoder) := rfl
    rw [hreply] at htrace
    cases hread : a.decode PermissionReport.decoder with
    | ok report => rw [hread] at htrace; cases htrace
    | error err =>
      rw [hread] at htrace
      cases htrace
      exact Answer.traceId_of_decode hread
  · refine trace?_install (s := s.skip 1) htrace fun err herr => hnot err ?_
    show (Reply.installed (install (s.skip 1) stamp _ (a.decode PermissionReport.decoder)).1).error? = _
    rw [herr]; rfl
  · exact trace?_listingReply htrace
  · exact trace?_submissionReply htrace
  · cases htrace; rfl

/-- A reply to a success that is decoded apart from a body that was read carries a fresh identifier, and any other what
was sent. -/
theorem sent?_of_success {s : Session} {fresh : Uuid} {p : Purpose} {raw : RawResponse} {trace : TraceId}
    (hsuccess : raw.isSuccess = true) (htrace : (settle s p (Arrival.read fresh (.ok raw))).1.trace? = some trace)
    (hnot : ∀ err, (settle s p (Arrival.read fresh (.ok raw))).1.error? = some err → err.category ≠ .cancelled) :
    (p.decodesApart = true ∧ (∃ value, Arrival.Yields (.ok raw) value) → trace.sent? = none) ∧
      (¬ (p.decodesApart = true ∧ ∃ value, Arrival.Yields (.ok raw) value) →
        trace.sent? = (bodyTrace? raw.body).or (raw.header? TraceId.header)) := by
  have hofRaw : Arrival.read fresh (.ok raw) = Answer.ofRaw fresh raw := by
    simp only [Arrival.read, hsuccess, if_true]
  cases hresult : Answer.ofRaw fresh raw with
  | ok a =>
    have hyields : Arrival.Yields (.ok raw) a.body := Arrival.yields_of_read (hofRaw.trans hresult)
    rw [hofRaw, hresult] at htrace hnot
    rw [trace?_settle htrace hnot]
    cases p.decodesApart with
    | true =>
      rw [if_pos rfl]
      exact ⟨fun _ => rfl, fun hnapart => absurd ⟨rfl, _, hyields⟩ hnapart⟩
    | false =>
      rw [if_neg (by decide)]
      exact ⟨fun hapart => absurd hapart.1 (by decide), fun _ => Answer.sent?_of_read hresult⟩
  | error err =>
    rw [hofRaw, hresult, Reply.trace?_of_error (settle_error _ _ _)] at htrace
    cases htrace
    refine ⟨?_, fun _ => Answer.sent?_of_unread hresult⟩
    rintro ⟨-, value, hyields⟩
    obtain ⟨a, ha, -⟩ := Arrival.read_of_yields hyields fresh
    rw [hofRaw, hresult] at ha; cases ha

/-- A reply to any other answer carries what its error does. -/
theorem trace_of_refusal {s : Session} {fresh : Uuid} {p : Purpose} {raw : RawResponse} {trace : TraceId}
    (hfail : raw.isSuccess = false) (htrace : (settle s p (Arrival.read fresh (.ok raw))).1.trace? = some trace) :
    trace = (ApiError.ofResponse fresh raw).traceId := by
  have hofResponse : Arrival.read fresh (.ok raw) = .error (.ofResponse fresh raw) := by
    simp only [Arrival.read, hfail, Bool.false_eq_true, if_false]
  rw [hofResponse, Reply.trace?_of_error (settle_error _ _ _)] at htrace
  exact (Option.some.inj htrace).symm

end Client

namespace Run

/-- A call that returns because of an answer, and not because its context has been left, settles what was read. -/
theorem reply_of_returned {r : Run} {id : Nat} {x : Exchange} {arrival : Arrival} {reply : Reply}
    (hx : r.ongoing.get? id = some (.answer x))
    (hreply : (r.act (.answer id arrival)).1 = .progressed id (.returned reply))
    (hnot : ∀ err, reply.error? = some err → err.category ≠ .cancelled) :
    reply = (Client.settle (r.session.skip 1) x.purpose (Arrival.read r.session.mint.peek arrival)).1 := by
  cases hv : Client.verdict r.config r.session x arrival with
  | again ms => rw [act_of_again hx hv] at hreply; cases hreply
  | settled result =>
    rw [act_of_settled hx hv] at hreply
    cases hreply
    rw [Client.verdict_eq] at hv
    split at hv
    · cases hv
    · cases hv
      cases hcontext : r.session.isInContext x.request with
      | true => rw [Session.receive_of_inContext hcontext]
      | false =>
        obtain ⟨stamp, hcancelled⟩ := Session.receive_of_left hcontext arrival
        exact absurd rfl (hnot _ (hcancelled ▸ Client.settle_error _ _ _))

/-- **What becomes of the server's trace identifier**, in a turn in which a call returns because of an answer and not
because its context has been left.  The identifier that was sent is the body's or else the last such header's.  A success
hands it on exactly where there is none or the reply is not decoded apart from a body that was read; there it carries a
fresh one.  A failure hands on that of its envelope or else the header's; for a body that is an object these are what
was sent exactly where the envelope is whole, or the object names none or the same as the header. -/
theorem trace_told_iff {r : Run} {id status : Nat} {x : Exchange} {headers : List (String × String)} {body : String}
    (hx : r.ongoing.get? id = some (.answer x)) {reply : Reply} {trace : TraceId}
    (hreply : (r.act (.answer id (.ok (.ofParts status headers body)))).1 = .progressed id (.returned reply))
    (hnot : ∀ err, reply.error? = some err → err.category ≠ .cancelled) (htrace : reply.trace? = some trace) :
    let raw := RawResponse.ofParts status headers body
    let header := headerTrace? headers
    let sent := (bodyTrace? body).or header
    (raw.isSuccess = true →
      (trace.sent? = sent ↔ sent = none ∨ ¬ (x.purpose.decodesApart = true ∧ ∃ value, Arrival.Yields (.ok raw) value)) ∧
      (x.purpose.decodesApart = true ∧ (∃ value, Arrival.Yields (.ok raw) value) → trace.sent? = none)) ∧
    (raw.isSuccess = false →
      trace.sent? = ((ErrorEnvelope.decoder.text body).bind ErrorEnvelope.traceId).or header ∧
      ∀ ms, Json.parse body = some (.object ms) →
        (trace.sent? = sent ↔ (ErrorEnvelope.decoder.text body).isSome = true ∨ bodyTrace? body = none ∨
          bodyTrace? body = header)) := by
  intro raw header sent
  have hbody : raw.body = body := (RawResponse.ofParts_eq status headers body).2
  have hheader : raw.header? TraceId.header = header := RawResponse.header?_ofParts status headers body
  cases reply_of_returned hx hreply hnot
  constructor
  · intro hsuccess
    obtain ⟨hfresh, hsent⟩ := Client.sent?_of_success hsuccess htrace hnot
    rw [hbody, hheader] at hsent
    refine ⟨?_, hfresh⟩
    by_cases hapart : x.purpose.decodesApart = true ∧ ∃ value, Arrival.Yields (.ok raw) value
    · rw [hfresh hapart]
      exact ⟨fun hnone => .inl hnone.symm, fun h => (h.resolve_right fun hn => hn hapart).symm⟩
    · exact iff_of_true (hsent hapart) (.inr hapart)
  · intro hfail
    rw [Client.trace_of_refusal hfail htrace]
    have htold := ApiError.sent?_ofResponse r.session.mint.peek raw
    rw [hbody, hheader] at htold
    refine ⟨htold, fun ms hobject => ?_⟩
    have hiff := ApiError.tells_ofResponse_iff r.session.mint.peek (hbody.symm ▸ hobject)
    rwa [hbody, hheader] at hiff

/-- A session in which this call is the first. -/
def beginning (call : Call) : Run :=
  (Run.start .standard (.ofUser ⟨.ofNat 1⟩ ⟨.ofNat 2⟩ ⟨"manager"⟩) (.ofMillis 0)).step (.begin call)

/-- What the first call returns on this answer, if it returns. -/
def replyTo? (call : Call) (status : Nat) (headers : List (String × String)) (body : String) : Option Reply :=
  match ((beginning call).act (.answer 0 (.ok (.ofParts status headers body)))).1 with
  | .progressed 0 (.returned reply) => some reply
  | _ => none

theorem act_of_replyTo? {call : Call} {status : Nat} {headers : List (String × String)} {body : String} {reply : Reply}
    (h : replyTo? call status headers body = some reply) :
    ((beginning call).act (.answer 0 (.ok (.ofParts status headers body)))).1 = .progressed 0 (.returned reply) := by
  unfold replyTo? at h
  split at h
  · rename_i he
    cases h
    exact he
  · cases h

/-- A refusal in the server's own form. -/
def goneEnvelope : String := "\x7b\"trace_id\":\"srv-2\",\"code\":\"gone\",\"message\":\"no such store\"\x7d"

theorem refusal_named_in_body :
    ∃ reply trace, replyTo? (.send (.make .get "/a")) 404 [("x-TRACE-id", "srv-1")] goneEnvelope = some reply ∧
      reply.trace? = some trace ∧ trace.sent? = some "srv-2" := by
  have hbody : bodyTrace? goneEnvelope = some "srv-2" := by decide +kernel
  obtain ⟨ms, hobject⟩ := object_of_bodyTrace? hbody
  have hwhole : (ErrorEnvelope.decoder.text goneEnvelope).isSome = true := by decide +kernel
  have hfiled : (replyTo? (.send (.make .get "/a")) 404 [("x-TRACE-id", "srv-1")] goneEnvelope).map
      (fun reply => reply.error?.map ApiError.category) = some (some .notFound) := by decide +kernel
  obtain ⟨reply, hreply, herror⟩ := Option.map_eq_some_iff.1 hfiled
  obtain ⟨err, herr, hcategory⟩ := Option.map_eq_some_iff.1 herror
  refine ⟨reply, err.traceId, hreply, Reply.trace?_of_error herr, ?_⟩
  obtain ⟨-, hfailed⟩ := trace_told_iff (r := beginning (.send (.make .get "/a"))) rfl (act_of_replyTo? hreply)
    (fun err' herr' => by
      rw [herr] at herr'
      cases herr'
      rw [hcategory]
      decide) (Reply.trace?_of_error herr)
  have hsent := ((hfailed rfl).2 ms hobject).2 (.inl hwhole)
  rw [hsent, hbody]
  rfl

/-- **A name that the server gave is lost** where a listing does not decode, and where a refusal is an object but no whole
envelope; and an envelope in the form of an array takes precedence over the header. -/
theorem given_name_lost :
    let told? := fun call status headers body =>
      (replyTo? call status headers body).bind (fun reply => reply.trace?.map TraceId.sent?)
    told? (.list .stores) 200 [("X-Trace-ID", "srv-1")] "\x7b\x7d" = some none ∧
    told? (.send (.make .get "/a")) 404 [] "\x7b\"trace_id\":\"srv-2\"\x7d" = some none ∧
    told? (.send (.make .get "/a")) 404 [("X-Trace-ID", "srv-1")] "[\"c\",\"m\",null,\"srv-4\"]" = some (some "srv-4") := by
  refine ⟨by decide +kernel, by decide +kernel, by decide +kernel⟩

end Run
end BackOffice
