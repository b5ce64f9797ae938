import BackOffice.Failure.ApiError
/-!
# Answers that succeeded

The body of a successful answer as a JSON value, with its trace identifier: the body's if it is an
object with one, else the header's, else a fresh one.
-/
namespace BackOffice

structure Answer where
  status  : Nat
  body    : Json
  traceId : TraceId

namespace Answer

/-- Reads the body of a successful answer; an empty one is `null`. -/
def ofRaw (fresh : Uuid) (r : RawResponse) : Except ApiError Answer :=
  let header := r.header? TraceId.header
  let body := if (Text.trim r.body).isEmpty then some Json.null else Json.parse r.body
  match body with
  | none => .error (.invalidResponse (TraceId.choose fresh [header])
      "response body is not valid JSON: not a JSON text")
  | some body => .ok
      { status := r.status
        body := body
        traceId := TraceId.choose fresh [(body.member? "trace_id").bind Json.string?, header] }

/-- Decodes the body. -/
def decode {α : Type} (d : Decoder α) (a : Answer) : Except ApiError α :=
  match d.value a.body with
  | some x => .ok x
  | none   => .error (.invalidResponse a.traceId "unexpected response shape: not of this shape")

end Answer

/-- What an exchange comes to: an answer that succeeded, or the error it stands for. -/
def Arrival.read (fresh : Uuid) : Arrival → Except ApiError Answer
  | .error e => .error (ApiError.ofTransport (.minted fresh) e)
  | .ok r    => if r.isSuccess then Answer.ofRaw fresh r else .error (ApiError.ofResponse fresh r)

end BackOffice
