import BackOffice.Failure.Category
import BackOffice.Http.Response
import BackOffice.Ident.Uuid
import BackOffice.Text.Blank
import BackOffice.Policy.Key
/-!
# Errors of calls

Every failure that reaches a caller is one `ApiError`: a category, what the server said if it said
something, and a trace identifier.  The trace identifier is the server's if the answer carried one,
and a fresh one otherwise.  How a failure looks on the wire, and hence whether a read may be sent
again, is `failureKind`; it depends on the status and not on what the server wrote.
-/
namespace BackOffice

/-- A trace identifier and where it comes from. -/
inductive TraceId where
  | server (text : String)
  | minted (id : Uuid)
deriving DecidableEq, Repr

namespace TraceId

def text : TraceId → String
  | .server t => t
  | .minted id => "local-" ++ id.text

/-- The header in which the server may send its trace identifier. -/
def header : String := "x-trace-id"

/-- The first trace identifier that was sent, or else a fresh one. -/
def choose (fresh : Uuid) : List (Option String) → TraceId
  | []             => .minted fresh
  | some t :: _    => .server t
  | none   :: rest => choose fresh rest

end TraceId

/-- How a call failed, seen from the wire. -/
inductive FailureKind where
  | network
  | timeout
  | http4xx (status : Nat)
  | http5xx (status : Nat)
  | cancelled
  | client
deriving DecidableEq, Repr

/-- The body of an error answer that keeps to the server's form. -/
structure ErrorEnvelope where
  code    : String
  message : String
  details : Option Json
  traceId : Option String

namespace ErrorEnvelope

def decoder : Decoder ErrorEnvelope := fun room w => do
  let f ← Decoder.fields ["code", "message", "details", "trace_id"] room w
  some {
    code := ← f.required "code" Decoder.string
    message := ← f.required "message" Decoder.string
    details := ← f.optional "details" Decoder.json
    traceId := ← f.optional "trace_id" Decoder.string }

/-- Absent parts are left out. -/
def toJson (e : ErrorEnvelope) : Json :=
  Json.record ([("code", .string e.code), ("message", .string e.message)]
    ++ (e.details.map (fun d => ("details", d))).toList
    ++ (e.traceId.map (fun t => ("trace_id", Json.string t))).toList)

end ErrorEnvelope

structure ApiError where
  category : Category
  status   : Option Nat
  code     : Option String
  message  : String
  details  : Option Json
  traceId  : TraceId

namespace ApiError

/-- An error without a status. -/
def make (trace : TraceId) (category : Category) (message : String) : ApiError :=
  ⟨category, none, none, message, none, trace⟩

def validation (trace : TraceId) (message : String) : ApiError := make trace .validation message

def permissionDenied (trace : TraceId) (message : String) : ApiError :=
  make trace .permissionDenied message

def conflict (trace : TraceId) (message : String) : ApiError := make trace .conflict message

/-- The answer came after its context had changed. -/
def cancelled (trace : TraceId) (context : String) : ApiError :=
  make trace .cancelled
    s!"response discarded: '{context}' context changed while the request was in flight"

/-- The answer was a success, but not of the expected form. -/
def invalidResponse (trace : TraceId) (message : String) : ApiError := make trace .unknown message

def missingPermission (trace : TraceId) (key : PermissionKey) : ApiError :=
  permissionDenied trace s!"missing permission '{key.text}'"

def ofTransport (trace : TraceId) : TransportError → ApiError
  | .timeout   => make trace .timeout "request timed out"
  | .network d => make trace .network d

/-- The error of an answer that is not a success.  A body in the server's form gives code, message
and details; of any other the text is the message, or the status if there is none. -/
def ofResponse (fresh : Uuid) (r : RawResponse) : ApiError :=
  match ErrorEnvelope.decoder.text r.body with
  | some e =>
    { category := Category.classify (some r.status) (some e.code) e.message
      status := some r.status
      code := some e.code
      message := e.message
      details := e.details
      traceId := TraceId.choose fresh [e.traceId, r.header? TraceId.header] }
  | none =>
    let text := Text.trim r.body
    let message := if text.isEmpty then s!"HTTP {r.status}" else text
    { category := Category.classify (some r.status) none message
      status := some r.status
      code := none
      message := message
      details := none
      traceId := TraceId.choose fresh [r.header? TraceId.header] }

/-- The whole error in one line. -/
def display (e : ApiError) : String := s!"{e.category.name}: {e.message} (trace {e.traceId.text})"

def failureKind (e : ApiError) : FailureKind :=
  match e.category, e.status with
  | .cancelled, _    => .cancelled
  | _, some status   => if 500 ≤ status then .http5xx status else .http4xx status
  | .timeout, none   => .timeout
  | .network, none   => .network
  | _, none          => .client

/-- Whether a read that failed so may be sent again. -/
def isRetryable (e : ApiError) : Bool :=
  match e.failureKind with
  | .network | .timeout | .http5xx _ => true
  | _ => false

/-- Whether to offer the user another try: only for a failure that may pass by itself, and only of
an operation that may safely be repeated. -/
def offersRetry (e : ApiError) (idempotent : Bool) : Bool := e.category.isTransient && idempotent

end ApiError
end BackOffice
