import BackOffice.Text.Ascii
import BackOffice.Json.Decoder
/-!
# Categories of failure

Every failure is filed under one of nine categories.  The status decides if it is one of those with
a fixed category, else a word in the server's error code, else a word in the message.
-/
namespace BackOffice

inductive Category where
  | validation
  | permissionDenied
  | conflict
  | notFound
  | network
  | timeout
  | server
  | cancelled
  | unknown
deriving DecidableEq, Repr

namespace Category

def all : List Category :=
  [.validation, .permissionDenied, .conflict, .notFound, .network, .timeout, .server, .cancelled,
   .unknown]

def name : Category → String
  | .validation       => "validation"
  | .permissionDenied => "permission_denied"
  | .conflict         => "conflict"
  | .notFound         => "not_found"
  | .network          => "network"
  | .timeout          => "timeout"
  | .server           => "server"
  | .cancelled        => "cancelled"
  | .unknown          => "unknown"

/-- The categories of failures that may pass by themselves. -/
def isTransient : Category → Bool
  | .network | .timeout | .server => true
  | _ => false

def decoder : Decoder Category := Decoder.oneOf (all.map (fun c => (c.name, c)))

def toJson (c : Category) : Json := .string c.name

/-- The statuses with a fixed category. -/
def ofStatus (status : Nat) : Option Category :=
  if status = 400 ∨ status = 422 then some .validation
  else if status = 401 ∨ status = 403 then some .permissionDenied
  else if status = 404 ∨ status = 410 then some .notFound
  else if status = 409 ∨ status = 412 then some .conflict
  else if status = 408 then some .timeout
  else if 500 ≤ status ∧ status ≤ 599 then some .server
  else none

/-- The category of the first rule of which some word occurs in the text, in any letter case. -/
def ofWords : List (List String × Category) → String → Option Category
  | [],         _    => none
  | rule :: rs, text =>
    if rule.1.any (Text.contains (Text.lower text)) then some rule.2 else ofWords rs text

/-- The words that count in an error code. -/
def codeRules : List (List String × Category) :=
  [(["validation", "invalid"], .validation),
   (["permission", "forbidden", "unauthorized"], .permissionDenied),
   (["conflict", "idempotency", "duplicate"], .conflict),
   (["not_found"], .notFound),
   (["timeout"], .timeout)]

/-- The words that count in a message. -/
def messageRules : List (List String × Category) :=
  [(["timed out", "timeout"], .timeout),
   (["connection", "network", "unreachable"], .network),
   (["permission", "forbidden", "not allowed"], .permissionDenied),
   (["not found"], .notFound),
   (["already exists", "conflict"], .conflict),
   (["invalid", "required"], .validation)]

/-- Files a failure by status, code and message, in this order. -/
def classify (status : Option Nat) (code : Option String) (message : String) : Category :=
  ((status.bind ofStatus).or ((code.bind (ofWords codeRules)).or
    (ofWords messageRules message))).getD .unknown

end Category
end BackOffice
