import BackOffice.Http.Method
import BackOffice.Session.Contexts
import BackOffice.Text.Ascii
import BackOffice.Json.Value
/-!
# Requests

A request before it is sent.  A mutating request carries an idempotency key in a header, by which
the server recognises the same submission sent again, and may carry a transaction identifier in its
body.  The stamp tells in which context the request was made.
-/
namespace BackOffice

/-- The keys sent with one logical submission. -/
structure AttemptKeys where
  idempotencyKey : String
  transactionId  : String
deriving DecidableEq, Repr

structure Request where
  method  : Method
  path    : String
  query   : List (String × String)
  headers : List (String × String)
  body    : Option Json
  context : Option Stamp

namespace Request

def idempotencyHeader : String := "Idempotency-Key"

def transactionField : String := "transaction_id"

def make (method : Method) (path : String) : Request := ⟨method, path, [], [], none, none⟩

def withQuery (r : Request) (name value : String) : Request :=
  { r with query := r.query ++ [(name, value)] }

def withHeader (r : Request) (name value : String) : Request :=
  { r with headers := r.headers ++ [(name, value)] }

def withBody (r : Request) (body : Json) : Request := { r with body := some body }

def withContext (r : Request) (stamp : Stamp) : Request := { r with context := some stamp }

/-- Whether a header has the given name; letter case does not count. -/
def isNamed (name : String) (h : String × String) : Bool := Text.sameIgnoringCase h.1 name

/-- Puts the keys in place of any idempotency key that is there.  With `field`, a body that is an
object gets the transaction identifier as a member. -/
def withIdempotency (r : Request) (keys : AttemptKeys) (field : Bool) : Request :=
  { r with
    headers := r.headers.filter (fun h => !isNamed idempotencyHeader h)
      ++ [(idempotencyHeader, keys.idempotencyKey)]
    body := if field then r.body.map (Json.setMember transactionField (.string keys.transactionId))
      else r.body }

/-- The value of the first header with the given name. -/
def header? (r : Request) (name : String) : Option String :=
  (r.headers.find? (isNamed name)).map Prod.snd

def isMutation (r : Request) : Bool := r.method.isMutating

end Request
end BackOffice
