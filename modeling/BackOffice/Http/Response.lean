import BackOffice.Text.Ascii
import BackOffice.Sorted.Table
/-!
# Answers of the transport

The transport either brings an answer or tells how the exchange failed.  Header names are kept in
small letters, so a header is found in whatever case the server sent it.
-/
namespace BackOffice

structure RawResponse where
  status  : Nat
  headers : Table String String
  body    : String

/-- What went wrong on the wire. -/
inductive TransportError where
  | timeout
  | network (detail : String)
deriving DecidableEq, Repr

def TransportError.message : TransportError → String
  | .timeout   => "request timed out"
  | .network d => s!"network error: {d}"

namespace RawResponse

def make (status : Nat) (body : String) : RawResponse := ⟨status, .empty, body⟩

def withHeader (r : RawResponse) (name value : String) : RawResponse :=
  { r with headers := r.headers.insert (Text.lower name) value }

/-- An answer with the given headers; of headers with one name the last counts. -/
def ofParts (status : Nat) (headers : List (String × String)) (body : String) : RawResponse :=
  headers.foldl (fun r h => r.withHeader h.1 h.2) (make status body)

def header? (r : RawResponse) (name : String) : Option String := r.headers.get? (Text.lower name)

def isSuccess (r : RawResponse) : Bool := decide (200 ≤ r.status) && decide (r.status < 300)

end RawResponse

/-- How an exchange with the server ended. -/
abbrev Arrival := Except TransportError RawResponse

end BackOffice
