import BackOffice.Decimal.Binary64
import BackOffice.Sorted.Table
/-!
# JSON values

A value of the data format in which requests, answers and settings are written.  An object is the
list of its members; `Json.record` builds one in the order of the names, and `Json.canonical` puts
the members of every object in that order, of members with one name keeping the last.
-/
namespace BackOffice

/-- A number is an integer or a double; which of the two is part of the value. -/
inductive Number where
  | integer (n : Int)
  | double (x : Decimal.Binary64)
deriving DecidableEq, Repr

inductive Json where
  | null
  | bool (b : Bool)
  | number (n : Number)
  | string (s : String)
  | array (items : List Json)
  | object (members : List (String × Json))
deriving Repr

instance : Inhabited Json := ⟨.null⟩

namespace Json

def nat (n : Nat) : Json := .number (.integer n)

/-- Absent values are written as `null`. -/
def optional {α : Type} (f : α → Json) : Option α → Json
  | none   => .null
  | some a => f a

def strings (l : List String) : Json := .array (l.map .string)

/-- An object with the given members, in order of their names. -/
def record (members : List (String × Json)) : Json :=
  .object (members.foldl (fun l m => putSorted m.1 m.2 l) [])

/-- The object with `name` set to `v`; any other value stays as it is. -/
def setMember (name : String) (v : Json) : Json → Json
  | .object members => .object (putSorted name v members)
  | j => j

/-- The value of the member `name`, if the value is an object that has one. -/
def member? (name : String) : Json → Option Json
  | .object members => Table.lookup name members
  | _ => none

def string? : Json → Option String
  | .string s => some s
  | _ => none

mutual
/-- The value with the members of every object in order of their names, each name once. -/
def canonical : Json → Json
  | .array items    => .array (canonicalItems items)
  | .object members => .object ((canonicalMembers members).foldl (fun l m => putSorted m.1 m.2 l) [])
  | .null           => .null
  | .bool b         => .bool b
  | .number n       => .number n
  | .string s       => .string s

def canonicalItems : List Json → List Json
  | []      => []
  | v :: vs => canonical v :: canonicalItems vs

def canonicalMembers : List (String × Json) → List (String × Json)
  | []           => []
  | (k, v) :: ms => (k, canonical v) :: canonicalMembers ms
end

end Json
end BackOffice
