import BackOffice.Sorted.Table
import BackOffice.Json.Value
import BackOffice.Text.Ascii
import BackOffice.Calendar.Moment
/-!
# Cached answers

Answers to reads are kept by a key that names the resource, the scope of the reader, the path and
the query.  An entry lives for a while from the moment it is set.  Nothing happens when its time is
up: it is dropped when it is next looked up, and until then it is counted.  Whether it is up is
told by the clock alone, so where the clock is set back an entry that has not been dropped is found
again.
-/
namespace BackOffice

/-- A value that is kept, and the moment from which on it is not found any more. -/
structure Cache.Entry where
  value   : Json
  expires : Moment

structure Cache where
  /-- For how many nanoseconds an entry lives. -/
  lifetime : Nat
  /-- What the clock shows. -/
  clock    : Moment
  entries  : Table String Cache.Entry

namespace Cache

/-- The longest time that an entry may be given, in nanoseconds. -/
def longestLifetime : Nat := 9223372036854775807000000

/-- An empty cache whose entries live so many nanoseconds; twenty seconds if that is too long. -/
def ofLifetime (nanos : Nat) : Cache :=
  ⟨if nanos ≤ longestLifetime then nanos else 20000000000, 0, .empty⟩

/-- An empty cache whose entries live so many seconds. -/
def ofTtl (secs : Nat) : Cache := ofLifetime (secs * 1000000000)

def size (c : Cache) : Nat := c.entries.size

def isEmpty (c : Cache) : Bool := c.entries.isEmpty

/-- When the time of an entry will be up that is set now. -/
def expiry (c : Cache) : Moment := c.clock.later c.lifetime

/-- Looks an entry up; one whose time is up is dropped. -/
def get (c : Cache) (key : String) : Option Json × Cache :=
  match c.entries.get? key with
  | none   => (none, c)
  | some e =>
    if c.clock < e.expires then (some e.value, c)
    else (none, { c with entries := c.entries.erase key })

def set (c : Cache) (key : String) (v : Json) : Cache :=
  { c with entries := c.entries.insert key ⟨v, c.expiry⟩ }

/-- Drops the entries whose keys begin with `front`, and counts them. -/
def invalidate (c : Cache) (front : String) : Nat × Cache :=
  let kept := c.entries.filterKeys (fun k => !Text.startsWith k front)
  (c.entries.size - kept.size, { c with entries := kept })

def clear (c : Cache) : Cache := { c with entries := .empty }

/-! ## Keys -/

/-- Whether a query pair goes before another: by name, then by value. -/
def pairLe (a b : String × String) : Bool :=
  match compare a.1 b.1 with
  | .lt => true
  | .gt => false
  | .eq => (compare a.2 b.2).isLE

/-- A query in order of its pairs. -/
def queryText (query : List (String × String)) : String :=
  String.intercalate "&" ((query.mergeSort pairLe).map (fun p => p.1 ++ "=" ++ p.2))

/-- The key of a read: the order of its query does not count. -/
def key (resource scope path : String) (query : List (String × String)) : String :=
  resource ++ ":" ++ scope ++ ":" ++ path ++ "?" ++ queryText query

/-- What the keys of all reads of a resource by a tenant begin with. -/
def resourceFront (resource tenant : String) : String := resource ++ ":" ++ tenant ++ "/"

end Cache
end BackOffice
