import BackOffice.Sorted.Table
/-!
# Context versions

Each context has a version, zero at first, that goes up by one whenever the context changes.  A
stamp keeps the version at which a request was made; it is current until the context changes.
-/
namespace BackOffice

/-- The version of one context at some moment. -/
structure Stamp where
  key     : String
  version : Nat
deriving DecidableEq, Repr

structure Contexts where
  versions : Table String Nat
deriving DecidableEq

namespace Contexts

def start : Contexts := ⟨.empty⟩

/-- The context of the tenant and store that a session works in. -/
def tenantKey : String := "tenant"

def current (c : Contexts) (key : String) : Nat := (c.versions.get? key).getD 0

/-- Moves a context on, and tells its new version. -/
def advance (c : Contexts) (key : String) : Nat × Contexts :=
  let v := c.current key + 1
  (v, ⟨c.versions.insert key v⟩)

def stamp (c : Contexts) (key : String) : Stamp := ⟨key, c.current key⟩

def isCurrent (c : Contexts) (s : Stamp) : Bool := c.current s.key == s.version

theorem current_advance (c : Contexts) (key other : String) :
    (c.advance key).2.current other = if key = other then c.current key + 1 else c.current other := by
  unfold advance current
  simp only [Table.get?_insert]
  by_cases h : key = other <;> simp [h]

end Contexts
end BackOffice
