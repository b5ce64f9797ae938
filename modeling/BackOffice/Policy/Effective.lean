import BackOffice.Policy.Decision
/-!
# Effective permissions

What a subject may do, key by key.  A key that is not listed is not allowed.  The ceiling of an
actor is the set of keys the actor is allowed: no other key may be granted by it.
-/
namespace BackOffice

/-- The keys in `requested` that the actor does not hold. -/
def ceilingViolations (held requested : KeySet) : KeySet := requested.sdiff held

structure EffectiveSet where
  verdicts : Table PermissionKey Bool
deriving DecidableEq

namespace EffectiveSet

def empty : EffectiveSet := ⟨.empty⟩

instance : Inhabited EffectiveSet := ⟨empty⟩

/-- The set of a list of verdicts; of verdicts on one key the last counts. -/
def ofPairs (l : List (PermissionKey × Bool)) : EffectiveSet := ⟨.ofList l⟩

def ofDecisions (l : List Decision) : EffectiveSet := ofPairs (l.map (fun d => (d.key, d.isAllowed)))

def isAllowed (s : EffectiveSet) (k : PermissionKey) : Bool := (s.verdicts.get? k).getD false

def allowedKeys (s : EffectiveSet) : KeySet := s.verdicts.keysWhere (fun _ allowed => allowed)

def size (s : EffectiveSet) : Nat := s.verdicts.size

def isEmpty (s : EffectiveSet) : Bool := s.verdicts.isEmpty

/-- The keys in `requested` beyond this actor's ceiling. -/
def ceilingViolations (s : EffectiveSet) (requested : KeySet) : KeySet :=
  BackOffice.ceilingViolations s.allowedKeys requested

def toJson (s : EffectiveSet) : Json :=
  Json.record [("permissions",
    Json.record (s.verdicts.entries.map (fun e => (e.1.text, .bool e.2))))]

theorem mem_allowedKeys (s : EffectiveSet) (k : PermissionKey) :
    k ∈ s.allowedKeys ↔ s.isAllowed k = true := by
  rw [allowedKeys, Table.mem_keysWhere, isAllowed]
  cases s.verdicts.get? k <;> simp

theorem mem_ceilingViolations (s : EffectiveSet) (requested : KeySet) (k : PermissionKey) :
    k ∈ s.ceilingViolations requested ↔ k ∈ requested ∧ s.isAllowed k = false := by
  rw [ceilingViolations, BackOffice.ceilingViolations, SortedSet.mem_sdiff, mem_allowedKeys,
    Bool.not_eq_true]

end EffectiveSet
end BackOffice
