import BackOffice.Ident.Uuid
/-!
# The mint

Fresh identifiers are drawn from an endless supply.  A mint keeps how many have been drawn, so a
session's use of fresh identifiers is part of its state, and whatever is assumed of the supply can
be stated of it.
-/
namespace BackOffice

structure Mint where
  supply : Nat → Uuid
  drawn  : Nat

namespace Mint

/-- The supply of version 7 identifiers of one millisecond. -/
def ofMillis (millis : Nat) : Mint := ⟨Uuid.version7 millis, 0⟩

/-- The next identifier. -/
def peek (m : Mint) : Uuid := m.supply m.drawn

/-- Draws an identifier. -/
def draw (m : Mint) : Uuid × Mint := (m.peek, { m with drawn := m.drawn + 1 })

end Mint
end BackOffice
