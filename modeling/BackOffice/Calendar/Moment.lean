import BackOffice.Calendar.Date
/-!
# Moments

What a clock shows, to the nanosecond.  Clocks are set, so of two readings the later may show the
earlier moment.
-/
namespace BackOffice

/-- Nanoseconds since the beginning of 1970. -/
abbrev Moment := Int

namespace Moment

/-- The end of the year 262142, the last moment that can be told. -/
def last : Moment := 8210266876799999999999

example : last + 1 = Calendar.Date.toDays ⟨262143, 1, 1⟩ * 86400000000000 := by decide

/-- The moment so many nanoseconds later, or the last one if that comes first. -/
def later (t : Moment) (nanos : Nat) : Moment := min (t + nanos) last

theorem lt_later_iff {t u : Moment} {nanos : Nat} : u < t.later nanos ↔ u < t + nanos ∧ u < last := Int.lt_min

end Moment
end BackOffice
