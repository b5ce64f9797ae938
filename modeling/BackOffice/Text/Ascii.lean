/-!
# ASCII letter case and substrings

Header names, method names and server texts are compared without regard to the case of the ASCII
letters; every other character stands for itself.
-/
namespace BackOffice
namespace Text

/-- The capital letters `A` to `Z` become small; nothing else changes. -/
def lowerChar (c : Char) : Char :=
  if 'A'.toNat ≤ c.toNat ∧ c.toNat ≤ 'Z'.toNat then Char.ofNat (c.toNat + 32) else c

def lower (s : String) : String := String.ofList (s.toList.map lowerChar)

/-- Equality up to the case of ASCII letters. -/
def sameIgnoringCase (s t : String) : Bool := lower s == lower t

/-- Whether `needle` occurs somewhere in the list. -/
def occursIn (needle : List Char) : List Char → Bool
  | []      => needle.isEmpty
  | c :: cs => needle.isPrefixOf (c :: cs) || occursIn needle cs

/-- Whether `needle` occurs somewhere in `s`. -/
def contains (s needle : String) : Bool := occursIn needle.toList s.toList

/-- Whether `s` begins with `front`. -/
def startsWith (s front : String) : Bool := front.toList.isPrefixOf s.toList

theorem startsWith_iff (s front : String) :
    startsWith s front = true ↔ ∃ rest, s.toList = front.toList ++ rest := by
  rw [startsWith, List.isPrefixOf_iff_prefix]
  exact ⟨fun ⟨r, h⟩ => ⟨r, h.symm⟩, fun ⟨r, h⟩ => ⟨r, h.symm⟩⟩

theorem sameIgnoringCase_iff (s t : String) : sameIgnoringCase s t = true ↔ lower s = lower t := beq_iff_eq

theorem sameIgnoringCase_self (s : String) : sameIgnoringCase s s = true := by
  simp [sameIgnoringCase]

end Text
end BackOffice
