import BackOffice.Sorted.Order
import BackOffice.Sorted.Set
import BackOffice.Text.Blank
import BackOffice.Json.Decoder
/-!
# Permission keys

A permission is named by a key such as `users.create`.  Keys are told apart and ordered by their
characters.  A key entered by hand has to hold at least one character and no blank; a key that
comes with a policy is taken as it is.
-/
namespace BackOffice

structure PermissionKey where
  text : String
deriving DecidableEq, Repr

namespace PermissionKey

instance : Ord PermissionKey := ⟨fun a b => compare a.text b.text⟩

instance : Std.TransOrd PermissionKey := transOrd_of_key text (fun _ _ => rfl)

instance : Std.LawfulEqOrd PermissionKey :=
  lawfulEqOrd_of_key text (fun _ _ => rfl) (fun ⟨_⟩ ⟨_⟩ h => by cases h; rfl)

/-- Why a text cannot be entered as a key. -/
inductive Refusal where
  | empty
  | blank (text : String)

def Refusal.message : Refusal → String
  | .empty   => "validation failed: permission key must not be empty"
  | .blank t => s!"validation failed: permission key '{t}' must not contain whitespace"

/-- A key entered by hand. -/
def parse (s : String) : Except Refusal PermissionKey :=
  if s.toList.isEmpty then .error .empty
  else if s.toList.any Text.isBlank then .error (.blank s)
  else .ok ⟨s⟩

/-- The part before the first point. -/
def category (k : PermissionKey) : String := String.ofList (k.text.toList.takeWhile (fun c => c != '.'))

def decoder : Decoder PermissionKey := Decoder.string.map (⟨·⟩)

def toJson (k : PermissionKey) : Json := .string k.text

end PermissionKey

abbrev KeySet := SortedSet PermissionKey

namespace KeySet

def decoder : Decoder KeySet := (Decoder.list PermissionKey.decoder).map SortedSet.ofList

def toJson (s : KeySet) : Json := .array (s.toList.map PermissionKey.toJson)

end KeySet
end BackOffice
