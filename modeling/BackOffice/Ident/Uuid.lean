import BackOffice.Sorted.Order
import BackOffice.Text.Hex
import BackOffice.Text.Ascii
/-!
# UUIDs

A number of 128 bits, written as thirty-two hexadecimal digits in groups of 8, 4, 4, 4 and 12.
It is read from the bare digits, from the groups, from the groups in braces and from the groups
after `urn:uuid:`; letters may have either case.
-/
namespace BackOffice

/-- How many UUIDs there are. -/
def uuidCount : Nat := Nat.pow 16 32

structure Uuid where
  bits : Nat
  isLt : bits < uuidCount
deriving DecidableEq, Repr

namespace Uuid

instance : Inhabited Uuid := ⟨⟨0, by decide⟩⟩

instance : Ord Uuid := ⟨fun a b => compare a.bits b.bits⟩

instance : Std.TransOrd Uuid := transOrd_of_key bits (fun _ _ => rfl)

instance : Std.LawfulEqOrd Uuid :=
  lawfulEqOrd_of_key bits (fun _ _ => rfl) (fun ⟨_, _⟩ ⟨_, _⟩ h => by cases h; rfl)

/-- The UUID with the given low 128 bits. -/
def ofNat (n : Nat) : Uuid := ⟨n % uuidCount, Nat.mod_lt _ (by decide)⟩

/-- The thirty-two digits without hyphens. -/
def digits (u : Uuid) : List Char := Text.hexDigits 32 u.bits

/-- Puts hyphens after the digits 8, 12, 16 and 20. -/
def hyphenate (cs : List Char) : List Char :=
  cs.take 8 ++ '-' :: ((cs.drop 8).take 4 ++ '-' :: ((cs.drop 12).take 4
    ++ '-' :: ((cs.drop 16).take 4 ++ '-' :: cs.drop 20)))

/-- The hyphenated form. -/
def text (u : Uuid) : String := String.ofList (hyphenate u.digits)

/-- The form without hyphens. -/
def simpleText (u : Uuid) : String := String.ofList u.digits

/-- Thirty-two digits. -/
def ofDigits (cs : List Char) : Option Uuid :=
  if cs.length = 32 then
    match Text.readHex cs with
    | none   => none
    | some n => if h : n < uuidCount then some ⟨n, h⟩ else none
  else none

/-- Thirty-two digits with hyphens in the four places. -/
def ofHyphenated (cs : List Char) : Option Uuid :=
  let ds := cs.filter (fun c => c != '-')
  if ds.length = 32 ∧ hyphenate ds = cs then ofDigits ds else none

def urnFront : List Char := "urn:uuid:".toList

/-- Reads any of the four forms. -/
def parse (s : String) : Option Uuid :=
  let cs := s.toList
  match cs with
  | '\x7b' :: rest =>
    if rest.getLast? = some '\x7d' then ofHyphenated rest.dropLast else none
  | _ =>
    if cs.length = 32 then ofDigits cs
    else if (cs.take 9).map Text.lowerChar = urnFront then ofHyphenated (cs.drop 9)
    else ofHyphenated cs

/-- A UUID of version 7: milliseconds, and 74 bits that tell apart those of one millisecond. -/
def version7 (millis serial : Nat) : Uuid :=
  let low := Nat.pow 2 62
  let high := serial / low % Nat.pow 2 12
  ofNat (millis % Nat.pow 2 48 * Nat.pow 2 80 + 7 * Nat.pow 2 76 + high * Nat.pow 2 64 + 2 * low
    + serial % low)

/-- The version, from the thirteenth digit. -/
def version (u : Uuid) : Nat := u.bits / Nat.pow 2 76 % 16

theorem readHex_digits (u : Uuid) : Text.readHex u.digits = some u.bits :=
  Text.readHex_hexDigits 32 u.bits u.isLt

theorem length_digits (u : Uuid) : u.digits.length = 32 := Text.length_hexDigits 32 u.bits

theorem ofDigits_digits (u : Uuid) : ofDigits u.digits = some u := by
  unfold ofDigits
  rw [if_pos u.length_digits, u.readHex_digits]
  exact dif_pos u.isLt

end Uuid
end BackOffice
